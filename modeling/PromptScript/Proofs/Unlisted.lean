import PromptScript.Proofs.Listing
import PromptScript.Proofs.Needs

/-! # What surveys do not list is not seen

A survey that finds no defect in a document without references lists all names that the document needs, if the
document is steady. Parameters that are not listed then have no effect on any call of a chain over it. Where a name is
assigned a value under a condition, or an attribute of a content tag reads a name, this need not be so. -/
namespace PromptScript

namespace Node

/-- Whether the parts of an attribute are steady. -/
def partsSteady : List Node → Bool
  | [] => true
  | .interpolation _ e _ :: r => e.isSteady && partsSteady r
  | _ :: r => partsSteady r

end Node

namespace Attribute

/-- Whether attributes are steady. -/
def allSteady : List Attribute → Bool
  | [] => true
  | .mk _ _ .flag :: r => allSteady r
  | .mk _ _ (.nodes parts) :: r => Node.partsSteady parts && allSteady r

/-- Whether attributes are written out. -/
def allStatic : List Attribute → Bool
  | [] => true
  | .mk _ _ .flag :: r => allStatic r
  | .mk _ _ (.nodes parts) :: r => (Survey.firstInterpolation? parts).isNone && allStatic r

end Attribute

namespace Node

mutual

/-- Whether the expressions in a node are steady, and the attributes of content tags that are no requests for tools
are written out. A closed part counts with its attributes. -/
def isSteady : Node → Bool
  | text _ _ _ | comment _ _ _ | config _ _ _ => true
  | interpolation _ e _ => e.isSteady
  | group _ body _ => allSteady body
  | choice _ test body none _ => test.isSteady && allSteady body
  | choice _ test body (some other) _ => test.isSteady && allSteady body && allSteady other
  | loop _ items _ _ body none _ => items.isSteady && allSteady body
  | loop _ items _ _ body (some other) _ => items.isSteady && allSteady body && allSteady other
  | element _ tag attributes body _ =>
    Attribute.allSteady attributes && match tag with
      | .content kind => allSteady body && (kind = some .toolCall || Attribute.allStatic attributes)
      | .message _ | .step => allSteady body
      | .scope | .reference => true

/-- Whether nodes are steady. -/
def allSteady : List Node → Bool
  | [] => true
  | n :: r => isSteady n && allSteady r

end

theorem usesOfParts_of_static {parts : List Node} (h : Survey.firstInterpolation? parts = none) :
    usesOfParts parts = .none := by
  induction parts with
  | nil => rfl
  | cons n r ih =>
    cases n with
    | interpolation => cases h
    | _ => exact ih h

end Node

/-- Attributes that are written out need nothing. -/
theorem Attribute.usesOf_of_static {attributes : List Attribute} (h : allStatic attributes = true) :
    usesOf attributes = .none := by
  induction attributes with
  | nil => rfl
  | cons a r ih =>
    obtain ⟨_, _, value⟩ := a
    cases value with
    | flag => exact ih h
    | nodes parts =>
      obtain ⟨static, rest⟩ := Bool.and_eq_true_iff.mp h
      rw [usesOf, Node.usesOfParts_of_static (Option.isNone_iff_eq_none.mp static), ih rest]
      rfl

namespace Usage

variable {u u' : Usage} {v w : Uses}

theorem Lists.mono (h : Lists u v u') (less : ∀ x ∈ w.needs, x ∈ v.needs) (more : ∀ x ∈ v.gives, x ∈ w.gives) :
    Lists u w u' where
  free := h.free
  used := h.used
  needs x need := h.needs x (less x need)
  gives x there := (h.gives x there).imp id (more x)

theorem defineAll_eq (names : List String) (u : Usage) : ∃ defined,
    u.defineAll names = { u with defined } ∧ ∀ x, x ∈ defined ↔ x ∈ u.defined ∨ x ∈ names := by
  induction names generalizing u with
  | nil => exact ⟨u.defined, rfl, by simp⟩
  | cons n r ih =>
    obtain ⟨defined, made, member⟩ := ih (u.define n)
    refine ⟨defined, made, fun x => (member x).trans ?_⟩
    have defined : x ∈ (u.define n).defined ↔ x = n ∨ x ∈ u.defined := Names.mem_insert
    rw [List.mem_cons, defined, or_comm (a := x = n), or_assoc]

theorem Lists.defineAll (free : u.allowed = .none) (names : List String) :
    Lists u ⟨[], names⟩ (u.defineAll names) := by
  obtain ⟨defined, made, member⟩ := defineAll_eq names u
  rw [made]
  exact ⟨free, fun _ => id, nofun, fun x there => (member x).mp there⟩

/-- A part in which some names are declared; what it declares ends with it. -/
theorem Lists.within (free : u.allowed = .none) {names : List String} {branch : Usage}
    (h : Lists (u.defineAll names) v branch) : Lists u (v.within names) (u.absorb branch) := by
  obtain ⟨defined, made, member⟩ := defineAll_eq names u
  rw [made] at h
  refine ⟨free, fun x there => Names.mem_union.mpr (.inl there), fun x need => ?_, fun _ => .inl⟩
  obtain ⟨need, other⟩ := List.mem_filter.mp need
  rcases h.needs x need with there | there
  · exact .inl (((member x).mp there).resolve_right (of_decide_eq_true other))
  · exact .inr (Names.mem_union.mpr (.inr there))

end Usage

namespace Survey

variable {α β : Type} {l : List Span}

/-- A part of a survey that lists what is needed. -/
abbrev Listing (u : Usage) (v : Uses) (part : Survey Usage) : Prop :=
  Cleanly (fun u' => u.allowed = none → u.Lists v u') part

namespace Listing

variable {u : Usage} {v w : Uses} {x : Survey Usage} {f : Usage → Survey Usage}

theorem pure : Listing u .none (Pure.pure u) := Cleanly.pure .none

theorem next (hx : Listing u v x) (hf : ∀ u, Listing u w (f u)) : Listing u (v.next w) (x >>= f) :=
  hx.bind fun u₁ => (hf u₁).mono fun _ second first free => (first free).next (second (first free).free)

/-- What comes before lists nothing. -/
theorem after {x : Survey α} {f : α → Survey Usage} {good : α → Prop} (hx : Cleanly good x)
    (hf : ∀ a, Listing u v (f a)) : Listing u v (x >>= f) :=
  hx.andThen hf

theorem absorb (hx : Listing u v x) : Listing u v.maybe (x >>= fun branch => return u.absorb branch) :=
  hx.bind fun _ => .pure fun lists free => .absorb free (lists free)

/-- A branch before what follows. -/
theorem branch (hx : Listing u v x) (hf : ∀ u, Listing u w (f u)) :
    Listing u (v.maybe.next w) (x >>= fun branch => f (u.absorb branch)) :=
  hx.bind fun _ => (hf _).mono fun _ second first free => (Usage.Lists.absorb free (first free)).next (second free)

theorem track {e : Expr} (steady : e.isSteady = true) (u : Usage) : Listing u e.uses (track e u) :=
  fun _ clean => ⟨(List.append_eq_nil_iff.mp clean).1, fun free => Expr.analyze_lists e steady (u, []) free⟩

theorem trackParts {parts : List Node} (steady : Node.partsSteady parts = true) (u : Usage) :
    Listing u (Node.usesOfParts parts) (trackParts parts u) := by
  induction parts generalizing u with
  | nil => exact pure
  | cons n r ih =>
    cases n with
    | interpolation span e p =>
      obtain ⟨first, rest⟩ := Bool.and_eq_true_iff.mp steady
      exact (track first u).next (ih rest)
    | _ => exact ih steady u

end Listing

theorem attributeNames_lists (static : List String) {attributes : List Attribute}
    (steady : Attribute.allSteady attributes = true) (names : Names) (u : Usage) :
    Cleanly (fun r => u.allowed = none → u.Lists (Attribute.usesOf attributes) r.2)
      (attributeNames static attributes names u) := by
  induction attributes generalizing names u with
  | nil => exact .pure .none
  | cons a r ih =>
    obtain ⟨span, name, value⟩ := a
    cases value with
    | flag => exact ih steady _ u
    | nodes parts =>
      obtain ⟨first, rest⟩ := Bool.and_eq_true_iff.mp steady
      unfold Survey.attributeNames
      split
      · exact .reported _ _ fun _ => ih rest names u
      · refine (Listing.trackParts first u).bind fun u₁ => (ih rest _ u₁).mono fun _ second first free => ?_
        exact (first free).next (second (first free).free)

section Tags

variable {u : Usage} {v : Uses} {body : Usage → Survey Usage} (h : ∀ u, Listing u v (body u))
  {attributes : List Attribute} (at_ : Setting) (span : Span)

include h

theorem content_lists (kind : Option ContentKind) (steady : Attribute.allSteady attributes = true)
    (listed : kind = some .toolCall ∨ Attribute.allStatic attributes = true) :
    Listing u ((Attribute.usesOf attributes).next v) (content at_ span kind attributes u body) := by
  refine (content_cleanly h at_ span kind (attributeNames_lists [] steady [] u) fun other free => ?_).mono ?_
  · rw [Attribute.usesOf_of_static (listed.resolve_left other)]
    exact .none free
  · rintro u' ⟨-, _, u₁, first, inside⟩ free
    exact (first free).next (inside (first free).free)

theorem message_lists (role : Option Role) (steady : Attribute.allSteady attributes = true) :
    Listing u ((Attribute.usesOf attributes).next v) (message at_ span role attributes u body) := by
  refine (message_cleanly h at_ span role (attributeNames_lists [] steady [] u)).mono ?_
  rintro u' ⟨-, _, u₁, first, inside⟩ free
  exact (first free).next (inside (first free).free)

omit h in
theorem closed_lists (grows : ∀ u, Cleanly (fun _ => True) (body u)) (steady : Attribute.allSteady attributes = true) :
    Listing u ((Attribute.usesOf attributes).next .none) (closed span attributes u body) := by
  refine (closed_cleanly grows span (attributeNames_lists [] steady [] u)).mono ?_
  rintro u' ⟨names, inner, first, -⟩ free
  exact (first free).next (.none (first free).free)

theorem step_lists (steady : Attribute.allSteady attributes = true) :
    Listing u ((Attribute.usesOf attributes).next (v.next ⟨[], stepResults attributes⟩))
      (step at_ span attributes u body) := by
  refine (step_cleanly h at_ span (attributeNames_lists stepResultNames steady [] u)).mono ?_
  rintro u' ⟨-, _, u₁, u₂, first, second, rfl⟩ free
  have inside := second (first free).free
  exact (first free).next (inside.next (.defineAll inside.free _))

theorem loopBody_lists (item : Binding) (index : Option Binding) :
    Listing u (v.within (Binding.names item index)) (loopBody item index u body) := by
  refine (loopBody_cleanly h item index u).mono ?_
  rintro u' ⟨branch, lists, rfl⟩ free
  obtain ⟨_, made, -⟩ := Usage.defineAll_eq (Binding.names item index) u
  exact .within free (lists (by rw [made]; exact free))

end Tags

section Walk

variable (check : Option (Config → Option String)) (follow : Follow)

mutual

/-- **Of a steady node a survey lists all names that it needs.** -/
theorem walk_lists (at_ : Setting) : ∀ (n : Node), n.isSteady = true → n.refers = false → ∀ u : Usage,
    Listing u n.uses (walk check follow at_ n u)
  | .text _ data _, _, _, u => by
    unfold walk
    split
    · exact Listing.after Cuts.markContent.cleanly fun _ => .pure
    · exact .pure
  | .comment span _ _, _, _, _ => Listing.after (Cuts.splice span).cleanly fun _ => .pure
  | .config .., _, _, _ => Listing.after (Cuts.header ..).cleanly fun _ => .pure
  | .interpolation _ e _, steady, _, u => Listing.after Cuts.markContent.cleanly fun _ => .track steady u
  | .group _ body _, steady, plain, u => walkAll_lists at_ body steady plain u
  | .choice _ test body none _, steady, plain, u => by
    obtain ⟨first, second⟩ := Bool.and_eq_true_iff.mp steady
    exact (Listing.track first u).next fun u => (walkAll_lists _ body second plain u).absorb
  | .choice _ test body (some other) _, steady, plain, u => by
    obtain ⟨steady, third⟩ := Bool.and_eq_true_iff.mp steady
    obtain ⟨first, second⟩ := Bool.and_eq_true_iff.mp steady
    obtain ⟨plain, plain'⟩ := Bool.or_eq_false_iff.mp plain
    exact (Listing.track first u).next fun u => (walkAll_lists _ body second plain u).branch fun u =>
      (walkAll_lists _ other third plain' u).absorb
  | .loop _ items item index body none _, steady, plain, u => by
    obtain ⟨first, second⟩ := Bool.and_eq_true_iff.mp steady
    exact (Listing.track first u).next fun u => loopBody_lists (fun u => walkAll_lists _ body second plain u) item index
  | .loop _ items item index body (some other) _, steady, plain, u => by
    obtain ⟨steady, third⟩ := Bool.and_eq_true_iff.mp steady
    obtain ⟨first, second⟩ := Bool.and_eq_true_iff.mp steady
    obtain ⟨plain, plain'⟩ := Bool.or_eq_false_iff.mp plain
    -- The survey visits the other part first, and neither part declares anything for the other.
    refine (Listing.track first u).next fun u => ?_
    have parts := (walkAll_lists { at_ with atRoot := false } other third plain' u).branch fun u =>
      loopBody_lists (fun u => walkAll_lists { at_ with atRoot := false } body second plain u) item index
    exact parts.mono fun u' lists free => (lists free).mono
      (fun x need => Uses.mem_needs_maybe_next.mpr (Uses.mem_needs_of_next need).symm) nofun
  | .element span tag attributes body _, steady, plain, u => by
    obtain ⟨named, steady⟩ := Bool.and_eq_true_iff.mp steady
    obtain ⟨known, plain⟩ := Bool.or_eq_false_iff.mp plain
    refine Listing.after Cuts.markContent.cleanly fun _ => ?_
    cases tag with
    | content kind =>
      obtain ⟨inside, listed⟩ := Bool.and_eq_true_iff.mp steady
      refine content_lists (fun u => walkAll_lists _ body inside plain u) _ span kind named ?_
      exact (Bool.or_eq_true_iff.mp listed).imp of_decide_eq_true id
    | message role => exact message_lists (fun u => walkAll_lists _ body steady plain u) _ span role named
    | reference => cases known
    | scope => exact closed_lists span (fun u => (Cuts.walkAll check follow _ body u plain).cleanly) named
    | step => exact step_lists (fun u => walkAll_lists _ body steady plain u) _ span named

/-- So does one of nodes in order. -/
theorem walkAll_lists (at_ : Setting) : ∀ nodes : List Node, Node.allSteady nodes = true → Node.refersAll nodes = false →
    ∀ u : Usage, Listing u (Node.usesOfAll nodes) (walkAll check follow at_ nodes u)
  | [], _, _, _ => .pure
  | n :: r, steady, plain, u => by
    obtain ⟨first, second⟩ := Bool.and_eq_true_iff.mp steady
    obtain ⟨plain, plain'⟩ := Bool.or_eq_false_iff.mp plain
    exact (walk_lists at_ n first plain u).next fun u => walkAll_lists at_ r second plain' u

end

end Walk

end Survey

namespace Source

variable {source : Source} {options : SurveyOptions} {d : Document}

/-- **A survey that finds no defect in a steady document without references lists all names that the document
needs.** -/
theorem needs_listed (parsed : Document.parse source.content.toList = .ok d) (free : options.parameters = none)
    (plain : Node.refersAll d.body = false) (steady : Node.allSteady d.body = true)
    (clean : (source.survey options none).diagnostics = []) :
    ∀ x ∈ (Node.usesOfAll d.body).needs, x ∈ (source.survey options none).parameters := by
  have walked := Survey.visit_cleanly
    (Survey.walkAll_lists options.check _ { atRoot := true } d.body steady plain (Usage.start _))
  obtain ⟨u, lists, listed⟩ := of_clean parsed clean walked
  intro x need
  rw [listed]
  exact Names.mem_union.mpr (.inl (((lists (by rw [free]; rfl)).needs x need).resolve_left nofun))

end Source

namespace Chain

variable {σ : Type} (host : Host σ)

/-- **What is not listed is not seen.** A survey finds no defect in a steady document without references. Then chains
over it with parameters that agree on all names that the survey lists give the same in every call. -/
theorem unlisted_unseen {source : Source} {options : SurveyOptions} {parameters parameters' : List (String × Value)}
    {format : Format} {settings : Options} {first first' : Chain}
    (begins : start source.content parameters format settings = .ok first)
    (begins' : start source.content parameters' format settings = .ok first') (free : options.parameters = none)
    (plain : Node.refersAll first.document.body = false) (steady : Node.allSteady first.document.body = true)
    (clean : (source.survey options none).diagnostics = [])
    (agree : ∀ x ∈ (source.survey options none).parameters,
      Fields.get? x (Fields.ofList parameters) = Fields.get? x (Fields.ofList parameters'))
    (responses : List (Option Response)) (world : World σ) :
    calls (Expr.eval host) responses first' world = calls (Expr.eval host) responses first world := by
  obtain ⟨-, -, -, -, -, -, parsed, -⟩ := start_eq_ok begins
  exact calls_eq_of_agree host begins begins'
    (fun x need => agree x (Source.needs_listed parsed free plain steady clean x need)) responses world

/-- A name is read and given to another, and a step is made in each round of a loop. -/
def namedRounds : Source :=
  ⟨"main", "\x7b\x7b t = name \x7d\x7d\x7b\x7b for x in [1, 2] \x7d\x7d<step as=\"r\">\x7b\x7b t \x7d\x7d</step>" ++
    "\x7b\x7b r \x7d\x7d\x7b\x7b endfor \x7d\x7d"⟩

/-- Of two parameters one is listed, and whether the other is there is not seen. -/
theorem unlisted_unseen_in_rounds : ∃ first first',
    start namedRounds.content [("name", .string "Ada"), ("other", .string "x")] .canonical {} = .ok first ∧
      start namedRounds.content [("name", .string "Ada")] .canonical {} = .ok first' ∧
      (namedRounds.survey {} none).parameters = ["name"] ∧
      ∀ (responses : List (Option Response)) (world : World Unit),
        calls (Expr.eval Host.idle) responses first' world = calls (Expr.eval Host.idle) responses first world := by
  have fine : (Document.parse namedRounds.content.toList).toOption.map (fun d =>
      (Node.refersAll d.body, Node.allSteady d.body)) = some (false, true) := by decide +kernel
  have clean : (namedRounds.survey {} none).diagnostics = [] := by decide +kernel
  have listed : (namedRounds.survey {} none).parameters = ["name"] := by decide +kernel
  cases parsed : Document.parse namedRounds.content.toList with
  | error diagnostic => rw [parsed] at fine; cases fine
  | ok d =>
    rw [parsed] at fine
    obtain ⟨plain, steady⟩ := Prod.mk.inj (Option.some.inj fine)
    have begins (parameters : List (String × Value)) : ∃ chain, chain.document = d ∧
        start namedRounds.content parameters .canonical {} = .ok chain := by
      unfold start
      rw [parsed]
      exact ⟨_, rfl, rfl⟩
    obtain ⟨first, rfl, begins₁⟩ := begins [("name", .string "Ada"), ("other", .string "x")]
    obtain ⟨first', -, begins₂⟩ := begins [("name", .string "Ada")]
    refine ⟨first, first', begins₁, begins₂, listed,
      unlisted_unseen Host.idle begins₁ begins₂ rfl plain steady clean fun x member => ?_⟩
    rw [listed] at member
    obtain rfl := List.mem_singleton.mp member
    rfl

/-- A survey of the text finds no defect and lists nothing, and yet the first call shows the parameter `x`. -/
def ShowsUnlisted (text : String) : Prop :=
  ∃ first first', start text [("x", .string "secret")] .canonical {} = .ok first ∧
    start text [] .canonical {} = .ok first' ∧ Node.refersAll first.document.body = false ∧
    ((⟨"main", text⟩ : Source).survey {} none).diagnostics = [] ∧
    ((⟨"main", text⟩ : Source).survey {} none).parameters = [] ∧
    calls (Expr.eval Host.idle) [none] first' ⟨0, ()⟩ ≠ calls (Expr.eval Host.idle) [none] first ⟨0, ()⟩

theorem showsUnlisted_of_texts {text : String} (clean : ((⟨"main", text⟩ : Source).survey {} none).diagnostics = [])
    (listed : ((⟨"main", text⟩ : Source).survey {} none).parameters = [])
    (differ : ((start text [("x", .string "secret")] .canonical {}).toOption.any fun first =>
      (start text [] .canonical {}).toOption.any fun first' =>
        !Node.refersAll first.document.body && first'.callTexts [none] != first.callTexts [none]) = true) :
    ShowsUnlisted text := by
  unfold ShowsUnlisted
  cases begins : start text [("x", .string "secret")] .canonical {} with
  | error fault => rw [begins] at differ; cases differ
  | ok first =>
    cases begins' : start text [] .canonical {} with
    | error fault => rw [begins, begins'] at differ; cases differ
    | ok first' =>
      rw [begins, begins'] at differ
      obtain ⟨plain, differ⟩ := Bool.and_eq_true_iff.mp differ
      refine ⟨first, first', rfl, rfl, (Bool.not_eq_true' _).mp plain, clean, listed, fun same => ?_⟩
      exact bne_iff_ne.mp differ (by unfold callTexts; rw [same])

/-- An attribute of a content tag reads a name that is not listed. So does an interpolation after an assignment that
is not made. -/
theorem unlisted_seen :
    ShowsUnlisted "<content-text a=\x7b\x7b x \x7d\x7d>hi</content-text>" ∧
      ShowsUnlisted "\x7b\x7b false && (x = 1) \x7d\x7d\x7b\x7b x \x7d\x7d" :=
  ⟨showsUnlisted_of_texts (by decide +kernel) (by decide +kernel) (by decide +kernel),
    showsUnlisted_of_texts (by decide +kernel) (by decide +kernel) (by decide +kernel)⟩

end Chain
end PromptScript
