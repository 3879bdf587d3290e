import PromptScript.Proofs.Attributes
import PromptScript.Proofs.Unlisted

/-! # Closed parts that surveys accept

A survey and the check that a pass makes of a closed part go over the same nodes. Where the survey finds no defect the
check finds nothing wrong with any closed part, if its attributes have values and the attributes of content tags are
written out: those a survey does not visit. -/
namespace PromptScript

namespace Usage

/-- What the check of a closed part knows of the names at a place: it accepts reads of the names given, and it knows
all declarations that the survey knows of, unless they are given too. -/
structure Covers (names : Names) (u c : Usage) : Prop where
  free : u.allowed = none
  only : c.allowed = some names
  defined : ∀ x ∈ u.defined, x ∈ c.defined ∨ x ∈ names

/-- A survey comes from one usage to another over a piece that the check goes over by `f`. As long as all names used
are among those given the check finds nothing wrong. -/
structure Closing (u u' : Usage) (f : Usage × List Fault → Usage × List Fault) : Prop where
  allowed : u'.allowed = u.allowed
  used : ∀ x ∈ u.used, x ∈ u'.used
  closes : ∀ names s, (∀ x ∈ u'.used, x ∈ names) → Covers names u s.1 → (f s).2 = s.2 ∧ Covers names u' (f s).1

variable {u u' u₁ b c : Usage} {f g : Usage × List Fault → Usage × List Fault} {names : Names}

theorem mem_defined_defineAll {l : List String} {x : String} :
    x ∈ (u.defineAll l).defined ↔ x ∈ u.defined ∨ x ∈ l := by
  obtain ⟨defined, made, member⟩ := defineAll_eq l u
  rw [made]
  exact member x

theorem allowed_defineAll (l : List String) : (u.defineAll l).allowed = u.allowed := by
  obtain ⟨defined, made, -⟩ := defineAll_eq l u
  rw [made]

theorem used_defineAll (l : List String) : (u.defineAll l).used = u.used := by
  obtain ⟨defined, made, -⟩ := defineAll_eq l u
  rw [made]

/-- A read records a name at most. -/
theorem read_fst (name : String) (span : Span) (u : Usage) :
    ∃ used, (u.read name span).1 = { u with used } ∧ ∀ x ∈ u.used, x ∈ used := by
  unfold read
  split
  · exact ⟨u.used, rfl, fun _ => id⟩
  · split
    · exact ⟨_, rfl, fun _ there => Names.mem_insert.mpr (.inr there)⟩
    · exact ⟨u.used, rfl, fun _ => id⟩

/-- The check accepts a read of a name that is declared or given. -/
theorem read_of_known {name : String} {span : Span} (only : c.allowed = some names)
    (known : name = nowName ∨ name ∈ c.defined ∨ name ∈ names) : c.read name span = (c, []) := by
  unfold read
  split
  · rfl
  · next unknown =>
    rw [only]
    have given : name ∈ names := (or_assoc.mpr known).resolve_left unknown
    simp only [if_pos given]

namespace Covers

theorem defineAll (h : Covers names u c) (l : List String) : Covers names (u.defineAll l) (c.defineAll l) where
  free := (allowed_defineAll l).trans h.free
  only := (allowed_defineAll l).trans h.only
  defined x there := by
    rcases mem_defined_defineAll.mp there with there | there
    · exact (h.defined x there).imp (fun known => mem_defined_defineAll.mpr (.inl known)) id
    · exact .inl (mem_defined_defineAll.mpr (.inr there))

/-- Reads do not matter. -/
theorem absorb_left (h : Covers names u c) (b : Usage) : Covers names (u.absorb b) c := ⟨h.free, h.only, h.defined⟩

theorem absorb_right (h : Covers names u c) (b : Usage) : Covers names u (c.absorb b) := ⟨h.free, h.only, h.defined⟩

end Covers

namespace Closing

theorem refl (u : Usage) : Closing u u id := ⟨rfl, fun _ => id, fun _ _ _ h => ⟨rfl, h⟩⟩

theorem trans (h : Closing u u₁ f) (h' : Closing u₁ u' g) : Closing u u' (fun s => g (f s)) where
  allowed := h'.allowed.trans h.allowed
  used x there := h'.used x (h.used x there)
  closes names s given covers := by
    obtain ⟨none, covers⟩ := h.closes names s (fun x there => given x (h'.used x there)) covers
    obtain ⟨none', covers⟩ := h'.closes names (f s) given covers
    exact ⟨none'.trans none, covers⟩

theorem read (name : String) (span : Span) (u : Usage) :
    Closing u (u.read name span).1 (fun s => ((s.1.read name span).1, s.2 ++ (s.1.read name span).2)) := by
  obtain ⟨used, made, more⟩ := u.read_fst name span
  rw [made]
  refine ⟨rfl, more, fun names s given covers => ?_⟩
  have known : name = nowName ∨ name ∈ s.1.defined ∨ name ∈ names := by
    by_cases declared : name = nowName ∨ name ∈ u.defined
    · exact declared.imp id (covers.defined name)
    · have used : (u.read name span).1.used = Names.insert name u.used := by
        unfold Usage.read
        rw [if_neg declared, covers.free]
        rfl
      rw [made] at used
      exact .inr (.inr (given name (used ▸ Names.mem_insert.mpr (.inl rfl))))
  rw [read_of_known covers.only known]
  exact ⟨List.append_nil _, covers.free, covers.only, covers.defined⟩

theorem define (name : String) (u : Usage) : Closing u (u.define name) (fun s => (s.1.define name, s.2)) where
  allowed := rfl
  used _ := id
  closes _ _ _ covers := ⟨rfl, covers.defineAll [name]⟩

theorem defineAll (l : List String) (u : Usage) : Closing u (u.defineAll l) (fun s => (s.1.defineAll l, s.2)) where
  allowed := allowed_defineAll l
  used _ there := (used_defineAll l).symm ▸ there
  closes _ _ _ covers := ⟨rfl, covers.defineAll l⟩

/-- A branch in which some names are declared. -/
theorem within {l : List String} (h : Closing (u.defineAll l) b f) :
    Closing u (u.absorb b) (fun s => Node.afterBranch s.1 (f (s.1.defineAll l, s.2))) where
  allowed := rfl
  used x there := Names.mem_union.mpr (.inl there)
  closes names s given covers := by
    obtain ⟨none, -⟩ := h.closes names (s.1.defineAll l, s.2)
      (fun x there => given x (Names.mem_union.mpr (.inr there))) (covers.defineAll l)
    exact ⟨none, (covers.absorb_left _).absorb_right _⟩

theorem branch (h : Closing u b f) : Closing u (u.absorb b) (fun s => Node.afterBranch s.1 (f s)) :=
  within (l := []) h

/-- Two branches, of which the check visits the second first. -/
theorem swap {b' : Usage} {l : List String} (h : Closing u b f) (h' : Closing ((u.absorb b).defineAll l) b' g) :
    Closing u ((u.absorb b).absorb b') (fun s =>
      let s := Node.afterBranch s.1 (g (s.1.defineAll l, s.2))
      Node.afterBranch s.1 (f s)) where
  allowed := rfl
  used x there := Names.mem_union.mpr (.inl (Names.mem_union.mpr (.inl there)))
  closes names s given covers := by
    have inFirst (x : String) (there : x ∈ b.used) : x ∈ names :=
      given x (Names.mem_union.mpr (.inl (Names.mem_union.mpr (.inr there))))
    have inSecond (x : String) (there : x ∈ b'.used) : x ∈ names := given x (Names.mem_union.mpr (.inr there))
    obtain ⟨none, -⟩ := h'.closes names (s.1.defineAll l, s.2) inSecond ((covers.absorb_left b).defineAll l)
    have covers := covers.absorb_right (g (s.1.defineAll l, s.2)).1
    obtain ⟨none', -⟩ := h.closes names (Node.afterBranch s.1 (g (s.1.defineAll l, s.2))) inFirst covers
    exact ⟨none'.trans none, ((covers.absorb_left b).absorb_left b').absorb_right _⟩

end Closing
end Usage

namespace Expr

open Usage

mutual

/-- The check passes over an expression as the survey does. -/
theorem analyze_closing : ∀ (e : Expr) (s : Usage × List Fault), Closing s.1 (e.analyze s).1 e.analyze
  | literal _ _, s => .refl s.1
  | identifier span name, s => .read name span s.1
  | array _ items, s | sequence _ items, s => analyzeItems_closing items s
  | object _ fields, s => analyzeFields_closing fields s
  | unary _ _ e, s | update _ _ _ e, s | chain _ e, s => analyze_closing e s
  | binary _ _ a b, s | logical _ _ a b, s => (analyze_closing a s).trans (analyze_closing b _)
  | conditional _ test a b, s =>
    (analyze_closing test s).trans ((analyze_closing a _).trans (analyze_closing b _))
  | assignment _ op target value, s => by
    have first := analyze_closing value s
    have second := first.trans (analyze_closing target _)
    cases op with
    | assign =>
      cases target with
      | identifier span name => exact first.trans (.define name _)
      | _ => exact second
    | _ => exact second
  | member _ base key _, s => (analyze_closing base s).trans (analyzeKey_closing key _)
  | call _ callee arguments _, s => (analyze_closing callee s).trans (analyzeItems_closing arguments _)

theorem analyzeItems_closing : ∀ (items : List Expr) (s : Usage × List Fault),
    Closing s.1 (analyzeItems items s).1 (analyzeItems items)
  | [], s => .refl s.1
  | e :: r, s => (analyze_closing e s).trans (analyzeItems_closing r _)

theorem analyzeFields_closing : ∀ (fields : List (Key × Expr)) (s : Usage × List Fault),
    Closing s.1 (analyzeFields fields s).1 (analyzeFields fields)
  | [], s => .refl s.1
  | (key, e) :: r, s => (analyzeKey_closing key s).trans ((analyze_closing e _).trans (analyzeFields_closing r _))

theorem analyzeKey_closing : ∀ (key : Key) (s : Usage × List Fault), Closing s.1 (analyzeKey key s).1 (analyzeKey key)
  | .named _, s => .refl s.1
  | .computed e, s => analyze_closing e s

end

end Expr

/-! ## Closed parts -/

/-- A closed part: the attributes of its tag, and its body. -/
structure ClosedPart where
  attributes : List Attribute
  body : List Node

/-- The check finds nothing wrong with a part whose attributes have values. -/
def ClosedPart.Accepted (part : ClosedPart) : Prop :=
  ∀ names : List String, (∀ a ∈ part.attributes, a.name ∈ names) → Node.closureFaults names part.body = []

namespace Node

mutual

/-- The closed parts in a node, also those in other closed parts. -/
def closedParts : Node → List ClosedPart
  | text _ _ _ | comment _ _ _ | config _ _ _ | interpolation _ _ _ => []
  | group _ body _ | choice _ _ body none _ | loop _ _ _ _ body none _ => closedPartsAll body
  | choice _ _ body (some other) _ | loop _ _ _ _ body (some other) _ => closedPartsAll body ++ closedPartsAll other
  | element _ tag attributes body _ =>
    match tag with
    | .scope => ⟨attributes, body⟩ :: closedPartsAll body
    | .content _ | .message _ | .step => closedPartsAll body
    | .reference => []

def closedPartsAll : List Node → List ClosedPart
  | [] => []
  | n :: r => closedParts n ++ closedPartsAll r

end

mutual

/-- Whether the attributes of all content tags in a node that are no requests for tools are written out. -/
def isSpelled : Node → Bool
  | text _ _ _ | comment _ _ _ | config _ _ _ | interpolation _ _ _ => true
  | group _ body _ | choice _ _ body none _ | loop _ _ _ _ body none _ => allSpelled body
  | choice _ _ body (some other) _ | loop _ _ _ _ body (some other) _ => allSpelled body && allSpelled other
  | element _ tag attributes body _ =>
    match tag with
    | .content kind => allSpelled body && (kind = some .toolCall || Attribute.allStatic attributes)
    | .message _ | .step | .scope => allSpelled body
    | .reference => true

def allSpelled : List Node → Bool
  | [] => true
  | n :: r => isSpelled n && allSpelled r

end

theorem analyzeAll_of_static {parts : List Node} (plain : parts.all isPart = true)
    (static : Survey.firstInterpolation? parts = none) (s : Usage × List Fault) : analyzeAll parts s = s := by
  induction parts generalizing s with
  | nil => rfl
  | cons n r ih =>
    obtain ⟨first, rest⟩ := Bool.and_eq_true_iff.mp plain
    cases n with
    | text => exact ih rest static s
    | interpolation => cases static
    | _ => cases first

/-- Attributes that are written out read nothing. -/
theorem analyzeAttributes_of_static {attributes : List Attribute} (plain : attributes.all Attribute.isPlain = true)
    (static : Attribute.allStatic attributes = true) (s : Usage × List Fault) : analyzeAttributes attributes s = s := by
  induction attributes generalizing s with
  | nil => rfl
  | cons a r ih =>
    obtain ⟨_, _, value⟩ := a
    obtain ⟨first, rest⟩ := Bool.and_eq_true_iff.mp plain
    cases value with
    | flag => exact ih rest static s
    | nodes parts =>
      obtain ⟨static, statics⟩ := Bool.and_eq_true_iff.mp static
      show analyzeAttributes r (analyzeAll parts s) = s
      rw [analyzeAll_of_static first (Option.isNone_iff_eq_none.mp static), ih rest statics]

end Node

namespace Survey

open Usage (Closing)

theorem track_closing (e : Expr) (u : Usage) : Cleanly (fun u' => Closing u u' e.analyze) (track e u) :=
  fun _ clean => ⟨(List.append_eq_nil_iff.mp clean).1, e.analyze_closing (u, [])⟩

theorem trackParts_closing {parts : List Node} (plain : parts.all Node.isPart = true) (u : Usage) :
    Cleanly (fun u' => Closing u u' (Node.analyzeAll parts)) (trackParts parts u) := by
  induction parts generalizing u with
  | nil => exact .pure (.refl u)
  | cons n r ih =>
    obtain ⟨first, rest⟩ := Bool.and_eq_true_iff.mp plain
    cases n with
    | interpolation span e p =>
      exact (track_closing e u).bind fun u₁ => (ih rest u₁).mono fun _ second first => first.trans second
    | text => exact ih rest u
    | _ => cases first

theorem attributeNames_closing (static : List String) {attributes : List Attribute}
    (plain : attributes.all Attribute.isPlain = true) (names : Names) (u : Usage) :
    Cleanly (fun r => Closing u r.2 (Node.analyzeAttributes attributes) ∧
        ∀ x ∈ r.1, x ∈ names ∨ ∃ a ∈ attributes, a.name = x) (attributeNames static attributes names u) := by
  induction attributes generalizing names u with
  | nil => exact .pure ⟨.refl u, fun _ => .inl⟩
  | cons a r ih =>
    obtain ⟨span, name, value⟩ := a
    obtain ⟨first, rest⟩ := Bool.and_eq_true_iff.mp plain
    have named {found : Names} (more : ∀ x ∈ found, x ∈ Names.insert name names ∨ ∃ a ∈ r, a.name = x) :
        ∀ x ∈ found, x ∈ names ∨ ∃ a ∈ .mk span name value :: r, a.name = x := by
      intro x there
      rcases more x there with inserted | ⟨a, member, same⟩
      · rcases Names.mem_insert.mp inserted with rfl | known
        · exact .inr ⟨_, List.mem_cons_self, rfl⟩
        · exact .inl known
      · exact .inr ⟨a, List.mem_cons_of_mem _ member, same⟩
    cases value with
    | flag => exact (ih rest _ u).mono fun _ ⟨closing, more⟩ => ⟨closing, named more⟩
    | nodes parts =>
      unfold attributeNames
      split
      · exact .reported _ _ fun _ => ih rest names u
      · refine (trackParts_closing first u).bind fun u₁ => (ih rest _ u₁).mono fun _ ⟨second, more⟩ first => ?_
        exact ⟨first.trans second, named more⟩

/-- What a survey of a node makes of the usage, and of the closed parts in it. -/
def Closes (n : Node) (u u' : Usage) : Prop :=
  Closing u u' n.analyze ∧ (u.allowed = none → ∀ part ∈ n.closedParts, part.Accepted)

def ClosesAll (nodes : List Node) (u u' : Usage) : Prop :=
  Closing u u' (Node.analyzeAll nodes) ∧ (u.allowed = none → ∀ part ∈ Node.closedPartsAll nodes, part.Accepted)

/-- A closed part is accepted where the survey of its body uses no names but those of its attributes. -/
theorem accepted_of_closes {attributes : List Attribute} {body : List Node} {names : Names} {inner : Usage}
    (named : ∀ x ∈ names, ∃ a ∈ attributes, a.name = x) (closing : Closing ⟨none, [], names⟩ inner (Node.analyzeAll body))
    (used : ∀ x ∈ inner.used, x ∈ names) : ClosedPart.Accepted ⟨attributes, body⟩ := by
  intro given values
  have among (x : String) (there : x ∈ names) : x ∈ Names.ofList given := by
    obtain ⟨a, member, rfl⟩ := named x there
    exact Names.mem_ofList.mpr (values a member)
  exact (closing.closes (Names.ofList given) (Usage.start (some (Names.ofList given)), [])
    (fun x there => among x (used x there)) ⟨rfl, rfl, fun x there => .inr (among x there)⟩).1

section Walk

/-- What is done at references makes of the usage what the check makes of it. -/
def Follow.Closes (follow : Follow) : Prop :=
  ∀ span attributes body u, attributes.all Attribute.isPlain = true →
    Cleanly (fun u' => Closing u u' (Node.element span .reference attributes body none).analyze)
      (follow span attributes body u)

variable (check : Option (Config → Option String)) {follow : Follow}

mutual

/-- **A clean survey of a node accepts the closed parts in it.** -/
theorem walk_closes (follows : follow.Closes) (at_ : Setting) : ∀ n : Node, n.isPlain = true → n.isSpelled = true → ∀ u : Usage,
    Cleanly (Closes n u) (walk check follow at_ n u)
  | .text _ data _, _, _, u => by
    unfold walk
    split
    · exact Cuts.markContent.cleanly.andThen fun _ => .pure ⟨.refl u, fun _ => nofun⟩
    · exact .pure ⟨.refl u, fun _ => nofun⟩
  | .comment span _ _, _, _, u => (Cuts.splice span).cleanly.andThen fun _ => .pure ⟨.refl u, fun _ => nofun⟩
  | .config .., _, _, u => (Cuts.header ..).cleanly.andThen fun _ => .pure ⟨.refl u, fun _ => nofun⟩
  | .interpolation _ e _, _, _, u =>
    Cuts.markContent.cleanly.andThen fun _ => (track_closing e u).mono fun _ closing => ⟨closing, fun _ => nofun⟩
  | .group _ body _, plain, spelled, u => walkAll_closes follows at_ body plain spelled u
  | .choice _ test body none _, plain, spelled, u =>
    (track_closing test u).bind fun u₁ => (walkAll_closes follows _ body plain spelled u₁).bind fun b => .pure fun inside first =>
      ⟨first.trans inside.1.branch, fun free => inside.2 (first.allowed.trans free)⟩
  | .choice _ test body (some other) _, plain, spelled, u => by
    obtain ⟨plain, plain'⟩ := Bool.and_eq_true_iff.mp plain
    obtain ⟨spelled, spelled'⟩ := Bool.and_eq_true_iff.mp spelled
    refine (track_closing test u).bind fun u₁ => (walkAll_closes follows _ body plain spelled u₁).bind fun b => ?_
    refine (walkAll_closes follows _ other plain' spelled' (u₁.absorb b)).bind fun b' => .pure fun second inside first => ?_
    refine ⟨first.trans (inside.1.branch.trans second.1.branch), fun free part member => ?_⟩
    have free := first.allowed.trans free
    exact (List.mem_append.mp member).elim (inside.2 free part) (second.2 free part)
  | .loop _ items item index body none _, plain, spelled, u => by
    refine (track_closing items u).bind fun u₁ => ?_
    refine (loopBody_cleanly (fun u => walkAll_closes follows _ body plain spelled u) item index u₁).mono ?_
    rintro _ ⟨b, inside, rfl⟩ first
    refine ⟨first.trans inside.1.within, fun free => inside.2 ?_⟩
    exact (Usage.allowed_defineAll _).trans (first.allowed.trans free)
  | .loop _ items item index body (some other) _, plain, spelled, u => by
    obtain ⟨plain, plain'⟩ := Bool.and_eq_true_iff.mp plain
    obtain ⟨spelled, spelled'⟩ := Bool.and_eq_true_iff.mp spelled
    refine (track_closing items u).bind fun u₁ => (walkAll_closes follows _ other plain' spelled' u₁).bind fun b => ?_
    refine (loopBody_cleanly (fun u => walkAll_closes follows _ body plain spelled u) item index (u₁.absorb b)).mono ?_
    rintro _ ⟨b', inside, rfl⟩ second first
    refine ⟨first.trans (second.1.swap inside.1), fun free part member => ?_⟩
    have free := first.allowed.trans free
    exact (List.mem_append.mp member).elim (inside.2 ((Usage.allowed_defineAll _).trans free) part) (second.2 free part)
  | .element span tag attributes body p, plain, spelled, u => by
    obtain ⟨written, inside⟩ := Bool.and_eq_true_iff.mp plain
    have named (static : List String) := attributeNames_closing static written [] u
    refine Cuts.markContent.cleanly.andThen fun _ => ?_
    cases tag with
    | content kind =>
      obtain ⟨spelled, listed⟩ := Bool.and_eq_true_iff.mp spelled
      refine (content_cleanly (fun u => walkAll_closes follows _ body inside spelled u) _ span kind (named []) fun other => ?_).mono ?_
      · have static := (Bool.or_eq_true_iff.mp listed).resolve_left fun call => other (of_decide_eq_true call)
        have same : Node.analyzeAttributes attributes = id := funext (Node.analyzeAttributes_of_static written static)
        exact ⟨same ▸ .refl u, nofun⟩
      · rintro u' ⟨-, _, u₁, ⟨first, -⟩, second⟩
        exact ⟨first.trans second.1, fun free => second.2 (first.allowed.trans free)⟩
    | message role =>
      refine (message_cleanly (fun u => walkAll_closes follows _ body inside spelled u) _ span role (named [])).mono ?_
      rintro u' ⟨-, _, u₁, ⟨first, -⟩, second⟩
      exact ⟨first.trans second.1, fun free => second.2 (first.allowed.trans free)⟩
    | scope =>
      refine (closed_cleanly (fun u => walkAll_closes follows _ body inside spelled u) span (named [])).mono ?_
      rintro u' ⟨names, inner, ⟨first, named⟩, second, used⟩
      refine ⟨first, fun free part member => ?_⟩
      have free := first.allowed.trans free
      rcases List.mem_cons.mp member with rfl | member
      · exact accepted_of_closes (fun x there => (named x there).resolve_left nofun) (free ▸ second.1) used
      · exact second.2 free part member
    | step =>
      refine (step_cleanly (fun u => walkAll_closes follows _ body inside spelled u) _ span (named stepResultNames)).mono ?_
      rintro u' ⟨-, _, u₁, u₂, ⟨first, -⟩, second, rfl⟩
      exact ⟨first.trans (second.1.trans (.defineAll _ u₂)), fun free => second.2 (first.allowed.trans free)⟩
    | reference => exact (follows span attributes body u written).mono fun _ closing => ⟨closing, fun _ => nofun⟩

theorem walkAll_closes (follows : follow.Closes) (at_ : Setting) : ∀ nodes : List Node,
    Node.allPlain nodes = true → Node.allSpelled nodes = true → ∀ u : Usage, Cleanly (ClosesAll nodes u) (walkAll check follow at_ nodes u)
  | [], _, _, u => .pure ⟨.refl u, fun _ => nofun⟩
  | n :: r, plain, spelled, u => by
    obtain ⟨plain, plain'⟩ := Bool.and_eq_true_iff.mp plain
    obtain ⟨spelled, spelled'⟩ := Bool.and_eq_true_iff.mp spelled
    refine (walk_closes follows at_ n plain spelled u).bind fun u₁ => (walkAll_closes follows at_ r plain' spelled' u₁).mono ?_
    refine fun u' second first => ⟨first.1.trans second.1, fun free part member => ?_⟩
    exact (List.mem_append.mp member).elim (first.2 free part) (second.2 (first.1.allowed.trans free) part)

end

end Walk

theorem follow_closes (loader : Option Loader) (including : Option Include) :
    Follow.Closes (follow loader including) := by
  intro span attributes body u plain
  refine (follow_cleanly loader including span (attributeNames_closing ["path"] plain [] u) body).mono ?_
  rintro u' ⟨rfl, names, closing, -⟩
  exact closing

end Survey
end PromptScript
