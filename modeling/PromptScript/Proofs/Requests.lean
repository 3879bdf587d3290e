import PromptScript.Proofs.Accepted
import PromptScript.Proofs.Remembered
import PromptScript.Proofs.Unstopped

/-! # Requests for tools that surveys see

A survey keeps the requests that it has met until it knows the message that they belong to. Where it finds no defect a
message with a request is one of the assistant, as far as its role is written out. What a survey does not look for is
said of a document by itself (`Document.Orderly`): the two together settle the place of every request. -/
namespace PromptScript

/-! ## Tags in documents -/

/-- The tag of requests for tools. -/
abbrev Tag.request : Tag := .content (some .toolCall)

/-- The role of a message tag, as far as it is written out. -/
def Tag.speaker? (role : Option Role) (attributes : List Attribute) : Option Role :=
  role.or ((Attribute.written? "role" attributes).bind Role.ofName?)

/-- Whether an attribute is no more than its name. -/
def AttributeValue.isFlag : AttributeValue → Bool
  | flag => true
  | nodes _ => false

namespace Node

/-- Whether a tag stands somewhere in nodes. -/
def hold (tag : Tag) (nodes : List Node) : Bool := (openingsAll nodes).any (·.1 = tag)

mutual

/-- The tags in a node that do not stand in message tags. -/
def outside : Node → List Tag
  | text _ _ _ | comment _ _ _ | config _ _ _ | interpolation _ _ _ => []
  | group _ body _ | choice _ _ body none _ | loop _ _ _ _ body none _ => outsideAll body
  | choice _ _ body (some other) _ | loop _ _ _ _ body (some other) _ => outsideAll body ++ outsideAll other
  | element _ tag _ body _ => match tag with
    | .message _ => [tag]
    | _ => tag :: outsideAll body

def outsideAll : List Node → List Tag
  | [] => []
  | n :: r => outside n ++ outsideAll r

end

mutual

/-- The bodies of the message tags in a node. -/
def messageBodies : Node → List (List Node)
  | text _ _ _ | comment _ _ _ | config _ _ _ | interpolation _ _ _ => []
  | group _ body _ | choice _ _ body none _ | loop _ _ _ _ body none _ => messageBodiesAll body
  | choice _ _ body (some other) _ | loop _ _ _ _ body (some other) _ => messageBodiesAll body ++ messageBodiesAll other
  | element _ tag _ body _ => match tag with
    | .message _ => body :: messageBodiesAll body
    | _ => messageBodiesAll body

def messageBodiesAll : List Node → List (List Node)
  | [] => []
  | n :: r => messageBodies n ++ messageBodiesAll r

end

mutual

/-- Whether it is settled for a node what the passes over it find: requests stand only in messages of the assistant
without steps, and what has to be written out is. -/
def settled : Node → Bool
  | text _ _ _ | comment _ _ _ | config _ _ _ | interpolation _ _ _ => true
  | group _ body _ | choice _ _ body none _ | loop _ _ _ _ body none _ => settledAll body
  | choice _ _ body (some other) _ | loop _ _ _ _ body (some other) _ => settledAll body && settledAll other
  | element _ tag attributes body _ => match tag with
    | .content kind => kind != some .toolCall && (kind.isSome ||
        (Attribute.isLiteral "type" attributes && Attribute.written? "type" attributes != some ContentKind.toolCall.name)) &&
        settledAll body
    | .message role => (role.isSome || Attribute.isLiteral "role" attributes) &&
        match Tag.speaker? role attributes with
        | none => true
        | some role => (role = .assistant && !steppedAll body) || settledAll body
    | .step => stepResultNames.all (Attribute.isLiteral · attributes) && settledAll body
    | .scope => settledAll body
    | .reference => true

def settledAll : List Node → Bool
  | [] => true
  | n :: r => settled n && settledAll r

end

theorem hold_eq_true_iff {tag : Tag} {nodes : List Node} :
    hold tag nodes = true ↔ ∃ attributes, (tag, attributes) ∈ openingsAll nodes := by
  unfold hold
  rw [List.any_eq_true]
  constructor
  · rintro ⟨⟨tag, attributes⟩, member, same⟩
    exact ⟨attributes, (of_decide_eq_true same) ▸ member⟩
  · rintro ⟨attributes, member⟩
    exact ⟨_, member, decide_eq_true rfl⟩

mutual

theorem opening_of_outside {tag : Tag} : ∀ n : Node, tag ∈ n.outside → ∃ attributes, (tag, attributes) ∈ n.openings
  | text .., member | comment .., member | config .., member | interpolation .., member => absurd member List.not_mem_nil
  | group _ body _, member | choice _ _ body none _, member | loop _ _ _ _ body none _, member => opening_of_outsideAll body member
  | choice _ _ body (some other) _, member | loop _ _ _ _ body (some other) _, member => by
    rcases List.mem_append.mp member with first | second
    · exact (opening_of_outsideAll body first).imp fun _ => List.mem_append_left _
    · exact (opening_of_outsideAll other second).imp fun _ => List.mem_append_right _
  | element _ tag attributes body _, member => by
    cases tag with
    | message role =>
      rw [List.mem_singleton.mp member]
      exact ⟨attributes, List.mem_cons_self⟩
    | _ =>
      rcases List.mem_cons.mp member with rfl | inside
      · exact ⟨attributes, List.mem_cons_self⟩
      · exact (opening_of_outsideAll body inside).imp fun _ => List.mem_cons_of_mem _

theorem opening_of_outsideAll {tag : Tag} : ∀ nodes : List Node, tag ∈ outsideAll nodes →
    ∃ attributes, (tag, attributes) ∈ openingsAll nodes
  | [], member => absurd member List.not_mem_nil
  | n :: r, member => by
    rcases List.mem_append.mp member with first | second
    · exact (opening_of_outside n first).imp fun _ => List.mem_append_left _
    · exact (opening_of_outsideAll r second).imp fun _ => List.mem_append_right _

end

mutual

theorem stepped_cleared : ∀ n : Node, n.cleared.stepped = n.stepped
  | text .. | comment .. | config .. | interpolation .. => rfl
  | group _ body _ | choice _ _ body none _ | loop _ _ _ _ body none _ => steppedAll_clearedAll body
  | choice _ _ body (some other) _ | loop _ _ _ _ body (some other) _ => by
    simp only [cleared, stepped, steppedAll_clearedAll body, steppedAll_clearedAll other]
  | element _ _ _ body _ => by simp only [cleared, stepped, steppedAll_clearedAll body]

theorem steppedAll_clearedAll : ∀ nodes : List Node, steppedAll (clearedAll nodes) = steppedAll nodes
  | [] => rfl
  | n :: r => by simp only [clearedAll, steppedAll, stepped_cleared n, steppedAll_clearedAll r]

end

mutual

/-- Marks do not matter. -/
theorem settled_cleared : ∀ n : Node, n.cleared.settled = n.settled
  | text .. | comment .. | config .. | interpolation .. => rfl
  | group _ body _ | choice _ _ body none _ | loop _ _ _ _ body none _ => settledAll_clearedAll body
  | choice _ _ body (some other) _ | loop _ _ _ _ body (some other) _ => by
    simp only [cleared, settled, settledAll_clearedAll body, settledAll_clearedAll other]
  | element _ tag _ body _ => by
    cases tag <;> simp only [cleared, settled, steppedAll_clearedAll body, settledAll_clearedAll body]

theorem settledAll_clearedAll : ∀ nodes : List Node, settledAll (clearedAll nodes) = settledAll nodes
  | [] => rfl
  | n :: r => by simp only [clearedAll, settledAll, settled_cleared n, settledAll_clearedAll r]

end

end Node

/-! ## What surveys do not look for -/

/-- What is written out of a tag. -/
structure Tag.Orderly (tag : Tag) (attributes : List Attribute) : Prop where
  /-- The type of content; and a request has the tag of requests. -/
  kind : tag = .content none →
    Attribute.isLiteral "type" attributes = true ∧ Attribute.written? "type" attributes ≠ some ContentKind.toolCall.name
  /-- The role of a message. -/
  role : tag = .message none → Attribute.isLiteral "role" attributes = true
  /-- The names that a step gives to a response, which are not left out. -/
  results : tag = .step → ∀ a ∈ attributes, a.name ∈ stepResultNames → a.value.isFlag = false

instance (tag : Tag) (attributes : List Attribute) : Decidable (tag.Orderly attributes) :=
  decidable_of_iff ((tag = .content none → Attribute.isLiteral "type" attributes = true ∧
      Attribute.written? "type" attributes ≠ some ContentKind.toolCall.name) ∧
    (tag = .message none → Attribute.isLiteral "role" attributes = true) ∧
    (tag = .step → ∀ a ∈ attributes, a.name ∈ stepResultNames → a.value.isFlag = false))
    ⟨fun h => ⟨h.1, h.2.1, h.2.2⟩, fun h => ⟨h.kind, h.role, h.results⟩⟩

/-- What a survey does not look for, of nodes of which are given the tags outside of messages, the bodies of messages and
all tags. -/
structure Node.Orderly (outside : List Tag) (bodies : List (List Node)) (openings : List (Tag × List Attribute)) : Prop where
  /-- All requests stand in messages. -/
  requests : .request ∉ outside
  /-- No message with a request has a step. -/
  steps : ∀ body ∈ bodies, hold .request body = true → steppedAll body = false
  tags : ∀ t ∈ openings, t.1.Orderly t.2

instance (outside : List Tag) (bodies : List (List Node)) (openings : List (Tag × List Attribute)) :
    Decidable (Node.Orderly outside bodies openings) :=
  decidable_of_iff (.request ∉ outside ∧ (∀ body ∈ bodies, Node.hold .request body = true → Node.steppedAll body = false) ∧
    ∀ t ∈ openings, t.1.Orderly t.2) ⟨fun h => ⟨h.1, h.2.1, h.2.2⟩, fun h => ⟨h.requests, h.steps, h.tags⟩⟩

theorem Node.Orderly.of_append {outside outside' : List Tag} {bodies bodies' : List (List Node)}
    {openings openings' : List (Tag × List Attribute)}
    (h : Orderly (outside ++ outside') (bodies ++ bodies') (openings ++ openings')) :
    Orderly outside bodies openings ∧ Orderly outside' bodies' openings' :=
  ⟨⟨fun member => h.requests (List.mem_append_left _ member), fun body member => h.steps body (List.mem_append_left _ member),
      fun t member => h.tags t (List.mem_append_left _ member)⟩,
    ⟨fun member => h.requests (List.mem_append_right _ member),
      fun body member => h.steps body (List.mem_append_right _ member), fun t member => h.tags t (List.mem_append_right _ member)⟩⟩

/-- A document whose requests stand in messages without steps, and in which what counts for them is written out. -/
def Document.Orderly (d : Document) : Prop :=
  Node.Orderly (Node.outsideAll d.body) (Node.messageBodiesAll d.body) (Node.openingsAll d.body)

instance (d : Document) : Decidable d.Orderly := inferInstanceAs (Decidable (Node.Orderly _ _ _))

namespace Survey

variable {α β : Type} {refers : Bool}

/-! ## Requests that wait -/

/-- A part of a survey that leaves the requests that wait as they are. -/
def Quiet (part : Survey α) : Prop := ∀ s : SurveyState, (part.run s).2.calls = s.calls

namespace Quiet

theorem pure (a : α) : Quiet (Pure.pure a : Survey α) := fun _ => rfl

theorem bind {x : Survey α} {f : α → Survey β} (hx : Quiet x) (hf : ∀ a, Quiet (f a)) : Quiet (x >>= f) :=
  fun s => (hf (x.run s).1 (x.run s).2).trans (hx s)

theorem ite {p : Prop} [Decidable p] {x y : Survey α} (hx : Quiet x) (hy : Quiet y) : Quiet (if p then x else y) := by
  split
  · exact hx
  · exact hy

theorem report (defect : Defect) (span : Span) : Quiet (Survey.report defect span) := fun _ => rfl

theorem reportIf {p : Prop} [Decidable p] {defect : Defect} {span : Span} {rest : Survey α} (h : Quiet rest) :
    Quiet (if p then Survey.report defect span >>= fun _ => rest else rest) :=
  ite ((report defect span).bind fun _ => h) h

theorem track (e : Expr) (u : Usage) : Quiet (track e u) := fun _ => rfl

theorem trackParts (parts : List Node) (u : Usage) : Quiet (trackParts parts u) := by
  induction parts generalizing u with
  | nil => exact pure u
  | cons n r ih =>
    cases n with
    | interpolation _ e _ => exact (track e u).bind ih
    | _ => exact ih u

theorem attributeNames (static : List String) (attributes : List Attribute) (names : Names) (u : Usage) :
    Quiet (attributeNames static attributes names u) := by
  induction attributes generalizing names u with
  | nil => exact pure _
  | cons a r ih =>
    obtain ⟨_, name, value⟩ := a
    cases value with
    | flag => exact ih _ u
    | nodes parts =>
      unfold Survey.attributeNames
      split
      · exact (report _ _).bind fun _ => ih names u
      · exact (trackParts parts u).bind fun u => ih _ u

theorem reportMissing (names given : Names) (span : Span) : Quiet (reportMissing names given span) := by
  have reports (missing : List String) :
      Quiet (missing.forM fun name => Survey.report (.referenceMissingParameter name) span : Survey PUnit) := by
    induction missing with
    | nil => exact pure _
    | cons name r ih => exact (report _ _).bind fun _ => ih
  exact reports _

theorem header (check : Option (Config → Option String)) (atRoot : Bool) (span : Span) (data : String) :
    Quiet (header check atRoot span data) := by
  have read : Quiet (settings span data) := by
    unfold settings
    split
    · exact pure _
    · exact (report _ _).bind fun _ => pure _
  have checked (config : Config) : Quiet (checkSettings check span config) := by
    unfold checkSettings
    split
    · exact report _ _
    · exact pure _
  have marked (config : Config) : Quiet (modify fun s : SurveyState =>
      { s with configSpan := some span, config := some config } : Survey PUnit) := fun _ => rfl
  have spliced : Quiet (splice span []) := fun _ => rfl
  have here : Quiet (MonadState.get : Survey SurveyState) := fun _ => rfl
  refine spliced.bind fun _ => here.bind fun s => reportIf (reportIf (reportIf ?_))
  exact read.bind fun config => (checked config).bind fun _ => marked config

end Quiet

/-- Where a part of a survey finds no defect a request waits after it if one did before, or if there is one in what it
visits. -/
def Queues (request : Prop) (part : Survey α) : Prop :=
  ∀ s : SurveyState, (part.run s).2.faults = [] → s.faults = [] ∧ (s.calls ≠ [] ∨ request → (part.run s).2.calls ≠ [])

namespace Queues

variable {request other : Prop} {x : Survey α} {f : α → Survey β}

theorem of_quiet (quiet : Quiet x) (clean : Cleanly (fun _ => True) x) : Queues False x := by
  intro s found
  refine ⟨(clean s found).1, fun waits => ?_⟩
  rw [quiet s]
  exact waits.resolve_right id

theorem pure (a : α) : Queues False (Pure.pure a : Survey α) := of_quiet (.pure a) (.pure trivial)

theorem mono (h : Queues request x) (less : other → request) : Queues other x :=
  fun s found => (h s found).imp id fun more waits => more (waits.imp_right less)

theorem bind (hx : Queues request x) (hf : ∀ a, Queues other (f a)) : Queues (request ∨ other) (x >>= f) := by
  intro s found
  obtain ⟨between, second⟩ := hf (x.run s).1 (x.run s).2 found
  obtain ⟨before, first⟩ := hx s between
  refine ⟨before, fun waits => second ?_⟩
  rcases waits with waits | here | later
  · exact .inl (first (.inl waits))
  · exact .inl (first (.inr here))
  · exact .inr later

theorem andThen (quiet : Quiet x) (clean : Cleanly (fun _ => True) x) (hf : ∀ a, Queues request (f a)) :
    Queues request (x >>= f) :=
  ((of_quiet quiet clean).bind hf).mono .inr

theorem before (hx : Queues request x) (hf : ∀ a, Queues False (f a)) : Queues request (x >>= f) :=
  (hx.bind hf).mono .inl

/-- Once a defect is found nothing more need be said. -/
theorem reported {defect : Defect} {span : Span} {rest : PUnit → Survey β}
    (clean : ∀ a, Cleanly (fun _ => True) (rest a)) : Queues request (report defect span >>= rest) := by
  have refused : Cleanly (fun _ => False) (report defect span >>= rest) := Cleanly.reported defect span clean
  exact fun s found => (refused s found).2.elim

theorem reportIf {p : Prop} [Decidable p] {defect : Defect} {span : Span} (h : Queues request x) :
    Queues request (if p then report defect span >>= fun _ => x else x) := by
  split
  · exact reported fun _ s found => ⟨(h s found).1, trivial⟩
  · exact h

end Queues

/-! ### Tags -/

section Tags

variable {request : Prop} {body : Usage → Survey Usage} (h : ∀ u, Queues request (body u)) (at_ : Setting) (span : Span)
  (attributes : List Attribute) (u : Usage)

include h

theorem content_queues (kind : Option ContentKind) :
    Queues (kind = some .toolCall ∨ request) (content at_ span kind attributes u body) := by
  refine Queues.reportIf ?_
  by_cases call : kind = some .toolCall
  · rw [if_pos call]
    have added : Queues True (modify fun s : SurveyState => { s with calls := s.calls ++ [span] } : Survey PUnit) :=
      fun s found => ⟨found, fun _ => List.append_ne_nil_of_right_ne_nil _ (List.cons_ne_nil _ _)⟩
    refine Queues.mono (added.bind fun _ => (?_ : Queues request _)) fun _ => .inl trivial
    refine .andThen (.attributeNames [] attributes [] u) (Cuts.attributeNames [] attributes [] u).cleanly fun found => ?_
    obtain ⟨names, u₁⟩ := found
    exact .reportIf (.reportIf (h u₁))
  · rw [if_neg call]
    exact (h u).mono fun either => either.resolve_left call

theorem closed_queues : Queues request (closed span attributes u body) := by
  refine .andThen (.attributeNames [] attributes [] u) (Cuts.attributeNames [] attributes [] u).cleanly fun found => ?_
  obtain ⟨names, u₁⟩ := found
  exact (h _).before fun inner => (Queues.of_quiet (.reportMissing inner.used names span)
    (Cuts.reportMissing inner.used names span).cleanly).before fun _ => .pure u₁

theorem step_queues : Queues request (step at_ span attributes u body) := by
  refine .andThen (fun _ => rfl) (Cleanly.of_same fun _ => rfl) fun _ => .reportIf ?_
  refine .andThen (.attributeNames _ attributes [] u) (Cuts.attributeNames _ attributes [] u).cleanly fun found => ?_
  exact (h _).before fun u₂ => .pure _

theorem loopBody_queues (item : Binding) (index : Option Binding) : Queues request (loopBody item index u body) := by
  unfold loopBody
  split
  · exact .reported fun _ => (Cleanly.pure trivial : Cleanly (fun _ => True) (Pure.pure u : Survey Usage))
  · exact (h _).before fun branch => .pure _

omit h

/-- There is no message in a message where no defect is found. -/
theorem message_queues (clean : ∀ u, Cleanly (fun _ => True) (body u)) (role : Option Role)
    (inside : at_.inMessage = true) : Queues request (message at_ span role attributes u body) := by
  intro s found
  obtain ⟨before, out, -⟩ :=
    message_cleanly clean at_ span role (Cuts.attributeNames [] attributes [] u).cleanly s found
  exact absurd (Bool.or_eq_true_iff.mpr (.inr inside)) out

end Tags

section Walk

variable (check : Option (Config → Option String)) (loader : Option Loader) (including : Option Include)

mutual

/-- **In a message requests wait for its end.** -/
theorem walk_queues (at_ : Setting) (inside : at_.inMessage = true) : ∀ n : Node, n.refers = false → ∀ u : Usage,
    Queues (n.openings.any (·.1 = .request) = true) (walk check (follow loader including) at_ n u)
  | .text _ data _, _, u => by
    have marks : Quiet markContent := fun _ => rfl
    unfold walk
    split
    · exact (Queues.andThen marks Cuts.markContent.cleanly fun _ => .pure u).mono Bool.false_ne_true
    · exact (Queues.pure u).mono Bool.false_ne_true
  | .comment span _ _, _, u =>
    (Queues.andThen (fun _ => rfl) (Cuts.splice span).cleanly fun _ => .pure u).mono Bool.false_ne_true
  | .config span data _, _, u =>
    (Queues.andThen (.header check at_.atRoot span data) (Cuts.header ..).cleanly fun _ => .pure u).mono Bool.false_ne_true
  | .interpolation _ e _, _, u =>
    (Queues.andThen (fun _ => rfl) Cuts.markContent.cleanly fun _ =>
      .of_quiet (.track e u) (Cuts.track e u).cleanly).mono Bool.false_ne_true
  | .group _ body _, bare, u => walkAll_queues at_ inside body bare u
  | .choice _ test body none _, bare, u =>
    .andThen (.track test u) (Cuts.track test u).cleanly fun u => (walkAll_queues { at_ with atRoot := false } inside body bare u).before fun _ => .pure _
  | .choice _ test body (some other) _, bare, u => by
    obtain ⟨bare, bare'⟩ := Bool.or_eq_false_iff.mp bare
    refine (Queues.andThen (.track test u) (Cuts.track test u).cleanly fun u =>
      (walkAll_queues { at_ with atRoot := false } inside body bare u).bind fun _ =>
        (walkAll_queues { at_ with atRoot := false } inside other bare' _).before fun _ => .pure _).mono fun there => ?_
    exact Bool.or_eq_true_iff.mp (List.any_append.symm.trans there)
  | .loop _ items item index body none _, bare, u =>
    .andThen (.track items u) (Cuts.track items u).cleanly fun u =>
      loopBody_queues (fun u => walkAll_queues { at_ with atRoot := false } inside body bare u) u item index
  | .loop _ items item index body (some other) _, bare, u => by
    obtain ⟨bare, bare'⟩ := Bool.or_eq_false_iff.mp bare
    refine (Queues.andThen (.track items u) (Cuts.track items u).cleanly fun u =>
      (walkAll_queues { at_ with atRoot := false } inside other bare' u).bind fun _ =>
        loopBody_queues (fun u => walkAll_queues { at_ with atRoot := false } inside body bare u) _ item index).mono fun there => ?_
    exact (Bool.or_eq_true_iff.mp (List.any_append.symm.trans there)).symm
  | .element span tag attributes body _, bare, u => by
    have bare := Bool.or_eq_false_iff.mp bare
    have within (at_ : Setting) (inside : at_.inMessage = true) := walkAll_queues at_ inside body bare.2
    let inner : Setting := { at_ with atRoot := false }
    refine .andThen (fun _ => rfl) Cuts.markContent.cleanly fun _ => ?_
    cases tag with
    | content kind =>
      refine (content_queues (within { inner with inContent := true } inside) inner span attributes u kind).mono fun there => ?_
      refine (Bool.or_eq_true_iff.mp there).imp_left fun here => ?_
      exact Tag.content.inj (of_decide_eq_true here)
    | message role =>
      exact message_queues inner span attributes u
        (fun u s found => ⟨(within { inner with inMessage := true } rfl u s found).1, trivial⟩) role inside
    | scope => exact (closed_queues (within inner inside) span attributes u).mono id
    | step => exact (step_queues (within { inner with inStep := true } inside) inner span attributes u).mono id
    | reference => cases bare.1

theorem walkAll_queues (at_ : Setting) (inside : at_.inMessage = true) : ∀ nodes : List Node,
    Node.refersAll nodes = false → ∀ u : Usage,
      Queues (Node.hold .request nodes = true) (walkAll check (follow loader including) at_ nodes u)
  | [], _, u => (Queues.pure u).mono Bool.false_ne_true
  | n :: r, bare, u => by
    obtain ⟨bare, bare'⟩ := Bool.or_eq_false_iff.mp bare
    refine ((walk_queues at_ inside n bare u).bind fun u => walkAll_queues at_ inside r bare' u).mono fun there => ?_
    exact Bool.or_eq_true_iff.mp (List.any_append.symm.trans there)

end

end Walk
/-! ## What surveys tell of requests -/

/-- Where no defect is found the attributes that have to be written out have no interpolations. -/
theorem attributeNames_static (static : List String) (attributes : List Attribute) (names : Names) (u : Usage) :
    Cleanly (fun _ => ∀ a ∈ attributes, a.name ∈ static → ∀ parts, a.value = .nodes parts → firstInterpolation? parts = none)
      (attributeNames static attributes names u) := by
  induction attributes generalizing names u with
  | nil => exact .pure fun _ none => absurd none List.not_mem_nil
  | cons a r ih =>
    obtain ⟨_, name, value⟩ := a
    cases value with
    | flag => exact (ih _ u).mono fun _ rest => List.forall_mem_cons.mpr ⟨fun _ _ => nofun, rest⟩
    | nodes parts =>
      unfold attributeNames
      split
      · exact .reported _ _ fun _ => ih names u
      · next plain =>
        refine (Cuts.trackParts parts u).cleanly.andThen fun u => (ih _ u).mono fun _ rest => ?_
        refine List.forall_mem_cons.mpr ⟨fun listed _ same => ?_, rest⟩
        cases same
        have listed : static.contains name = true := List.contains_iff_mem.mpr listed
        rw [if_pos listed] at plain
        exact plain

theorem isSome_textOfParts? {parts : List Node} (plain : parts.all Node.isPart = true)
    (static : firstInterpolation? parts = none) : (AttributeValue.textOfParts? parts).isSome = true := by
  induction parts with
  | nil => rfl
  | cons n r ih =>
    obtain ⟨first, rest⟩ := Bool.and_eq_true_iff.mp plain
    cases n with
    | text _ data _ => exact Option.isSome_map.trans (ih rest static)
    | interpolation => cases static
    | _ => cases first

/-- Such an attribute is written out if it has a value. -/
theorem isLiteral_of_static {attributes : List Attribute} {name : String} (plain : attributes.all Attribute.isPlain = true)
    (given : ∀ a ∈ attributes, a.name = name → a.value.isFlag = false)
    (static : ∀ a ∈ attributes, a.name = name → ∀ parts, a.value = .nodes parts → firstInterpolation? parts = none) :
    Attribute.isLiteral name attributes = true := by
  unfold Attribute.isLiteral
  cases found : Attribute.find? name attributes with
  | none => rfl
  | some a =>
    have member := List.mem_of_find?_eq_some found
    have named : a.name = name := by simpa using List.find?_some found
    have parts := List.all_eq_true.mp plain a member
    have value := given a member named
    have static := static a member named
    obtain ⟨span, _, _ | nodes⟩ := a
    · cases value
    · exact isSome_textOfParts? parts (static nodes rfl)

section Tags

variable {body : Usage → Survey Usage} {fact request : Prop} (at_ : Setting) (span : Span) (role : Option Role)
  (attributes : List Attribute) (u : Usage)

theorem message_tells (told : ∀ u, Cleanly (fun _ => fact) (messageBody (Tag.speaker? role attributes) u body)) :
    Cleanly (fun _ => fact) (message at_ span role attributes u body) := by
  refine Cleanly.reportIf ((Cuts.attributeNames [] attributes [] u).cleanly.andThen fun found => ?_)
  obtain ⟨names, u₁⟩ := found
  have done : Cleanly (fun _ => True) (Pure.pure u₁ : Survey Usage) := .pure trivial
  dsimp only
  split
  · exact .reported _ _ fun _ => done
  · split
    · exact .reported _ _ fun _ => done
    · exact told u₁

/-- Requests that wait at the end of a message are those of the assistant, as far as its role is known. -/
theorem messageBody_tells (h : ∀ u, Queues request (body u)) :
    Cleanly (fun _ => request → role.any (· != .assistant) = false) (messageBody role u body) := by
  cases other : role.any (· != .assistant) with
  | false =>
    have body : ∀ u, Cleanly (fun _ => True) (body u) := fun u s found => ⟨(h u s found).1, trivial⟩
    exact (messageBody_cleanly body role u).mono fun _ _ _ => rfl
  | true =>
    intro s found
    unfold messageBody at found
    rw [other] at found
    -- The requests that wait after the body are reported.
    let t := ((body u).run (reportCalls.run s).2).2
    have found : t.faults ++ t.calls.map (Fault.mk .invalidToolCallPlacement) = [] := found
    obtain ⟨inside, none⟩ := List.append_eq_nil_iff.mp found
    obtain ⟨between, waits⟩ := h u _ inside
    exact ⟨(List.append_eq_nil_iff.mp between).1, fun asks => absurd (List.map_eq_nil_iff.mp none) (waits (.inr asks))⟩

end Tags

section Walk

variable (check : Option (Config → Option String)) (loader : Option Loader) (including : Option Include)

mutual

/-- **A clean survey of orderly nodes settles them.** -/
theorem walk_settles (at_ : Setting) : ∀ n : Node, n.refers = false → n.isPlain = true →
    Node.Orderly n.outside n.messageBodies n.openings → ∀ u : Usage,
      Cleanly (fun _ => n.settled = true) (walk check (follow loader including) at_ n u)
  | .text _ data _, _, _, _, u => by
    unfold walk
    split
    · exact Cuts.markContent.cleanly.andThen fun _ => .pure rfl
    · exact .pure rfl
  | .comment span _ _, _, _, _, _ => (Cuts.splice span).cleanly.andThen fun _ => .pure rfl
  | .config .., _, _, _, _ => (Cuts.header ..).cleanly.andThen fun _ => .pure rfl
  | .interpolation _ e _, _, _, _, u =>
    Cuts.markContent.cleanly.andThen fun _ => (Cuts.track e u).cleanly.mono fun _ _ => rfl
  | .group _ body _, bare, plain, orderly, u => walkAll_settles at_ body bare plain orderly u
  | .choice _ test body none _, bare, plain, orderly, u =>
    (Cuts.track test u).cleanly.andThen fun u => (walkAll_settles _ body bare plain orderly u).bind fun _ => .pure id
  | .choice _ test body (some other) _, bare, plain, orderly, u => by
    obtain ⟨bare, bare'⟩ := Bool.or_eq_false_iff.mp bare
    obtain ⟨plain, plain'⟩ := Bool.and_eq_true_iff.mp plain
    obtain ⟨orderly, orderly'⟩ := orderly.of_append
    refine (Cuts.track test u).cleanly.andThen fun u => (walkAll_settles _ body bare plain orderly u).bind fun _ => ?_
    refine (walkAll_settles _ other bare' plain' orderly' _).bind fun _ => .pure ?_
    exact fun second first => Bool.and_eq_true_iff.mpr ⟨first, second⟩
  | .loop _ items item index body none _, bare, plain, orderly, u => by
    refine (Cuts.track items u).cleanly.andThen fun u => ?_
    exact (loopBody_cleanly (fun u => walkAll_settles _ body bare plain orderly u) item index u).mono
      fun _ ⟨_, settled, _⟩ => settled
  | .loop _ items item index body (some other) _, bare, plain, orderly, u => by
    obtain ⟨bare, bare'⟩ := Bool.or_eq_false_iff.mp bare
    obtain ⟨plain, plain'⟩ := Bool.and_eq_true_iff.mp plain
    obtain ⟨orderly, orderly'⟩ := orderly.of_append
    refine (Cuts.track items u).cleanly.andThen fun u => (walkAll_settles _ other bare' plain' orderly' u).bind fun _ => ?_
    refine (loopBody_cleanly (fun u => walkAll_settles _ body bare plain orderly u) item index _).mono ?_
    exact fun _ ⟨_, first, _⟩ second => Bool.and_eq_true_iff.mpr ⟨first, second⟩
  | .element span tag attributes body _, bare, plain, orderly, u => by
    obtain ⟨known, free⟩ := Bool.or_eq_false_iff.mp bare
    obtain ⟨parts, whole⟩ := Bool.and_eq_true_iff.mp plain
    obtain ⟨here, tags⟩ := List.forall_mem_cons.mp orderly.tags
    have named (static : List String) := (Cuts.attributeNames static attributes [] u).cleanly
    refine Cuts.markContent.cleanly.andThen fun _ => ?_
    cases tag with
    | content kind =>
      have other : kind ≠ some .toolCall := by
        rintro rfl
        exact orderly.requests List.mem_cons_self
      have requests : .request ∉ Node.outsideAll body := fun member => orderly.requests (List.mem_cons_of_mem _ member)
      have inside (at_ : Setting) := walkAll_settles at_ body free whole ⟨requests, orderly.steps, tags⟩
      refine (content_cleanly (inside _) _ span kind (named []) fun _ => trivial).mono fun _ told => ?_
      obtain ⟨-, _, _, -, settled⟩ := told
      refine Bool.and_eq_true_iff.mpr ⟨Bool.and_eq_true_iff.mpr ⟨bne_iff_ne.mpr other, ?_⟩, settled⟩
      cases kind with
      | some kind => rfl
      | none =>
        obtain ⟨literal, type⟩ := here.kind rfl
        exact Bool.and_eq_true_iff.mpr ⟨literal, bne_iff_ne.mpr type⟩
    | message role =>
      obtain ⟨steps, deeper⟩ := List.forall_mem_cons.mp orderly.steps
      have literal : (role.isSome || Attribute.isLiteral "role" attributes) = true := by
        cases role with
        | some role => rfl
        | none => exact here.role rfl
      let inner : Setting := { at_ with atRoot := false }
      cases asks : Node.hold .request body with
      | true =>
        -- The request waits for the end of the message, where it has to be known whose it is.
        have waits := walkAll_queues check loader including { inner with inMessage := true } rfl body free
        refine (message_tells inner span role attributes u fun u => messageBody_tells _ u waits).mono fun _ told => ?_
        refine Bool.and_eq_true_iff.mpr ⟨literal, ?_⟩
        have told := told asks
        cases spoken : Tag.speaker? role attributes with
        | none => rfl
        | some speaker =>
          rw [spoken] at told
          have assistant : speaker = .assistant := by simpa using told
          show ((speaker = .assistant : Bool) && !Node.steppedAll body || Node.settledAll body) = true
          rw [assistant, steps asks]
          rfl
      | false =>
        have requests : .request ∉ Node.outsideAll body := by
          intro member
          rw [Node.hold_eq_true_iff.mpr (Node.opening_of_outsideAll body member)] at asks
          cases asks
        have inside (at_ : Setting) := walkAll_settles at_ body free whole ⟨requests, deeper, tags⟩
        refine (message_cleanly (inside _) _ span role (named [])).mono fun _ told => ?_
        obtain ⟨-, _, _, -, settled⟩ := told
        refine Bool.and_eq_true_iff.mpr ⟨literal, ?_⟩
        cases Tag.speaker? role attributes with
        | none => rfl
        | some speaker => exact Bool.or_eq_true_iff.mpr (.inr settled)
    | scope =>
      have requests : .request ∉ Node.outsideAll body := fun member => orderly.requests (List.mem_cons_of_mem _ member)
      have inside (at_ : Setting) := walkAll_settles at_ body free whole ⟨requests, orderly.steps, tags⟩
      exact (closed_cleanly (inside _) span (named [])).mono fun _ ⟨_, _, _, settled, _⟩ => settled
    | step =>
      have requests : .request ∉ Node.outsideAll body := fun member => orderly.requests (List.mem_cons_of_mem _ member)
      have inside (at_ : Setting) := walkAll_settles at_ body free whole ⟨requests, orderly.steps, tags⟩
      refine (step_cleanly (inside _) _ span (attributeNames_static stepResultNames attributes [] u)).mono fun _ told => ?_
      obtain ⟨-, _, _, _, static, settled, -⟩ := told
      refine Bool.and_eq_true_iff.mpr ⟨List.all_eq_true.mpr fun name listed => ?_, settled⟩
      refine isLiteral_of_static parts (fun a member same => ?_) fun a member same => ?_
      · exact here.results rfl a member (same ▸ listed)
      · exact static a member (same ▸ listed)
    | reference => cases known

theorem walkAll_settles (at_ : Setting) : ∀ nodes : List Node, Node.refersAll nodes = false → Node.allPlain nodes = true →
    Node.Orderly (Node.outsideAll nodes) (Node.messageBodiesAll nodes) (Node.openingsAll nodes) → ∀ u : Usage,
      Cleanly (fun _ => Node.settledAll nodes = true) (walkAll check (follow loader including) at_ nodes u)
  | [], _, _, _, _ => .pure rfl
  | n :: r, bare, plain, orderly, u => by
    obtain ⟨bare, bare'⟩ := Bool.or_eq_false_iff.mp bare
    obtain ⟨plain, plain'⟩ := Bool.and_eq_true_iff.mp plain
    obtain ⟨orderly, orderly'⟩ := orderly.of_append
    refine (walk_settles at_ n bare plain orderly u).bind fun u => ?_
    exact (walkAll_settles at_ r bare' plain' orderly' u).mono fun _ second first => Bool.and_eq_true_iff.mpr ⟨first, second⟩

end

end Walk
end Survey

/-- **A clean survey of an orderly document settles it.** -/
theorem Source.settled {source : Source} {options : SurveyOptions} {d : Document}
    (parsed : Document.parse source.content.toList = .ok d) (clean : (source.survey options none).diagnostics = [])
    (bare : Node.refersAll d.body = false) (orderly : d.Orderly) : Node.settledAll d.body = true := by
  have walked := Survey.visit_cleanly (Survey.walkAll_settles options.check options.loader
    (Survey.including options.loader Survey.referenceLimit) { atRoot := true } d.body bare (Grammar.plain_of_parse parsed)
    orderly _)
  obtain ⟨-, settled, -⟩ := of_clean parsed clean walked
  exact settled

end PromptScript
