import PromptScript.Proofs.Gathered
import PromptScript.Proofs.Placed
import PromptScript.Proofs.Requests

/-! # Requests for tools that passes permit

Outside of messages of the assistant no request ever waits, and within one a pass neither stops nor makes a message
before the end. So a pass over a settled document does not come to a request in the wrong place, nor to an attribute of a
step that is not written out. -/
namespace PromptScript

variable {σ : Type}

/-- An item that is no request. -/
abbrev Content.IsOther (c : Content) : Prop := c.isToolCall = false

/-- Where no request waits. -/
abbrev PassState.Silent (s : PassState σ) : Prop := s.Gathered Content.IsOther fun _ => True

/-- What is found does not make a request of a content tag. -/
def Finding.other : Finding := fun tag _ values => ∀ kind kind' left, tag = .content kind →
  Pass.Decides "type" ContentKind.ofName? kind values kind' left → kind' ≠ .toolCall

namespace Pass

variable {α β : Type} {free : Bool}

/-- Passes make no request of other tags. -/
theorem makes_other (options : Options) : Makes options Finding.other Content.IsOther fun _ => True where
  text _ := rfl
  image _ := rfl
  file _ _ := rfl
  content found decides forms := by
    have other := found _ _ _ rfl decides
    cases forms with
    | toolCall => exact absurd rfl other
    | _ => rfl
  plain _ _ := trivial
  message _ _ _ _ _ := trivial
  answer _ _ _ _ _ := trivial

/-- A part that has no fault of a request in the wrong place, nor of an attribute that is not written out. -/
abbrev Settles (part : Pass σ α) : Prop := Raises (fun fault _ => fault.defect.isUnsettled = false) part

theorem ordinary_settles : Ordinary true fun fault (_ : PassState σ) => fault.defect.isUnsettled = false :=
  fun _ _ _ settled => settled

/-- A part that settles if no request waits when it begins, and then leaves none waiting. Where requests are free it
settles anyway. -/
structure Calm (free : Bool) (part : Pass σ α) : Prop where
  keeps : free = false → Keeps Content.IsOther (fun _ => True) part
  fails : ∀ s fault t, (free = false → s.Silent) → part.run.run s = (.error fault, t) → fault.defect.isUnsettled = false

namespace Calm

theorem of_settles {part : Pass σ α} (keeps : Keeps Content.IsOther (fun _ => True) part) (settles : Settles part) :
    Calm free part := ⟨fun _ => keeps, fun s fault t _ failed => settles s fault t failed⟩

theorem of_still {part : Pass σ α} (still : Still part) (settles : Settles part) : Calm free part :=
  of_settles still.keeps settles

theorem pure (a : α) : Calm free (Pure.pure a : Pass σ α) := of_settles (keeps_pure a) (.pure a)

/-- What follows may make use of what is known of the value of the first. -/
theorem knowing {part : Pass σ α} {f : α → Pass σ β} {known : α → Prop} (first : Calm free part) (yields : Yields known part)
    (rest : ∀ a, known a → Calm free (f a)) : Calm free (part >>= f) := by
  refine ⟨fun outside => ?_, fun s fault t silent failed => ?_⟩
  · exact (first.keeps outside).knowing yields fun a here => (rest a here).keeps outside
  · rcases Raises.run_bind_eq_error.mp failed with failed | ⟨a, s₁, ran, failed⟩
    · exact first.fails s fault t silent failed
    · refine (rest a (yields s a s₁ ran)).fails s₁ fault t (fun outside => ?_) failed
      exact first.keeps outside s a s₁ (silent outside) ran

theorem bind {part : Pass σ α} {f : α → Pass σ β} (first : Calm free part) (rest : ∀ a, Calm free (f a)) :
    Calm free (part >>= f) :=
  first.knowing (fun _ _ _ _ => trivial : Yields (fun _ => True) part) fun a _ => rest a

theorem get : Calm free (MonadState.get : Pass σ (PassState σ)) := by
  refine of_settles (fun s a t fine ran => ?_) .get
  obtain ⟨-, rfl⟩ := Prod.mk.inj ran
  exact fine

theorem modify {g : PassState σ → PassState σ} (h : ∀ s, s.Silent → (g s).Silent) :
    Calm free (modify g : Pass σ Unit) := of_settles (keeps_modify h) (.modify g)

theorem modifyScope (change : Scope → Scope) : Calm free (modifyScope change : Pass σ Unit) :=
  modify fun _ silent => ⟨silent.pending, silent.messages⟩

theorem addMessage (m : Message) : Calm free (addMessage m : Pass σ Unit) :=
  modify fun _ silent => ⟨silent.pending, fun _ _ => trivial⟩

/-- Nothing follows a fault. -/
theorem fail {defect : Defect} (settled : defect.isUnsettled = false) (span : Span) (rest : α → Pass σ β) :
    Calm free (Pass.fail defect span >>= rest) := by
  refine of_settles (fun s b t _ ran => ?_) fun s fault t failed => ?_
  · cases ran
  · cases failed
    exact settled

/-- Where a tag must not stand its part does not begin. -/
theorem refusing {p : Prop} [Decidable p] {defect : Defect} (settled : defect.isUnsettled = false) (span : Span)
    {rest : Pass σ α} (h : ¬ p → Calm free rest) :
    Calm free (if p then Pass.fail defect span >>= fun (_ : PUnit) => rest else rest) := by
  split
  · exact fail settled span _
  · next out => exact h out

section Flow

variable {part : Pass σ (α × Flow)}

theorem into {f : α → Flow → β} (h : Calm free part) : Calm free (into f part) := h.bind fun _ => pure _

theorem goingOn {left : α → β} {rest : α → Pass σ (β × Flow)} (first : Calm free part) (last : ∀ a, Calm free (rest a)) :
    Calm free (goingOn part left rest) := by
  refine first.bind fun r => ?_
  obtain ⟨a, flow⟩ := r
  cases flow with
  | stops => exact pure _
  | goesOn => exact last a

theorem closing {close : Pass σ Unit} (first : Calm free part) (last : Calm free close) : Calm free (closing part close) :=
  first.goingOn fun _ => last.bind fun _ => pure _

theorem inView {table : Option Pointers} (h : Calm free part) : Calm free (inView table part) :=
  get.bind fun _ => (modifyScope _).bind fun _ => h.bind fun _ => get.bind fun _ => (modifyScope _).bind fun _ => pure _

theorem inScope {scope : Scope} (h : Calm free part) : Calm free (inScope scope part) :=
  get.bind fun _ => (modifyScope _).bind fun _ => h.bind fun _ => get.bind fun _ => (modifyScope _).bind fun _ => pure _

variable {item : Binding} {index : Option Binding} {again : Pass σ (List Node × Flow)}

theorem rounds (h : Calm free again) (vs : List Value) (n : Nat) (body : List Node) (round : Option Nat) :
    Calm free (rounds item index again vs n body round) := by
  induction vs generalizing n body round with
  | nil => exact pure _
  | cons v vs ih =>
    have declares : Calm free (declareItem item index v n : Pass σ Unit) :=
      of_settles (keeps_declareItem item index v n) (raises_declareItem item index v n)
    exact (declares.bind fun _ => h).inView.goingOn fun _ => ih _ _ _

theorem roundsFrom {p : Progress} {vs : List Value} {body : List Node} {resume : Pass σ (List Node × Flow)}
    (first : Calm free resume) (h : Calm free again) : Calm free (roundsFrom p item index vs body resume again) := by
  unfold Pass.roundsFrom
  dsimp only
  split
  · exact first.inView.goingOn fun _ => h.rounds _ _ _ _
  · exact h.rounds _ _ _ _

end Flow

/-! ## Messages -/

variable (options : Options)

/-- What is taken where no request waits has none. -/
theorem taking {f : List (Content × Span) → Pass σ α}
    (rest : ∀ content, (∀ c ∈ content.map Prod.fst, c.IsOther) → Calm false (f content)) :
    Calm false (takeContent options >>= f) := by
  refine ⟨fun _ s b t silent ran => ?_, fun s fault t silent failed => ?_⟩
  · obtain ⟨content, s₁, taken, later⟩ := runs_bind.mp ran
    obtain ⟨silent, other⟩ := items_of_takeContent (makes_other options) silent taken
    exact (rest content other).keeps rfl s₁ b t silent later
  · rcases Raises.run_bind_eq_error.mp failed with failed | ⟨content, s₁, taken, failed⟩
    · exact (raises_takeContent options : Settles (takeContent options : Pass σ _)) s fault t failed
    · obtain ⟨silent, other⟩ := items_of_takeContent (makes_other options) (silent rfl) taken
      exact (rest content other).fails s₁ fault t (fun _ => silent) failed

/-- Content without requests may be of any message. -/
theorem messageOf {content : List (Content × Span)} (other : ∀ c ∈ content.map Prod.fst, c.IsOther) (role : Role) (span : Span) :
    Calm free (messageOf role content span : Pass σ Message) := by
  have none : content.find? (·.1.isToolCall) = none := by
    refine List.find?_eq_none.mpr fun e member => ?_
    rw [other e.1 (List.mem_map_of_mem member)]
    exact Bool.false_ne_true
  unfold Pass.messageOf
  rw [none]
  exact pure _

theorem flushContent : Calm false (flushContent options : Pass σ Unit) := by
  refine taking options fun content other => ?_
  cases content with
  | nil => exact pure _
  | cons => exact (messageOf other _ _).bind addMessage

theorem openMessage (around : Surroundings) (span : Span) (role : Option Role) (values : Attributes) :
    Calm false (openMessage options around span role values : Pass σ (Role × Attributes)) :=
  refusing rfl span fun _ => (flushContent options).bind fun _ =>
    of_still (still_roleOf span role values) (raises_roleOf ordinary_settles span role values)

theorem closeMessage (span : Span) (role : Role) (left : Attributes) :
    Calm false (closeMessage options span role left : Pass σ Unit) := by
  refine taking options fun content other => (messageOf other role span).bind fun m => ?_
  split
  · exact (of_still (still_toolAnswer span m left) (raises_toolAnswer ordinary_settles span m left)).bind addMessage
  · exact addMessage _

theorem message (around : Surroundings) (span : Span) {role : Option Role} {values : Attributes} {body : Pass σ (α × Flow)}
    (h : ∀ role' left, Decides "role" Role.ofName? role values role' left → Calm false body) :
    Calm false (Pass.message options around span role values body) := by
  have opened : Yields (fun r => Decides "role" Role.ofName? role values r.1 r.2)
      (Pass.openMessage options around span role values : Pass σ (Role × Attributes)) :=
    fun _ _ _ ran => decides_of_openMessage options ran
  exact (openMessage options around span role values).knowing opened fun r decides =>
    (h r.1 r.2 decides).closing (closeMessage options span r.1 r.2)

/-- Within a message there is no other one. -/
theorem message_refused {around : Surroundings} (inside : around.inMessage = true) (span : Span) (role : Option Role)
    (values : Attributes) (body : Pass σ (α × Flow)) : Calm free (Pass.message options around span role values body) := by
  unfold Pass.message Pass.openMessage
  rw [inside, Bool.true_or, if_pos rfl, bind_assoc]
  exact fail rfl span _

end Calm

/-- After a message none of its content waits. -/
theorem silent_of_closeMessage {options : Options} {span : Span} {role : Role} {left : Attributes} {s t : PassState σ}
    (ran : Runs (closeMessage options span role left) s () t) : t.Silent := by
  obtain ⟨content, s₁, taken, rest⟩ := runs_bind.mp ran
  obtain ⟨-, s', -, taken⟩ := runs_bind.mp taken
  obtain ⟨-, rfl⟩ := Prod.mk.inj taken
  obtain ⟨m, s₂, formed, added⟩ := runs_bind.mp rest
  obtain ⟨rfl, -⟩ := (still_messageOf _ _ _).runs formed
  have empty : ({ s' with pending := [] } : PassState σ).Silent := ⟨List.forall_mem_nil _, fun _ _ => trivial⟩
  by_cases tool : role = .tool
  · rw [if_pos tool] at added
    obtain ⟨m', s₃, answered, last⟩ := runs_bind.mp added
    obtain ⟨rfl, -⟩ := (still_toolAnswer _ _ _).runs answered
    exact keeps_addMessage trivial _ () t empty last
  · rw [if_neg tool] at added
    exact keeps_addMessage trivial _ () t empty added

/-- The assistant may ask for tools. -/
theorem settles_closeAssistant (options : Options) (span : Span) (left : Attributes) :
    Settles (closeMessage options span .assistant left : Pass σ Unit) := by
  refine .bind (raises_takeContent options) fun content => .bind ?_ fun _ => .modify _
  unfold messageOf
  split
  · exact .pure _
  · exact .pure _

/-- **Within a message of the assistant requests are free**, if no pass stops in it. -/
theorem Calm.assistant (options : Options) (around : Surroundings) (span : Span) {role : Option Role} {values : Attributes}
    {body : Pass σ (α × Flow)} (decides : ∀ role' left, Decides "role" Role.ofName? role values role' left → role' = .assistant)
    (inside : Calm true body) (on : GoesOn body) : Calm false (Pass.message options around span role values body) := by
  have opened : Yields (fun r => Decides "role" Role.ofName? role values r.1 r.2)
      (Pass.openMessage options around span role values : Pass σ (Role × Attributes)) :=
    fun _ _ _ ran => decides_of_openMessage options ran
  refine (Calm.openMessage options around span role values).knowing opened fun r decided => ?_
  obtain ⟨role', left⟩ := r
  obtain rfl := decides role' left decided
  refine ⟨fun _ s b t _ ran => ?_, fun s fault t _ failed => ?_⟩
  · obtain ⟨⟨a, flow⟩, s₁, visited, ran⟩ := runs_bind.mp ran
    obtain rfl : flow = .goesOn := on s _ s₁ visited
    obtain ⟨⟨⟩, s₂, closed, ran⟩ := runs_bind.mp ran
    obtain ⟨-, rfl⟩ := runs_pure.mp ran
    exact silent_of_closeMessage closed
  · rcases Raises.run_bind_eq_error.mp failed with failed | ⟨⟨a, flow⟩, s₁, visited, failed⟩
    · exact inside.fails s fault t nofun failed
    · obtain rfl : flow = .goesOn := on s _ s₁ visited
      rcases Raises.run_bind_eq_error.mp failed with failed | ⟨_, s₂, -, failed⟩
      · exact settles_closeAssistant options span left s₁ fault t failed
      · cases failed

/-! ## Other tags -/

namespace Calm

variable (options : Options)

theorem openContent (around : Surroundings) (span : Span) (kind : Option ContentKind) (values : Attributes) :
    Calm free (openContent around span kind values : Pass σ (ContentKind × Attributes)) := by
  by_cases inside : around.inContent = true
  · unfold Pass.openContent
    rw [if_pos inside]
    exact fail rfl span _
  · exact of_still (still_openContent around span kind values)
      (raises_openContent ordinary_settles (Bool.eq_false_iff.mpr inside) span kind values)

theorem content {kind : Option ContentKind} {attributes : List Attribute} {values : Attributes}
    (found : free = false → Finding.other (.content kind) attributes values) (around : Surroundings) (span : Span)
    {body : Pass σ (α × Flow)} (h : Calm free body) : Calm free (Pass.content options around span kind values body) := by
  have opened : Yields (fun r => Decides "type" ContentKind.ofName? kind values r.1 r.2)
      (Pass.openContent around span kind values : Pass σ (ContentKind × Attributes)) :=
    fun _ _ _ ran => decides_of_openContent ran
  refine (openContent around span kind values).knowing opened fun r decides => h.closing ⟨fun outside => ?_, ?_⟩
  · exact keeps_closeContent (makes_other options) (found outside) span decides
  · exact fun s fault t _ failed => raises_closeContent options ordinary_settles span r.1 r.2 s fault t failed

/-- What is written out a step may say of itself. -/
theorem staticAttribute {name : String} {attributes : List Attribute} (literal : Attribute.isLiteral name attributes = true) :
    Calm free (staticAttribute name attributes : Pass σ (Option String)) := by
  refine of_still (still_staticAttribute name attributes) ?_
  unfold Pass.staticAttribute
  unfold Attribute.isLiteral at literal
  split
  · exact .pure _
  · next a found =>
    rw [found] at literal
    obtain ⟨text, static⟩ := Option.isSome_iff_exists.mp literal
    rw [static]
    exact .pure _

theorem openStep (around : Surroundings) (span : Span) {tags : List Attribute}
    (literal : ∀ name ∈ stepResultNames, Attribute.isLiteral name tags = true) (values : Attributes) :
    Calm free (openStep around span tags values : Pass σ StepHead) := by
  refine refusing rfl span fun _ => (staticAttribute (literal "as" ?_)).bind fun _ =>
    (staticAttribute (literal "raw" ?_)).bind fun _ => pure _
  · exact List.mem_cons_self
  · exact List.mem_cons_of_mem _ List.mem_cons_self

theorem step (around : Surroundings) (span : Span) {tags : List Attribute}
    (literal : ∀ name ∈ stepResultNames, Attribute.isLiteral name tags = true) (values : Attributes)
    {body : Pass σ (α × Flow)} (h : Calm false body) : Calm false (step options around span tags values body) := by
  have takes : Calm false (takeResponse : Pass σ (Option (List Content))) :=
    of_settles keeps_takeResponse (.bind .get fun _ => .bind (.set _) fun _ => .pure _)
  refine (openStep around span literal values).bind fun head => takes.bind fun response => ?_
  cases response with
  | none => exact h.bind fun _ => (of_settles (keeps_leaveSettings head) (.modify _)).bind fun _ => pure _
  | some response =>
    have closes : Calm false (closeStep span head response : Pass σ Unit) :=
      of_settles (keeps_closeStep span head response) (raises_closeStep ordinary_settles span head response)
    exact closes.bind fun _ => (flushContent options).bind fun _ => pure _

theorem closedScope (marks : Progress) (values : Attributes) (body : List Node) :
    Calm free (closedScope marks values body : Pass σ Scope) := by
  refine of_still (still_closedScope marks values body) (raises_closedScope marks values body fun fault found _ => ?_)
  exact Node.found_of_closureFaults (p := fun fault => fault.defect.isUnsettled = false) (fun _ _ => rfl) _ _ fault found

end Calm
end Pass

/-! ## Whole passes -/

namespace Node

variable {free : Bool}

/-- Where requests are free there is no step, and elsewhere what stands there is settled. -/
def Permits (free : Bool) (n : Node) : Prop :=
  match free with
  | true => n.stepped = false
  | false => n.settled = true

def PermitsAll (free : Bool) (nodes : List Node) : Prop :=
  match free with
  | true => steppedAll nodes = false
  | false => settledAll nodes = true

theorem PermitsAll.uncons {n : Node} {r : List Node} (h : PermitsAll free (n :: r)) : n.Permits free ∧ PermitsAll free r := by
  cases free with
  | true => exact Bool.or_eq_false_iff.mp h
  | false => exact Bool.and_eq_true_iff.mp h

theorem Permits.choice {span : Span} {test : Expr} {body other : List Node} {p : Option Progress}
    (h : (Node.choice span test body (some other) p).Permits free) : PermitsAll free body ∧ PermitsAll free other := by
  cases free with
  | true => exact Bool.or_eq_false_iff.mp h
  | false => exact Bool.and_eq_true_iff.mp h

theorem Permits.loop {span : Span} {items : Expr} {item : Binding} {index : Option Binding} {body other : List Node}
    {p : Option Progress} (h : (Node.loop span items item index body (some other) p).Permits free) :
    PermitsAll free body ∧ PermitsAll free other := by
  cases free with
  | true => exact Bool.or_eq_false_iff.mp h
  | false => exact Bool.and_eq_true_iff.mp h

theorem Permits.stepless {span : Span} {tag : Tag} {attributes : List Attribute} {body : List Node} {p : Option Progress}
    (h : (Node.element span tag attributes body p).Permits true) : tag ≠ .step ∧ PermitsAll true body := by
  obtain ⟨other, stepless⟩ := Bool.or_eq_false_iff.mp h
  exact ⟨of_decide_eq_false other, stepless⟩

end Node

/-- The role that a pass finds is the one that is written out. -/
theorem Tag.speaker_of_decides {role : Option Role} {attributes : List Attribute} {values left : Attributes} {role' : Role}
    (found : Finding.spelled (.message role) attributes values)
    (literal : (role.isSome || Attribute.isLiteral "role" attributes) = true)
    (decides : Pass.Decides "role" Role.ofName? role values role' left) : speaker? role attributes = some role' := by
  rcases decides with ⟨rfl, -⟩ | ⟨rfl, ⟨v, there, known⟩, -⟩
  · rfl
  · obtain ⟨text, written, rfl⟩ := found "role" v there literal
    unfold speaker?
    rw [Option.none_or, written]
    exact known

/-- A content tag is none of a request if the kind that is written out is another one. -/
theorem Finding.other_of_spelled {kind : Option ContentKind} {attributes : List Attribute} {values : Attributes}
    (found : spelled (.content kind) attributes values) (other : kind ≠ some .toolCall)
    (literal : (kind.isSome || (Attribute.isLiteral "type" attributes &&
      Attribute.written? "type" attributes != some ContentKind.toolCall.name)) = true) :
    Finding.other (.content kind) attributes values := by
  rintro kind₀ kind' left ⟨⟩ (⟨rfl, -⟩ | ⟨rfl, ⟨v, there, known⟩, -⟩)
  · exact fun same => other (congrArg some same)
  · obtain ⟨literal, type⟩ := Bool.and_eq_true_iff.mp literal
    obtain ⟨text, written, rfl⟩ := found "type" v there literal
    rintro rfl
    have known : ContentKind.all.find? (·.name == text) = some .toolCall := known
    have named := List.find?_some (p := fun kind : ContentKind => kind.name == text) known
    rw [written, beq_iff_eq.mp named] at type
    exact bne_iff_ne.mp type rfl

namespace Pass

variable {eval : Evaluator σ} (options : Options)

mutual

/-- **A pass permits the requests of a node that is settled.** -/
theorem calm_walk (evals : ∀ e, Settles (evaluate eval e)) (free : Bool) (around : Surroundings)
    (inside : free = true → around.inMessage = true) (anew : Bool) : ∀ n : Node, n.Permits free →
      (∀ m ∈ n.met anew, m.Finds eval Finding.spelled) → Calm free (walk eval options around anew n)
  | .text .., _, _ => (Calm.of_settles (keeps_addSegment _) (raises_addSegment _)).bind fun _ => .pure _
  | .comment .., _, _ => .pure _
  | .config span data _, _, _ =>
    (Calm.of_settles (keeps_meetHeader span data) (raises_meetHeader ordinary_settles span data)).bind fun _ => .pure _
  | .interpolation span e _, _, _ =>
    (Calm.of_settles (keeps_interpolate eval (makes_other options) around span e)
      (raises_interpolate options evals ordinary_settles around span e)).bind fun _ => .pure _
  | .group _ body _, permits, finds => by
    unfold walk
    exact (calm_walkAll evals free around inside anew body permits finds).into
  | .choice _ test body none _, permits, finds => by
    unfold walk
    refine (Calm.of_settles (keeps_remembered eval _ test) (raises_remembered (evals test))).bind fun holds => ?_
    dsimp only
    split
    · exact (calm_walkAll evals free around inside anew body permits finds).inView.into
    · exact .pure _
  | .choice _ test body (some other) _, permits, finds => by
    obtain ⟨permits, permits'⟩ := permits.choice
    obtain ⟨finds, finds'⟩ := List.forall_mem_append.mp finds
    unfold walk
    refine (Calm.of_settles (keeps_remembered eval _ test) (raises_remembered (evals test))).bind fun holds => ?_
    dsimp only
    split
    · exact (calm_walkAll evals free around inside anew body permits finds).inView.into
    · exact (calm_walkAll evals free around inside anew other permits' finds').inView.into
  | .loop _ items _ _ body none _, permits, finds => by
    obtain ⟨first, again⟩ := List.forall_mem_append.mp finds
    unfold walk
    refine (Calm.of_settles (keeps_remembered eval _ items) (raises_remembered (evals items))).bind fun v => ?_
    refine (Calm.of_still (still_itemsOf items v) (raises_itemsOf ordinary_settles items v)).bind fun vs => ?_
    exact ((calm_walkAll evals free around inside anew body permits first).roundsFrom
      (calm_walkAll evals free around inside true body permits again)).into
  | .loop _ items _ _ body (some other) _, permits, finds => by
    obtain ⟨permits, permits'⟩ := permits.loop
    obtain ⟨finds, finds'⟩ := List.forall_mem_append.mp finds
    obtain ⟨first, again⟩ := List.forall_mem_append.mp finds
    unfold walk
    refine (Calm.of_settles (keeps_remembered eval _ items) (raises_remembered (evals items))).bind fun v => ?_
    refine (Calm.of_still (still_itemsOf items v) (raises_itemsOf ordinary_settles items v)).bind fun vs => ?_
    cases vs with
    | nil => exact (calm_walkAll evals free around inside anew other permits' finds').inView.into
    | cons =>
      exact ((calm_walkAll evals free around inside anew body permits first).roundsFrom
        (calm_walkAll evals free around inside true body permits again)).into
  | .element span tag attributes body p, permits, finds => by
    obtain ⟨here, deeper⟩ := List.forall_mem_cons.mp finds
    have named : Calm free (rememberedAttributes eval (if anew then {} else p.getD {}) attributes) :=
      .of_settles (keeps_rememberedAttributes eval _ attributes) (raises_rememberedAttributes evals _ attributes)
    unfold walk
    refine (Calm.of_settles (keeps_flushPassage (makes_other options)) (raises_flushPassage options)).bind fun _ => ?_
    refine named.knowing here fun values found => ?_
    cases tag with
    | content kind =>
      cases free with
      | true =>
        have body := calm_walkAll evals true { around with inContent := true } inside anew body permits.stepless.2 deeper
        have found : true = false → Finding.other (.content kind) attributes values := fun off => nomatch off
        exact (Calm.content options found around span body).into
      | false =>
        obtain ⟨kinds, settled⟩ := Bool.and_eq_true_iff.mp permits
        obtain ⟨other, literal⟩ := Bool.and_eq_true_iff.mp kinds
        have body := calm_walkAll evals false { around with inContent := true } inside anew body settled deeper
        exact (Calm.content options (fun _ => Finding.other_of_spelled found (bne_iff_ne.mp other) literal) around span body).into
    | message role =>
      cases free with
      | true => exact (Calm.message_refused options (inside rfl) span role values _).into
      | false =>
        obtain ⟨literal, whole⟩ := Bool.and_eq_true_iff.mp permits
        have spoken (role' : Role) (left : Attributes) (decides : Decides "role" Role.ofName? role values role' left) :
            Tag.speaker? role attributes = some role' := Tag.speaker_of_decides found literal decides
        refine Calm.into ?_
        cases speaks : Tag.speaker? role attributes with
        | none =>
          refine Calm.message options around span fun role' left decides => ?_
          cases speaks.symm.trans (spoken role' left decides)
        | some speaker =>
          rw [speaks] at whole
          rcases Bool.or_eq_true_iff.mp whole with assistant | settled
          · obtain ⟨assistant, stepless⟩ := Bool.and_eq_true_iff.mp assistant
            have stepless := (Bool.not_eq_true' _).mp stepless
            refine Calm.assistant options around span (fun role' left decides => ?_) ?_ (GoesOn.walkAll eval options _ anew body stepless)
            · exact (Option.some.inj (speaks.symm.trans (spoken role' left decides))).symm.trans (of_decide_eq_true assistant)
            · exact calm_walkAll evals true { around with inMessage := true } (fun _ => rfl) anew body stepless deeper
          · exact Calm.message options around span fun _ _ _ =>
              calm_walkAll evals false { around with inMessage := true } (fun off => nomatch off) anew body settled deeper
    | scope =>
      have permits : Node.PermitsAll free body := by
        cases free with
        | true => exact permits.stepless.2
        | false => exact permits
      refine (Calm.closedScope _ values body).bind fun _ => ?_
      exact (calm_walkAll evals free around inside anew body permits deeper).inScope.into
    | step =>
      cases free with
      | true => exact absurd rfl permits.stepless.1
      | false =>
        obtain ⟨literal, settled⟩ := Bool.and_eq_true_iff.mp permits
        have body := calm_walkAll evals false { around with inStep := true } inside anew body settled deeper
        exact (Calm.step options around span (List.all_eq_true.mp literal) values body).into
    | reference => exact .of_still (still_fail _ _) (.throw fun _ => rfl)

theorem calm_walkAll (evals : ∀ e, Settles (evaluate eval e)) (free : Bool) (around : Surroundings)
    (inside : free = true → around.inMessage = true) (anew : Bool) : ∀ nodes : List Node, Node.PermitsAll free nodes →
      (∀ m ∈ Node.metAll anew nodes, m.Finds eval Finding.spelled) → Calm free (walkAll eval options around anew nodes)
  | [], _, _ => .pure _
  | n :: r, permits, finds => by
    obtain ⟨permits, permits'⟩ := permits.uncons
    obtain ⟨first, second⟩ := List.forall_mem_append.mp finds
    have later := calm_walkAll evals free around inside anew r permits' second
    unfold walkAll
    split
    · exact later.into
    · next visited =>
      rw [if_neg visited] at first
      exact (calm_walk evals free around inside anew n permits first).goingOn fun _ => later.into

end

end Pass

namespace Document

/-- A document whose requests all passes permit: it is settled, and what is remembered of its tags is what is written
there. -/
structure Permits (d : Document) : Prop where
  settled : Node.settledAll d.body = true
  once : ∀ t ∈ Node.openingsAll d.body, (Attribute.names t.2).Nodup
  keeps : d.Keeps Finding.written

variable {eval : Evaluator σ} {options : Options} {d : Document} {response : Option (List Content)} {m m' : Machine σ}

theorem permits_of_parse {source : List Char} (parsed : parse source = .ok d) (settled : Node.settledAll d.body = true) :
    d.Permits := ⟨settled, once_of_parse parsed, keeps_of_parse parsed⟩

theorem Permits.after {outcome : Outcome} (permits : d.Permits) (passed : d.pass eval options response m = (.ok outcome, m')) :
    outcome.document.Permits where
  settled := by
    rw [← Node.settledAll_clearedAll, marks_pass passed, Node.settledAll_clearedAll]
    exact permits.settled
  once := by
    rw [← Node.openingsAll_clearedAll, marks_pass passed, Node.openingsAll_clearedAll]
    exact permits.once
  keeps := permits.keeps.after Pass.finds_written passed

theorem Permits.finds (permits : d.Permits) : ∀ met ∈ Node.metAll false d.body, met.Finds eval Finding.spelled := by
  intro met member s values t ran
  have once := permits.once _ (Node.mem_openingsAll_of_met d.body false met member)
  exact Finding.spelled_of_written once (Pass.finds_written.remembered (permits.keeps met member) s values t ran)

/-- A pass that fails over such a document does not fail with a request. -/
theorem Permits.settles (permits : d.Permits) (evals : ∀ e, Pass.Settles (Pass.evaluate eval e)) {fault : Fault}
    (failed : d.pass eval options response m = (.error fault, m')) : fault.defect.isUnsettled = false := by
  have visits : Pass.Calm false (d.visit eval options) := by
    refine (Pass.calm_walkAll options evals false {} nofun false d.body permits.settled permits.finds).inView.bind fun _ => ?_
    exact (Pass.Calm.flushContent options).bind fun _ => .pure _
  obtain ⟨s, visited, -⟩ := visit_of_pass failed
  exact visits.fails _ fault s (fun _ => ⟨List.forall_mem_nil _, fun _ _ => trivial⟩) visited

end Document

/-- **Requests of an orderly document without defects are permitted.** No call of a chain over it, whatever the
parameters and the responses are, fails with a request for a tool in the wrong place, nor with an attribute of a step
that is not written out. -/
theorem Source.requests_permitted {source : Source} {options : SurveyOptions} {d : Document} (host : Host σ)
    (parsed : Document.parse source.content.toList = .ok d) (clean : (source.survey options none).diagnostics = [])
    (bare : Node.refersAll d.body = false) (orderly : d.Orderly) (parameters : List (String × Value)) (format : Format)
    (settings : Options) {chain : Chain} (begins : Chain.start source.content parameters format settings = .ok chain)
    (responses : List (Option Response)) (world : World σ) {diagnostic : Diagnostic}
    (failed : .error (.document diagnostic) ∈ (Chain.calls (Expr.eval host) responses chain world).1) :
    diagnostic.defect.isUnsettled = false := by
  obtain ⟨-, -, -, -, -, -, parsed', -⟩ := Chain.start_eq_ok begins
  obtain rfl := Except.ok.inj (parsed.symm.trans parsed')
  have evals (e : Expr) : Pass.Settles (Pass.evaluate (Expr.eval host) e) :=
    Pass.raises_evaluate (fun e s fault t failed => Defect.unsettled_of_evaluative (Expr.evaluates_eval host e s fault t failed)) e
  have permits := Document.permits_of_parse parsed (settled parsed clean bare orderly)
  exact Chain.calls_fail (p := fun defect => defect.isUnsettled = false) (fun permits passed => permits.after passed)
    (fun permits failed => permits.settles evals failed) permits responses world failed

namespace Source

/-- The assistant asks for a tool before a step, with arguments that are no JSON. -/
def askingGreeting : Source :=
  ⟨"main", "<assistant><tool-call id=\"1\" name=\"f\" arguments=\"x\"/></assistant><step as=\"answer\">go</step>"⟩

/-- The first call fails, but not because the request stands in the wrong place. -/
theorem askingGreeting_permitted : ∃ d chain diagnostic, Document.parse askingGreeting.content.toList = .ok d ∧
    (askingGreeting.survey {} none).diagnostics = [] ∧ Node.refersAll d.body = false ∧ d.Orderly ∧
    Chain.start askingGreeting.content [] .canonical {} = .ok chain ∧
    (Chain.calls (Expr.eval Host.idle) [none] chain ⟨0, ()⟩).1 = [.error (.document diagnostic)] ∧
    diagnostic.defect = .invalidToolCallArguments ∧ diagnostic.defect.isUnsettled = false := by
  have fine : (Document.parse askingGreeting.content.toList).toOption.map (fun d =>
      (Node.refersAll d.body, decide d.Orderly)) = some (false, true) := by decide +kernel
  have clean : (askingGreeting.survey {} none).diagnostics = [] := by decide +kernel
  have called : ((Chain.start askingGreeting.content [] .canonical {}).toOption.map fun chain =>
      (Chain.calls (Expr.eval Host.idle) [none] chain ⟨0, ()⟩).1.map Chain.defectOf?) =
        some [some .invalidToolCallArguments] := by decide +kernel
  cases parsed : Document.parse askingGreeting.content.toList with
  | error diagnostic => rw [parsed] at fine; cases fine
  | ok d =>
    rw [parsed] at fine
    obtain ⟨bare, orderly⟩ := Prod.mk.inj (Option.some.inj fine)
    have orderly := of_decide_eq_true orderly
    cases begins : Chain.start askingGreeting.content [] .canonical {} with
    | error fault => rw [begins] at called; cases called
    | ok chain =>
      rw [begins] at called
      obtain ⟨result, calls, found⟩ := List.map_eq_singleton_iff.mp (Option.some.inj called)
      obtain ⟨diagnostic, rfl, same⟩ := Chain.defectOf?_eq_some_iff.mp found
      refine ⟨d, chain, diagnostic, rfl, clean, bare, orderly, rfl, calls, same, ?_⟩
      exact requests_permitted Host.idle parsed clean bare orderly [] .canonical {} begins [none] ⟨0, ()⟩
        (calls ▸ List.mem_cons_self)

/-- A survey of a text without references, whose tags are given, finds no defect, and yet the first call fails. -/
def FailsUnseen (text : String) (tags : List Tag) (defect : Defect) : Prop :=
  ((⟨"main", text⟩ : Source).survey {} none).diagnostics = [] ∧
    ((Chain.start text [] .canonical {}).toOption.map fun first =>
      (Node.refersAll first.document.body, (Node.openingsAll first.document.body).map Prod.fst,
        (Chain.calls (Expr.eval Host.idle) [none] first ⟨0, ()⟩).1.map Chain.defectOf?)) = some (false, tags, [some defect])

/-- A survey does not see a request that no message follows, nor one whose type is an attribute, nor a step that ends
the message of a request too early; and of a step it does not see that a name for the response is left out. -/
theorem requests_unseen :
    FailsUnseen "<tool-call id=\"1\" name=\"f\"/>" [.request] .invalidToolCallPlacement ∧
    FailsUnseen "<user><content type=\"tool-call\" id=\"1\" name=\"f\"/></user>" [.message (some .user), .content none]
      .invalidToolCallPlacement ∧
    FailsUnseen "<assistant><tool-call id=\"1\" name=\"f\"/><step>go</step></assistant>"
      [.message (some .assistant), .request, .step] .invalidToolCallPlacement ∧
    FailsUnseen "<step as/>" [.step] (.invalidStaticAttribute "as") :=
  ⟨⟨by decide +kernel, by decide +kernel⟩, ⟨by decide +kernel, by decide +kernel⟩, ⟨by decide +kernel, by decide +kernel⟩,
    ⟨by decide +kernel, by decide +kernel⟩⟩

end Source
end PromptScript
