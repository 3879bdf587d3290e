import PromptScript.Proofs.Letters
import PromptScript.Proofs.Rejoined

/-! # Passes over documents that say the same

Two passes that have gathered the same, though their passages may be cut into other pieces. What the parts of a pass do
with spans is to put them into faults; so the same parts at other places lead from such passes to such passes. -/
namespace PromptScript

variable {σ : Type} {α β γ δ : Type}

/-- Two passes have gathered the same. What each knows of a header is said apart. -/
structure PassState.Like (g g' : Option Config) (s t : PassState σ) : Prop where
  machine : s.machine = t.machine
  messages : s.messages = t.messages
  passage : s.passage.Reads t.passage
  pending : s.pending.map Prod.fst = t.pending.map Prod.fst
  response : s.response = t.response
  stepConfig : s.stepConfig = t.stepConfig
  header : s.globalConfig = g
  header' : t.globalConfig = g'

namespace PassState.Like

variable {g g' : Option Config} {s t : PassState σ}

theorem table (h : Like g g' s t) : s.table = t.table := congrArg (fun m => m.scope.pointers) h.machine

theorem withScope (h : Like g g' s t) (scope : Scope) : Like g g' (s.withScope scope) (t.withScope scope) :=
  { h with machine := congrArg (fun m => { m with scope }) h.machine }

theorem withTable (h : Like g g' s t) (table : Pointers) : Like g g' (s.withTable table) (t.withTable table) :=
  { h with machine := congrArg (fun m => { m with scope := { m.scope with pointers := table } }) h.machine }

end PassState.Like

namespace Pass

variable {g g' : Option Config}

/-- Two parts of passes give the same, and gather the same. -/
abbrev Likewise (g g' : Option Config) (c d : Pass σ α) : Prop := Elsewhere Eq (PassState.Like g g') c d

/-- What two parts give that may stop: related values, and both stop or neither. -/
def Both (values : α → β → Prop) (a : α × Flow) (b : β × Flow) : Prop := values a.1 b.1 ∧ a.2 = b.2

/-- Two parts of passes that may stop. -/
abbrev Alongside (values : α → β → Prop) (g g' : Option Config) (c : Pass σ (α × Flow)) (d : Pass σ (β × Flow)) : Prop :=
  Elsewhere (Both values) (PassState.Like g g') c d

theorem likewise_need (v : Option α) (defect : Defect) (span span' : Span) :
    Likewise (σ := σ) g g' (need v defect span) (need v defect span') := by
  cases v with
  | none => exact .throw _ _ _
  | some a => exact .pure rfl

theorem likewise_fail (defect : Defect) (span span' : Span) :
    Likewise (σ := σ) g g' (fail defect span : Pass σ α) (fail defect span') := .throw _ _ _

/-! ## Parts that may stop -/

section Flow

variable {values : α → β → Prop} {values' : γ → δ → Prop} {part : Pass σ (α × Flow)} {part' : Pass σ (β × Flow)}

theorem Alongside.into (h : Alongside values g g' part part') {f : α → Flow → γ} {f' : β → Flow → δ}
    (made : ∀ a b flow, values a b → values' (f a flow) (f' b flow)) :
    Alongside values' g g' (into f part) (into f' part') := by
  refine h.bind fun a b ⟨same, flow⟩ => ?_
  obtain ⟨a, flow⟩ := a
  obtain ⟨b, _⟩ := b
  cases flow
  exact .pure ⟨made a b _ same, rfl⟩

theorem Alongside.goingOn (h : Alongside values g g' part part') {left : α → γ} {left' : β → δ}
    {rest : α → Pass σ (γ × Flow)} {rest' : β → Pass σ (δ × Flow)} (made : ∀ a b, values a b → values' (left a) (left' b))
    (later : ∀ a b, values a b → Alongside values' g g' (rest a) (rest' b)) :
    Alongside values' g g' (goingOn part left rest) (goingOn part' left' rest') := by
  refine h.bind fun a b ⟨same, flow⟩ => ?_
  obtain ⟨a, flow⟩ := a
  obtain ⟨b, _⟩ := b
  cases flow
  cases flow with
  | stops => exact .pure ⟨made a b same, rfl⟩
  | goesOn => exact later a b same

theorem Alongside.closing (h : Alongside values g g' part part') {close close' : Pass σ Unit}
    (closes : Likewise g g' close close') : Alongside values g g' (closing part close) (closing part' close') :=
  h.goingOn (fun _ _ => id) fun _ _ same => closes.next fun _ => .pure ⟨same, rfl⟩

/-- Parts are run alongside with tables of their own if they are so where the tables have been put. -/
theorem agree_inView {fails : PassState σ → PassState σ → Prop} {table : Option Pointers} {s t : PassState σ}
    (outer : s.table = t.table)
    (both : Agree (Both values) fails (PassState.Like g g') (part.result (s.withTable (table.getD s.table)))
      (part'.result (t.withTable (table.getD t.table)))) :
    Agree (Both fun a b => values a.1 b.1 ∧ a.2 = b.2) fails (PassState.Like g g') ((inView table part).result s)
      ((inView table part').result t) := by
  rw [result_inView, result_inView, outer]
  rw [outer] at both
  generalize part.result _ = x at both
  generalize part'.result _ = y at both
  cases both with
  | @ok a b s' t' same h =>
    obtain ⟨a, flow⟩ := a
    obtain ⟨b, _⟩ := b
    obtain ⟨same, rfl⟩ := same
    exact .ok ⟨⟨same, h.table⟩, rfl⟩ (h.withTable _)
  | error h => exact .error h

theorem Alongside.inView (h : Alongside values g g' part part') (table : Option Pointers) :
    Alongside (fun a b => values a.1 b.1 ∧ a.2 = b.2) g g' (inView table part) (inView table part') := by
  intro s t here
  have both := h _ _ (here.withTable (table.getD s.table))
  refine agree_inView here.table ?_
  rw [← here.table]
  exact both

theorem Alongside.inScope (h : Alongside values g g' part part') (scope : Scope) :
    Alongside (fun a b => values a.1 b.1 ∧ a.2 = b.2) g g' (inScope scope part) (inScope scope part') := by
  intro s t here
  show Agree _ _ _ ((Pass.inScope scope part).result s) ((Pass.inScope scope part').result t)
  rw [result_inScope, result_inScope]
  have both := h _ _ (here.withScope scope)
  rw [here.machine]
  unfold Pass.result
  generalize part.run.run (s.withScope scope) = x at both
  generalize part'.run.run (t.withScope scope) = y at both
  cases both with
  | @ok a b s' t' same h =>
    obtain ⟨a, flow⟩ := a
    obtain ⟨b, _⟩ := b
    obtain ⟨same, rfl⟩ := same
    exact .ok ⟨⟨same, congrArg (fun m => m.scope) h.machine⟩, rfl⟩ (h.withScope _)
  | error h => exact .error h

end Flow

/-! ## Text and content -/

section Gathering

variable (options : Options)

theorem likewise_modifyScope (f : Scope → Scope) : Likewise (σ := σ) g g' (modifyScope f) (modifyScope f) :=
  .modify fun _ _ here => { here with machine := congrArg (fun m => { m with scope := f m.scope }) here.machine }

theorem likewise_addSegment (segment : Segment) : Likewise (σ := σ) g g' (addSegment segment) (addSegment segment) :=
  .modify fun _ _ here => { here with passage := here.passage.append (fun _ => rfl) rfl }

theorem likewise_addContent (content : Content) (span span' : Span) :
    Likewise (σ := σ) g g' (addContent content span) (addContent content span') :=
  .modify fun _ _ here => { here with pending := by simp only [List.map_append, here.pending, List.map_cons, List.map_nil] }

theorem likewise_addMessage (m : Message) : Likewise (σ := σ) g g' (addMessage m) (addMessage m) :=
  .modify fun _ _ here => { here with messages := congrArg (·.push m) here.messages }

theorem likewise_takeParagraph : Likewise (σ := σ) g g' takeParagraph takeParagraph :=
  fun _ _ here => .ok here.passage.paragraph?_eq { here with passage := .refl [] }

theorem likewise_flushPassage : Likewise (σ := σ) g g' (flushPassage options) (flushPassage options) := by
  refine likewise_takeParagraph.next fun p => ?_
  cases p with
  | none => exact .pure rfl
  | some p => exact likewise_addContent _ _ _

theorem takeContent_elsewhere : Elsewhere (fun (l l' : List (Content × Span)) => l.map Prod.fst = l'.map Prod.fst)
    (PassState.Like g g') (takeContent options : Pass σ _) (takeContent options) :=
  (likewise_flushPassage options).next fun _ _ _ here => .ok here.pending { here with pending := rfl }

/-- A request for a tool is found in both lists of content, or in neither. -/
theorem find?_isToolCall {l l' : List (Content × Span)} (same : l.map Prod.fst = l'.map Prod.fst) :
    (l.find? (·.1.isToolCall)).map Prod.fst = (l'.find? (·.1.isToolCall)).map Prod.fst := by
  have fst (l : List (Content × Span)) : (l.find? (·.1.isToolCall)).map Prod.fst = (l.map Prod.fst).find? (·.isToolCall) := by
    rw [List.find?_map]
    rfl
  rw [fst, fst, same]

theorem likewise_messageOf (role : Role) {l l' : List (Content × Span)} (same : l.map Prod.fst = l'.map Prod.fst)
    (span span' : Span) : Likewise (σ := σ) g g' (messageOf role l span) (messageOf role l' span') := by
  have found := find?_isToolCall same
  unfold messageOf
  generalize l.find? (·.1.isToolCall) = x at found
  generalize l'.find? (·.1.isToolCall) = y at found
  rw [same]
  match x, y, found with
  | none, none, _ => exact .pure rfl
  | some _, some _, _ =>
    dsimp only
    split
    · exact .pure rfl
    · exact .throw _ _ _

theorem likewise_flushContent : Likewise (σ := σ) g g' (flushContent options) (flushContent options) := by
  refine (takeContent_elsewhere options).bind fun l l' same => ?_
  match l, l', same with
  | [], [], _ => exact .pure rfl
  | _ :: _, _ :: _, same => exact (likewise_messageOf _ same _ _).next fun m => likewise_addMessage m

theorem likewise_takeResponse : Likewise (σ := σ) g g' takeResponse takeResponse :=
  fun _ _ here => .ok here.response { here with response := rfl }

theorem likewise_putValue (around : Surroundings) (span span' : Span) (name : Option String) (v : Value) :
    Likewise (σ := σ) g g' (putValue options around span name v) (putValue options around span' name v) := by
  have adds (files : List Attachment) : Likewise (σ := σ) g g' (files.forM fun file => addContent file.toContent span)
      (files.forM fun file => addContent file.toContent span') := by
    induction files with
    | nil => exact .pure rfl
    | cons file files ih => exact (likewise_addContent _ _ _).next fun _ => ih
  unfold putValue
  split
  · exact likewise_addSegment _
  · split
    · split
      · exact likewise_addSegment _
      · exact .throw _ _ _
    · exact (likewise_flushPassage options).next fun _ => adds _

/-! ## Tags -/

section Attributes

variable {attributes attributes' : List Attribute}

theorem likewise_staticAttribute (like : Attribute.Like attributes attributes') (name : String) :
    Likewise (σ := σ) g g' (staticAttribute name attributes) (staticAttribute name attributes') := by
  have found := like.find?_eq name
  unfold staticAttribute
  generalize Attribute.find? name attributes = x at found
  generalize Attribute.find? name attributes' = y at found
  match x, y, found with
  | none, none, _ => exact .pure rfl
  | some a, some a', found =>
    have found : a.value.staticText? = a'.value.staticText? := Option.some.inj found
    dsimp only
    rw [found]
    exact (likewise_need _ _ _ _).next fun _ => .pure rfl

theorem likewise_openStep (like : Attribute.Like attributes attributes') (around : Surroundings) (span span' : Span)
    (values : Attributes) :
    Likewise (σ := σ) g g' (openStep around span attributes values) (openStep around span' attributes' values) := by
  have opens : Likewise (σ := σ) g g' (do
      let resultName ← staticAttribute "as" attributes
      let rawName ← staticAttribute "raw" attributes
      return (⟨resultName, rawName, Attributes.toJson (Fields.erase "raw" (Fields.erase "as" values))⟩ : StepHead)) (do
      let resultName ← staticAttribute "as" attributes'
      let rawName ← staticAttribute "raw" attributes'
      return (⟨resultName, rawName, Attributes.toJson (Fields.erase "raw" (Fields.erase "as" values))⟩ : StepHead)) :=
    (likewise_staticAttribute like _).next fun _ => (likewise_staticAttribute like _).next fun _ => .pure rfl
  unfold openStep
  split
  · exact (likewise_fail _ _ _).next fun _ => opens
  · exact opens

end Attributes

theorem likewise_roleOf (span span' : Span) (role : Option Role) (attributes : Attributes) :
    Likewise (σ := σ) g g' (roleOf span role attributes) (roleOf span' role attributes) := by
  unfold roleOf
  split
  · exact .pure rfl
  · exact (likewise_need _ _ _ _).next fun _ => (likewise_need _ _ _ _).next fun _ => .pure rfl

theorem likewise_openMessage (around : Surroundings) (span span' : Span) (role : Option Role) (attributes : Attributes) :
    Likewise (σ := σ) g g' (openMessage options around span role attributes)
      (openMessage options around span' role attributes) := by
  have flushes : Likewise (σ := σ) g g' (flushContent options) (flushContent options) := likewise_flushContent options
  have opens := flushes.next fun _ => likewise_roleOf span span' role attributes
  unfold openMessage
  split
  · exact (likewise_fail _ _ _).next fun _ => opens
  · exact opens

theorem likewise_closeMessage (span span' : Span) (role : Role) (attributes : Attributes) :
    Likewise (σ := σ) g g' (closeMessage options span role attributes) (closeMessage options span' role attributes) := by
  refine (takeContent_elsewhere options).bind fun l l' same => (likewise_messageOf _ same _ _).next fun m => ?_
  split
  · unfold toolAnswer
    exact ((likewise_need _ _ _ _).next fun _ => (likewise_need _ _ _ _).next fun _ => .pure rfl).next fun m => likewise_addMessage m
  · exact likewise_addMessage _

theorem likewise_argumentsOf (span span' : Span) (attributes : Attributes) :
    Likewise (σ := σ) g g' (argumentsOf span attributes) (argumentsOf span' attributes) := by
  unfold argumentsOf
  split
  · exact .pure rfl
  · exact (likewise_need _ _ _ _).next fun _ => .pure rfl
  · exact .pure rfl

theorem likewise_itemOf (span span' : Span) (kind : ContentKind) (text : Option Paragraph) (attributes : Attributes) :
    Likewise (σ := σ) g g' (itemOf options span kind text attributes) (itemOf options span' kind text attributes) := by
  unfold itemOf
  split
  · exact .pure rfl
  · exact (likewise_need _ _ _ _).next fun _ => .pure rfl
  · exact (likewise_need _ _ _ _).next fun _ => (likewise_need _ _ _ _).next fun _ => .pure rfl
  · exact (likewise_need _ _ _ _).next fun _ => (likewise_need _ _ _ _).next fun _ => (likewise_argumentsOf _ _ _).next fun _ => .pure rfl

theorem likewise_openContent (around : Surroundings) (span span' : Span) (kind : Option ContentKind) (attributes : Attributes) :
    Likewise (σ := σ) g g' (openContent around span kind attributes) (openContent around span' kind attributes) := by
  have opens : Likewise (σ := σ) g g' (kindOf span kind attributes) (kindOf span' kind attributes) := by
    unfold kindOf
    split
    · exact .pure rfl
    · exact (likewise_need _ _ _ _).next fun _ => (likewise_need _ _ _ _).next fun _ => .pure rfl
  unfold openContent
  split
  · exact (likewise_fail _ _ _).next fun _ => opens
  · exact opens

theorem likewise_closeContent (span span' : Span) (kind : ContentKind) (attributes : Attributes) :
    Likewise (σ := σ) g g' (closeContent options span kind attributes) (closeContent options span' kind attributes) := by
  refine likewise_takeParagraph.next fun p => (likewise_itemOf options _ _ _ _ _).next fun item => ?_
  cases item with
  | none => exact .pure rfl
  | some item => exact likewise_addContent _ _ _

theorem likewise_responseValue (span span' : Span) (hasSchema : Bool) (response : List Content) :
    Likewise (σ := σ) g g' (responseValue span hasSchema response) (responseValue span' hasSchema response) := by
  unfold responseValue
  dsimp only
  split
  · exact (likewise_need _ _ _ _).next fun _ => .pure rfl
  · exact .pure rfl

theorem likewise_closeStep (span span' : Span) (head : StepHead) (response : List Content) :
    Likewise (σ := σ) g g' (closeStep span head response) (closeStep span' head response) := by
  have names (name : String) : Likewise (σ := σ) g g'
      (do write name (← responseValue span (Fields.has "schema" head.config) response))
      (do write name (← responseValue span' (Fields.has "schema" head.config) response)) :=
    (likewise_responseValue _ _ _ _).next fun _ => likewise_modifyScope _
  obtain ⟨resultName, rawName, config⟩ := head
  unfold closeStep
  cases rawName <;> cases resultName <;> dsimp only
  · exact .pure rfl
  · exact names _
  · exact (likewise_modifyScope _).next fun _ => .pure rfl
  · exact (likewise_modifyScope _).next fun _ => names _

theorem likewise_leaveSettings (head : StepHead) : Likewise (σ := σ) g g' (leaveSettings head) (leaveSettings head) :=
  .modify fun _ _ here => { here with stepConfig := rfl }

theorem likewise_itemsOf (e e' : Expr) (v : Value) : Likewise (σ := σ) g g' (itemsOf e v) (itemsOf e' v) := by
  unfold itemsOf
  split
  · exact .pure rfl
  · exact .throw _ _ _

section Body

variable {values : α → β → Prop} {body : Pass σ (α × Flow)} {body' : Pass σ (β × Flow)}
  (inside : Alongside values g g' body body')

include inside

theorem message_elsewhere (around : Surroundings) (span span' : Span) (role : Option Role) (attributes : Attributes) :
    Alongside values g g' (message options around span role attributes body)
      (message options around span' role attributes body') :=
  (likewise_openMessage options around span span' role attributes).next fun _ => inside.closing (likewise_closeMessage options _ _ _ _)

theorem content_elsewhere (around : Surroundings) (span span' : Span) (kind : Option ContentKind) (attributes : Attributes) :
    Alongside values g g' (content options around span kind attributes body)
      (content options around span' kind attributes body') :=
  (likewise_openContent around span span' kind attributes).next fun _ => inside.closing (likewise_closeContent options _ _ _ _)

theorem step_elsewhere {tags tags' : List Attribute} (like : Attribute.Like tags tags') (around : Surroundings)
    (span span' : Span) (attributes : Attributes) :
    Alongside (Option.Rel values) g g' (step options around span tags attributes body)
      (step options around span' tags' attributes body') := by
  refine (likewise_openStep like around span span' attributes).next fun head => likewise_takeResponse.next fun response => ?_
  cases response with
  | none =>
    refine inside.bind fun a b same => (likewise_leaveSettings head).next fun _ => .pure ⟨.some same.1, rfl⟩
  | some response =>
    exact (likewise_closeStep _ _ _ _).next fun _ => (likewise_flushContent options).next fun _ => .pure ⟨.none, rfl⟩

end Body

end Gathering

end Pass
end PromptScript
