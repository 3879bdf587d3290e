import PromptScript.Proofs.Gathered
import PromptScript.Proofs.Turns

/-! # Messages are well formed

Only assistants ask for tools, and only tools answer. The message of a tool is one answer, which has its identifier and
its name from the tag of the message. It is so for every message of a pass, those of content left over included,
unless the caller makes the tool the default role. -/
namespace PromptScript

variable {σ : Type}

/-- Whether the item answers a request for a tool. -/
def Content.isToolResult : Content → Bool
  | toolResult _ _ _ _ _ => true
  | _ => false

/-- The values that a pass may go on with as the attributes of a tag: those that it remembers, or else finds. -/
def MetTag.Gives (eval : Evaluator σ) (met : MetTag) (values : Attributes) : Prop :=
  ∃ s t : PassState σ, Pass.Runs (Pass.rememberedAttributes eval met.marks met.attributes) s values t

/-- The messages that a message tag makes as a tool: one answer, with the identifier and the name that the tag gives. -/
inductive MetTag.Answers (eval : Evaluator σ) (met : MetTag) : Message → Prop where
  | intro {role : Option Role} {values left : Attributes} {id name : Value} (result : Value)
      (tag : met.tag = .message role) (gives : met.Gives eval values)
      (decides : Pass.Decides "role" Role.ofName? role values .tool left)
      (identified : Fields.get? "id" values = some id) (named : Fields.get? "name" values = some name) :
      Answers eval met ⟨.tool, [.toolResult id.toText name.toText result none []],
        Fields.erase "name" (Fields.erase "id" left)⟩

/-- What a message of a pass is to be. -/
structure Message.WellFormed (eval : Evaluator σ) (d : Document) (m : Message) : Prop where
  calls : ∀ c ∈ m.content, c.isToolCall = true → m.role = .assistant
  results : ∀ c ∈ m.content, c.isToolResult = true → m.role = .tool
  answer : m.role = .tool → ∃ met ∈ Node.metAll false d.body, met.Answers eval m

/-- An entry is found beside one that is erased. -/
theorem Fields.get?_erase_of_ne {α : Type} {name other : String} (ne : other ≠ name) (fields : List (String × α)) :
    get? other (erase name fields) = get? other fields := by
  induction fields with
  | nil => rfl
  | cons e r ih =>
    unfold erase
    split
    · next same => rw [get?, if_neg (same ▸ ne.symm)]
    · rw [get?, get?, ih]

/-- What decides the role of a tag is its name or the attribute `role`; the others are left. -/
theorem Pass.Decides.get?_eq {α : Type} {name other : String} {ofName? : String → Option α} {given : Option α}
    {values left : Attributes} {found : α} (decides : Decides name ofName? given values found left) (ne : other ≠ name) :
    Fields.get? other left = Fields.get? other values := by
  obtain ⟨-, rfl⟩ | ⟨-, -, rfl⟩ := decides
  · rfl
  · exact Fields.get?_erase_of_ne ne values

/-- What is found for a tag that a pass comes to in a document. -/
def Finding.givenIn (eval : Evaluator σ) (d : Document) : Finding := fun tag attributes values =>
  ∃ met ∈ Node.metAll false d.body, met.tag = tag ∧ met.attributes = attributes ∧ met.Gives eval values

namespace Pass

/-- Of a role other than a tool, items make a well formed message, if the role admits them and none is an answer. -/
theorem Admits.wellFormed {eval : Evaluator σ} {d : Document} {role : Role} {items : List Content} {a : Attributes}
    (admits : Admits role items) (other : role ≠ .tool) (asking : ∀ c ∈ items, c.isToolResult = false) :
    Message.WellFormed eval d ⟨role, items, a⟩ where
  calls c there asks := admits.resolve_right fun none => by
    rw [none c there] at asks
    cases asks
  results c there answers := by
    rw [asking c there] at answers
    cases answers
  answer tool := absurd tool other

/-- **Passes make well formed messages**, of items that are no answers. -/
theorem makes_wellFormed {options : Options} (other : options.defaultRole ≠ .tool) (eval : Evaluator σ) (d : Document) :
    Makes options (.givenIn eval d) (fun c => c.isToolResult = false) (Message.WellFormed eval d) where
  text _ := rfl
  image _ := rfl
  file _ _ := rfl
  content _ _ forms := by cases forms <;> rfl
  plain admits asking := admits.wellFormed other asking
  message _ _ other admits asking := admits.wellFormed other asking
  answer := by
    rintro role attributes values left id name items ⟨met, here, tag, -, gives⟩ decides identified named -
    -- The identifier and the name are looked up after the role is taken out of the values.
    rw [decides.get?_eq (by decide)] at identified named
    refine ⟨?_, ?_, fun _ => ⟨met, here, .intro _ tag gives decides identified named⟩⟩
    · intro c there asks
      rw [List.mem_singleton.mp there] at asks
      cases asks
    · exact fun _ _ _ => rfl

end Pass

namespace Document

/-- **What a pass emits is well formed**, whatever the document, what earlier passes have left on it, and the point where
the pass ends. -/
theorem emitted_wellFormed {eval : Evaluator σ} {options : Options} {d : Document} {response : Option (List Content)}
    {m m' : Machine σ} {outcome : Outcome} (other : options.defaultRole ≠ .tool)
    (passed : d.pass eval options response m = (.ok outcome, m')) :
    ∀ message ∈ outcome.messages, message.WellFormed eval d :=
  made_of_pass (Pass.makes_wellFormed other eval d) (fun met here s _ t ran => ⟨met, here, rfl, rfl, s, t, ran⟩) passed

/-- Whether a source is read, and a first pass over it meets a condition. -/
def passesWith (text : String) (condition : Outcome → Bool) : Bool :=
  match parse text.toList with
  | .error _ => false
  | .ok d =>
    match (d.pass (Expr.eval Host.idle) {} none ⟨⟨0, ()⟩, Scope.ofList []⟩).1 with
    | .error _ => false
    | .ok outcome => condition outcome

theorem exists_of_passesWith {text : String} {condition : Outcome → Bool} (h : passesWith text condition = true) :
    ∃ d outcome m, parse text.toList = .ok d ∧
      d.pass (Expr.eval Host.idle) {} none ⟨⟨0, ()⟩, Scope.ofList []⟩ = (.ok outcome, m) ∧ condition outcome = true := by
  unfold passesWith at h
  split at h
  · cases h
  · next d parsed =>
    split at h
    · cases h
    · next outcome passed => exact ⟨d, outcome, _, parsed, Prod.ext passed rfl, h⟩

/-- An answer, a request, and a pass that stops within the content of a message. -/
def interrupted : String :=
  "<tool id=\"1\" name=\"f\">ok</tool><assistant><tool-call id=\"2\" name=\"g\"/></assistant>" ++
    "<user>hm <content-text>so <step/></content-text></user>"

/-- What is left over there is a message of its own, and well formed as the others are. -/
theorem interrupted_wellFormed : ∃ d outcome m, parse interrupted.toList = .ok d ∧
    d.pass (Expr.eval Host.idle) {} none ⟨⟨0, ()⟩, Scope.ofList []⟩ = (.ok outcome, m) ∧
    outcome.completed = false ∧
    outcome.messages.map (fun message => (message.role, message.content.map Content.kindName)) =
      [(.tool, ["tool-result"]), (.assistant, ["tool-call"]), (.system, ["text", "text"])] ∧
    ({} : Options).defaultRole ≠ .tool ∧
    ∀ message ∈ outcome.messages, message.WellFormed (Expr.eval Host.idle) d := by
  have made : passesWith interrupted (fun outcome => !outcome.completed &&
      outcome.messages.map (fun message => (message.role, message.content.map Content.kindName)) =
        [(.tool, ["tool-result"]), (.assistant, ["tool-call"]), (.system, ["text", "text"])]) := by
    decide +kernel
  obtain ⟨d, outcome, m, parsed, passed, seen⟩ := exists_of_passesWith made
  rw [Bool.and_eq_true, Bool.not_eq_true', decide_eq_true_eq] at seen
  have other : ({} : Options).defaultRole ≠ .tool := nofun
  exact ⟨d, outcome, m, parsed, passed, seen.1, seen.2, other, emitted_wellFormed other passed⟩

end Document
end PromptScript
