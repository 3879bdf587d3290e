import PromptScript.Proofs.Asides
import PromptScript.Proofs.Uses

/-! # Passes side by side

Two passes on machines of different types that have gathered the same. What a part does with names it does through
evaluations; all other parts are `Blind`: they do the same whatever the machines are. -/
namespace PromptScript

variable {σ τ : Type}

/-- Two passes have gathered the same, on machines that are related. -/
structure PassState.Beside (related : Machine σ → Machine τ → Prop) (s : PassState σ) (t : PassState τ) : Prop where
  machine : related s.machine t.machine
  messages : s.messages = t.messages
  passage : s.passage = t.passage
  pending : s.pending = t.pending
  response : s.response = t.response
  globalConfig : s.globalConfig = t.globalConfig
  stepConfig : s.stepConfig = t.stepConfig

theorem PassState.Beside.imp {related related' : Machine σ → Machine τ → Prop} {s : PassState σ} {t : PassState τ}
    (h : s.Beside related t) (more : ∀ m n, related m n → related' m n) : s.Beside related' t :=
  { h with machine := more _ _ h.machine }

namespace Pass

variable {α β : Type}

/-- A part that looks at nothing of the machine, and its like on another. -/
def Blind (part : Pass σ α) (part' : Pass τ α) : Prop :=
  ∀ ⦃fails related : Machine σ → Machine τ → Prop⦄, (∀ m n, related m n → fails m n) →
    Abreast (fun s t => fails s.machine t.machine) (PassState.Beside related) part part'
      fun a b s t => a = b ∧ s.Beside related t

theorem blind_pure (a : α) : Blind (pure a : Pass σ α) (pure a : Pass τ α) :=
  fun _ _ _ => .pure fun _ _ here => ⟨rfl, here⟩

theorem blind_throw (fault : Fault) : Blind (throw fault : Pass σ α) (throw fault : Pass τ α) :=
  fun _ _ failed => .throw fun _ _ here => failed _ _ here.machine

theorem blind_fail (defect : Defect) (span : Span) : Blind (fail defect span : Pass σ α) (fail defect span : Pass τ α) :=
  blind_throw _

theorem Blind.bind {part : Pass σ α} {part' : Pass τ α} {f : α → Pass σ β} {g : α → Pass τ β}
    (first : Blind part part') (rest : ∀ a, Blind (f a) (g a)) : Blind (part >>= f) (part' >>= g) :=
  fun _ _ failed => (first failed).bind fun a b => .of_fact fun same => by
    subst same
    exact rest a failed

/-- A change to what has been gathered. -/
theorem blind_modify {f : PassState σ → PassState σ} {g : PassState τ → PassState τ}
    (h : ∀ (related : Machine σ → Machine τ → Prop) s t, s.Beside related t → (f s).Beside related (g t)) :
    Blind (modify f : Pass σ Unit) (modify g : Pass τ Unit) :=
  fun _ _ _ => .modify fun s t here => ⟨rfl, h _ s t here⟩

/-! ## Gathering -/

section Gathering

variable (options : Options)

theorem blind_need (v : Option α) (defect : Defect) (span : Span) :
    Blind (need v defect span : Pass σ α) (need v defect span : Pass τ α) := by
  cases v with
  | none => exact blind_fail _ _
  | some a => exact blind_pure a

theorem blind_addSegment (segment : Segment) :
    Blind (addSegment segment : Pass σ Unit) (addSegment segment : Pass τ Unit) :=
  blind_modify (by intro _ s t here; exact { here with passage := congrArg (· ++ [segment]) here.passage })

theorem blind_addContent (content : Content) (span : Span) :
    Blind (addContent content span : Pass σ Unit) (addContent content span : Pass τ Unit) :=
  blind_modify (by intro _ s t here; exact { here with pending := congrArg (· ++ [(content, span)]) here.pending })

theorem blind_addMessage (m : Message) : Blind (addMessage m : Pass σ Unit) (addMessage m : Pass τ Unit) :=
  blind_modify (by intro _ s t here; exact { here with messages := congrArg (·.push m) here.messages })

theorem blind_takeParagraph :
    Blind (takeParagraph : Pass σ (Option Paragraph)) (takeParagraph : Pass τ (Option Paragraph)) :=
  fun _ _ _ _ _ here => .ok ⟨congrArg Passage.paragraph? here.passage, { here with passage := rfl }⟩

theorem blind_flushPassage : Blind (flushPassage options : Pass σ Unit) (flushPassage options : Pass τ Unit) := by
  refine blind_takeParagraph.bind fun p => ?_
  cases p with
  | none => exact blind_pure _
  | some p => exact blind_addContent _ _

theorem blind_takeContent : Blind (takeContent options : Pass σ (List (Content × Span)))
    (takeContent options : Pass τ (List (Content × Span))) :=
  (blind_flushPassage options).bind fun _ _ _ _ _ _ here => .ok ⟨here.pending, { here with pending := rfl }⟩

theorem blind_messageOf (role : Role) (content : List (Content × Span)) (span : Span) :
    Blind (messageOf role content span : Pass σ Message) (messageOf role content span : Pass τ Message) := by
  unfold messageOf
  split
  · split
    · exact blind_pure _
    · exact blind_fail _ _
  · exact blind_pure _

theorem blind_flushContent : Blind (flushContent options : Pass σ Unit) (flushContent options : Pass τ Unit) := by
  refine (blind_takeContent options).bind fun content => ?_
  cases content with
  | nil => exact blind_pure _
  | cons _ _ => exact (blind_messageOf _ _ _).bind fun _ => blind_addMessage _

theorem blind_putValue (around : Surroundings) (span : Span) (name : Option String) (v : Value) :
    Blind (putValue options around span name v : Pass σ Unit) (putValue options around span name v : Pass τ Unit) := by
  have adds : ∀ files : List Attachment,
      Blind (files.forM fun file => addContent file.toContent span : Pass σ PUnit)
        (files.forM fun file => addContent file.toContent span : Pass τ PUnit) := by
    intro files
    induction files with
    | nil => exact blind_pure _
    | cons file files ih => exact (blind_addContent _ _).bind fun _ => ih
  unfold putValue
  split
  · exact blind_addSegment _
  · split
    · split
      · exact blind_addSegment _
      · exact blind_fail _ _
    · exact (blind_flushPassage options).bind fun _ => adds _

theorem blind_staticAttribute (name : String) (attributes : List Attribute) :
    Blind (staticAttribute name attributes : Pass σ (Option String)) (staticAttribute name attributes : Pass τ _) := by
  unfold staticAttribute
  split
  · exact blind_pure _
  · exact (blind_need _ _ _).bind fun _ => blind_pure _

theorem blind_roleOf (span : Span) (role : Option Role) (attributes : Attributes) :
    Blind (roleOf span role attributes : Pass σ (Role × Attributes)) (roleOf span role attributes : Pass τ _) := by
  unfold roleOf
  split
  · exact blind_pure _
  · exact (blind_need _ _ _).bind fun _ => (blind_need _ _ _).bind fun _ => blind_pure _

theorem blind_openMessage (around : Surroundings) (span : Span) (role : Option Role) (attributes : Attributes) :
    Blind (openMessage options around span role attributes : Pass σ (Role × Attributes))
      (openMessage options around span role attributes : Pass τ _) := by
  have opens := (blind_flushContent (σ := σ) (τ := τ) options).bind fun _ => blind_roleOf span role attributes
  unfold openMessage
  split
  · exact (blind_fail _ _).bind fun _ => opens
  · exact opens

theorem blind_closeMessage (span : Span) (role : Role) (attributes : Attributes) :
    Blind (closeMessage options span role attributes : Pass σ Unit)
      (closeMessage options span role attributes : Pass τ Unit) := by
  refine (blind_takeContent options).bind fun content => (blind_messageOf _ _ _).bind fun m => ?_
  split
  · unfold toolAnswer
    exact ((blind_need _ _ _).bind fun _ => (blind_need _ _ _).bind fun _ => blind_pure _).bind fun _ =>
      blind_addMessage _
  · exact blind_addMessage _

theorem blind_argumentsOf (span : Span) (attributes : Attributes) :
    Blind (argumentsOf span attributes : Pass σ Value) (argumentsOf span attributes : Pass τ Value) := by
  unfold argumentsOf
  split
  · exact blind_pure _
  · exact (blind_need _ _ _).bind fun _ => blind_pure _
  · exact blind_pure _

theorem blind_itemOf (span : Span) (kind : ContentKind) (text : Option Paragraph) (attributes : Attributes) :
    Blind (itemOf options span kind text attributes : Pass σ (Option Content))
      (itemOf options span kind text attributes : Pass τ _) := by
  unfold itemOf
  split
  · exact blind_pure _
  · exact (blind_need _ _ _).bind fun _ => blind_pure _
  · exact (blind_need _ _ _).bind fun _ => (blind_need _ _ _).bind fun _ => blind_pure _
  · exact (blind_need _ _ _).bind fun _ => (blind_need _ _ _).bind fun _ => (blind_argumentsOf _ _).bind fun _ =>
      blind_pure _

theorem blind_openContent (around : Surroundings) (span : Span) (kind : Option ContentKind)
    (attributes : Attributes) : Blind (openContent around span kind attributes : Pass σ (ContentKind × Attributes))
      (openContent around span kind attributes : Pass τ _) := by
  have opens : Blind (kindOf span kind attributes : Pass σ (ContentKind × Attributes))
      (kindOf span kind attributes : Pass τ _) := by
    unfold kindOf
    split
    · exact blind_pure _
    · exact (blind_need _ _ _).bind fun _ => (blind_need _ _ _).bind fun _ => blind_pure _
  unfold openContent
  split
  · exact (blind_fail _ _).bind fun _ => opens
  · exact opens

theorem blind_closeContent (span : Span) (kind : ContentKind) (attributes : Attributes) :
    Blind (closeContent options span kind attributes : Pass σ Unit)
      (closeContent options span kind attributes : Pass τ Unit) := by
  refine blind_takeParagraph.bind fun p => (blind_itemOf options _ _ _ _).bind fun item => ?_
  cases item with
  | none => exact blind_pure _
  | some item => exact blind_addContent _ _

theorem blind_responseValue (span : Span) (hasSchema : Bool) (response : List Content) :
    Blind (responseValue span hasSchema response : Pass σ Value) (responseValue span hasSchema response : Pass τ _) := by
  unfold responseValue
  dsimp only
  split
  · exact (blind_need _ _ _).bind fun _ => blind_pure _
  · exact blind_pure _

theorem blind_openStep (around : Surroundings) (span : Span) (tags : List Attribute) (attributes : Attributes) :
    Blind (openStep around span tags attributes : Pass σ StepHead) (openStep around span tags attributes : Pass τ _) := by
  have opens : Blind (do
      let resultName ← staticAttribute "as" tags
      let rawName ← staticAttribute "raw" tags
      return ⟨resultName, rawName, Attributes.toJson (Fields.erase "raw" (Fields.erase "as" attributes))⟩ :
        Pass σ StepHead) (do
      let resultName ← staticAttribute "as" tags
      let rawName ← staticAttribute "raw" tags
      return ⟨resultName, rawName, Attributes.toJson (Fields.erase "raw" (Fields.erase "as" attributes))⟩ :
        Pass τ StepHead) :=
    (blind_staticAttribute _ _).bind fun _ => (blind_staticAttribute _ _).bind fun _ => blind_pure _
  unfold openStep
  split
  · exact (blind_fail _ _).bind fun _ => opens
  · exact opens

theorem blind_leaveSettings (head : StepHead) :
    Blind (leaveSettings head : Pass σ Unit) (leaveSettings head : Pass τ Unit) :=
  blind_modify (by intro _ s t here; exact { here with stepConfig := rfl })

theorem blind_itemsOf (e : Expr) (v : Value) :
    Blind (itemsOf e v : Pass σ (List Value)) (itemsOf e v : Pass τ (List Value)) := by
  unfold itemsOf
  split
  · exact blind_pure _
  · exact blind_fail _ _

theorem blind_meetHeader (span : Span) (data : String) :
    Blind (meetHeader span data : Pass σ Unit) (meetHeader span data : Pass τ Unit) := by
  unfold meetHeader
  split
  · exact blind_fail _ _
  · exact blind_modify (by intro _ s t here; exact { here with globalConfig := rfl })

end Gathering

end Pass

/-! ## Evaluations in passes -/

/-- The names that the parts of an attribute need and give. -/
def Node.usesOfParts : List Node → Uses
  | [] => .none
  | .interpolation _ e _ :: r => e.uses.next (usesOfParts r)
  | _ :: r => usesOfParts r

/-- The names that attributes need and give. -/
def Attribute.usesOf : List Attribute → Uses
  | [] => .none
  | .mk _ _ .flag :: r => usesOf r
  | .mk _ _ (.nodes parts) :: r => (Node.usesOfParts parts).next (usesOf r)

namespace Pass

variable {α : Type} {fails : Machine σ → Machine τ → Prop} {agree : Known → Machine σ → Machine τ → Prop} {u : Uses}

/-- Two parts of passes that need and give some names. -/
abbrev Coupled (fails : Machine σ → Machine τ → Prop) (agree : Known → Machine σ → Machine τ → Prop) (u : Uses)
    (part : Pass σ α) (part' : Pass τ α) : Prop :=
  PromptScript.Coupled (fun s t => fails s.machine t.machine) (fun known => PassState.Beside (agree known)) u part part'

theorem lasting (bond : Lasting fails agree) :
    Lasting (fun (s : PassState σ) (t : PassState τ) => fails s.machine t.machine)
      fun known => PassState.Beside (agree known) where
  failed here := bond.failed here.machine
  fewer less here := here.imp fun _ _ => bond.fewer less

theorem Blind.coupled (bond : Lasting fails agree) {part : Pass σ α} {part' : Pass τ α} (h : Blind part part') :
    Coupled fails agree .none part part' :=
  (lasting bond).none fun _ => h fun _ _ => bond.failed

section Evaluate

variable {eval : Evaluator σ} {eval' : Evaluator τ} (bond : Lasting fails agree)
  (evals : ∀ e, PromptScript.Coupled fails agree e.uses (eval e) (eval' e))
include evals

theorem coupled_evaluate (e : Expr) : Coupled fails agree e.uses (evaluate eval e) (evaluate eval' e) := by
  intro known all s t here
  have both := evals e known all s.machine t.machine here.machine
  show Meet _ _ ((evaluate eval e).result s) ((evaluate eval' e).result t)
  rw [result_evaluate, result_evaluate]
  generalize (eval e).run.run s.machine = x at both
  generalize (eval' e).run.run t.machine = y at both
  cases both with
  | ok h => exact .ok ⟨h.1, { here with machine := h.2 }⟩
  | error h => exact .error h

include bond

theorem coupled_interpolate (options : Options) (around : Surroundings) (span : Span) (e : Expr) :
    Coupled fails agree e.uses (interpolate eval options around span e) (interpolate eval' options around span e) := by
  refine (lasting bond).le ((lasting bond).bind (coupled_evaluate evals e) (v := .none) fun v => ?_)
    (Uses.next_none_le _)
  refine Blind.coupled bond ?_
  split
  · exact blind_pure _
  · split
    · exact blind_pure _
    · exact blind_putValue _ _ _ _ _

theorem coupled_attributeParts (parts : List Node) :
    Coupled fails agree (Node.usesOfParts parts) (attributeParts eval parts) (attributeParts eval' parts) := by
  induction parts with
  | nil => exact (lasting bond).pure _
  | cons n r ih =>
    cases n with
    | text _ data _ => exact (lasting bond).map _ ih
    | interpolation _ e _ =>
      refine (lasting bond).bind (coupled_evaluate evals e) fun v => ?_
      split
      · exact ih
      · exact (lasting bond).map _ ih
    | comment _ _ _ | config _ _ _ | choice _ _ _ _ _ | loop _ _ _ _ _ _ _ | element _ _ _ _ _ | group _ _ _ =>
      exact ih

theorem coupled_attributeValues (attributes : List Attribute) (acc : Attributes) :
    Coupled fails agree (Attribute.usesOf attributes) (attributeValues eval attributes acc)
      (attributeValues eval' attributes acc) := by
  induction attributes generalizing acc with
  | nil => exact (lasting bond).pure _
  | cons a r ih =>
    obtain ⟨_, name, _ | parts⟩ := a
    · exact ih _
    · refine (lasting bond).bind (coupled_attributeParts bond evals parts) fun vs => ?_
      split
      · exact ih _
      · exact ih _
      · exact ih _

end Evaluate

end Pass
end PromptScript
