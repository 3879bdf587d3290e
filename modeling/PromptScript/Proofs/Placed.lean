import PromptScript.Proofs.Analyses
import PromptScript.Proofs.Marks
import PromptScript.Proofs.Raised
import PromptScript.Proofs.Unlisted

/-! # Tags in their places

A survey that finds no defect in a document without references has found all its tags in places where they may stand.
No pass over the document then finds one misplaced, whatever the parameters and the responses are. -/
namespace PromptScript

variable {σ α β : Type} {refers : Bool}

namespace Node

mutual

/-- Whether all tags in a node stand where they may, given the tags around it. Whether references may stand in it is given too. -/
def isPlaced (refers : Bool) (around : Surroundings) : Node → Bool
  | text _ _ _ | comment _ _ _ | config _ _ _ | interpolation _ _ _ => true
  | group _ body _ | choice _ _ body none _ | loop _ _ _ _ body none _ => allPlaced refers around body
  | choice _ _ body (some other) _ | loop _ _ _ _ body (some other) _ => allPlaced refers around body && allPlaced refers around other
  | element _ tag _ body _ =>
    match tag with
    | .content _ => !around.inContent && allPlaced refers { around with inContent := true } body
    | .message _ => !(around.inMessage || around.inContent) && allPlaced refers { around with inMessage := true } body
    | .step => !around.inStep && allPlaced refers { around with inStep := true } body
    | .scope => allPlaced refers around body
    | .reference => refers

def allPlaced (refers : Bool) (around : Surroundings) : List Node → Bool
  | [] => true
  | n :: r => isPlaced refers around n && allPlaced refers around r

end

mutual

/-- Marks do not matter. -/
theorem isPlaced_cleared (around : Surroundings) : ∀ n : Node,
    n.cleared.isPlaced refers around = n.isPlaced refers around
  | text _ _ _ | comment _ _ _ | config _ _ _ | interpolation _ _ _ => rfl
  | group _ body _ | choice _ _ body none _ | loop _ _ _ _ body none _ => allPlaced_clearedAll around body
  | choice _ _ body (some other) _ | loop _ _ _ _ body (some other) _ => by
    simp only [cleared, isPlaced, allPlaced_clearedAll around body, allPlaced_clearedAll around other]
  | element _ tag _ body _ => by
    cases tag <;> simp only [cleared, isPlaced, allPlaced_clearedAll _ body]

theorem allPlaced_clearedAll (around : Surroundings) : ∀ nodes : List Node,
    allPlaced refers around (clearedAll nodes) = allPlaced refers around nodes
  | [] => rfl
  | n :: r => by simp only [clearedAll, allPlaced, isPlaced_cleared around n, allPlaced_clearedAll around r]

end

end Node

/-! ## Passes -/

/-- A closed part as a pass comes to it: the attributes of its tag, its body, and the marks on it that count. -/
structure Entry where
  attributes : List Attribute
  body : List Node
  marks : Progress

/-- The scope that a pass enters a closed part with. -/
def Entry.scope (eval : Evaluator σ) (entry : Entry) : Pass σ Scope := do
  let values ← Pass.rememberedAttributes eval entry.marks entry.attributes
  Pass.closedScope { entry.marks with memo := some (.object values) } values entry.body

namespace Node

mutual

/-- The closed parts that a pass may come to in a node, also those in other closed parts. -/
def entries (anew : Bool) : Node → List Entry
  | text _ _ _ | comment _ _ _ | config _ _ _ | interpolation _ _ _ => []
  | group _ body _ | choice _ _ body none _ => entriesAll anew body
  | choice _ _ body (some other) _ => entriesAll anew body ++ entriesAll anew other
  | loop _ _ _ _ body none _ => entriesAll anew body ++ entriesAll true body
  | loop _ _ _ _ body (some other) _ => entriesAll anew body ++ entriesAll true body ++ entriesAll anew other
  | element _ tag attributes body p =>
    match tag with
    | .scope => ⟨attributes, body, if anew then {} else p.getD {}⟩ :: entriesAll anew body
    | .content _ | .message _ | .step => entriesAll anew body
    | .reference => []

def entriesAll (anew : Bool) : List Node → List Entry
  | [] => []
  | n :: r => (if !anew && n.isDone then [] else entries anew n) ++ entriesAll anew r

end

end Node

namespace Pass

variable {p : Fault → PassState σ → Prop}

/-! ### Parts that visit nodes -/

theorem raises_into {f : α → Flow → β} {part : Pass σ (α × Flow)} (h : Raises p part) : Raises p (into f part) :=
  .bind h fun _ => .pure _

theorem raises_goingOn {part : Pass σ (α × Flow)} {left : α → β} {rest : α → Pass σ (β × Flow)} (h : Raises p part)
    (hr : ∀ a, Raises p (rest a)) : Raises p (goingOn part left rest) := by
  refine .bind h fun (a, flow) => ?_
  cases flow with
  | stops => exact .pure _
  | goesOn => exact hr a

theorem raises_closing {part : Pass σ (α × Flow)} {close : Pass σ Unit} (h : Raises p part) (hc : Raises p close) :
    Raises p (closing part close) :=
  raises_goingOn h fun _ => .bind hc fun _ => .pure _

theorem raises_inView {table : Option Pointers} {part : Pass σ (α × Flow)} (h : Raises p part) :
    Raises p (inView table part) :=
  .bind .get fun _ => .bind (.modify _) fun _ => .bind h fun _ => .bind .get fun _ => .bind (.modify _) fun _ => .pure _

theorem raises_inScope {scope : Scope} {part : Pass σ (α × Flow)} (h : Raises p part) :
    Raises p (inScope scope part) :=
  .bind .get fun _ => .bind (.modify _) fun _ => .bind h fun _ => .bind .get fun _ => .bind (.modify _) fun _ => .pure _

theorem raises_declareItem (item : Binding) (index : Option Binding) (v : Value) (n : Nat) :
    Raises p (declareItem item index v n : Pass σ Unit) := by
  refine .bind (.modify _) fun _ => ?_
  cases index with
  | none => exact .pure _
  | some index => exact .modify _

theorem raises_rounds {item : Binding} {index : Option Binding} {again : Pass σ (List Node × Flow)} (h : Raises p again)
    (items : List Value) (n : Nat) (body : List Node) (round : Option Nat) :
    Raises p (rounds item index again items n body round) := by
  induction items generalizing n body round with
  | nil => exact .pure _
  | cons v r ih =>
    exact raises_goingOn (raises_inView (.bind (raises_declareItem item index v n) fun _ => h)) fun _ => ih _ _ _

theorem raises_roundsFrom {marks : Progress} {item : Binding} {index : Option Binding} {items : List Value}
    {body : List Node} {resume again : Pass σ (List Node × Flow)} (hr : Raises p resume) (h : Raises p again) :
    Raises p (roundsFrom marks item index items body resume again) := by
  unfold roundsFrom
  dsimp only
  split
  · exact raises_goingOn (raises_inView hr) fun _ => raises_rounds h _ _ _ _
  · exact raises_rounds h _ _ _ _

theorem raises_remembered {marks : Progress} {find : Pass σ Value} (h : Raises p find) :
    Raises p (remembered marks find) := by
  unfold remembered
  split
  · exact .pure _
  · exact h

/-- Entering a closed part fails with what the check of the part finds. -/
theorem raises_closedScope (marks : Progress) (attributes : Attributes) (body : List Node)
    (found : ∀ fault ∈ Node.closureFaults (Fields.names attributes) body, ∀ s, p fault s) :
    Raises p (closedScope marks attributes body : Pass σ Scope) := by
  unfold closedScope newScope
  split
  · exact .pure _
  · split
    · next fault _ faults =>
      refine .throw fun s => found fault ?_ s
      rw [faults]
      exact List.mem_cons_self
    · exact .pure _

section Walk

variable {eval : Evaluator σ} (evals : ∀ e, Raises p (evaluate eval e)) (options : Options)

theorem raises_step (common : Common refers p) {around : Surroundings} (placed : around.inStep = false) (span : Span)
    (tags : List Attribute) (values : Attributes) {body : Pass σ (α × Flow)} (h : Raises p body) :
    Raises p (step options around span tags values body) := by
  refine .bind (raises_openStep common placed span tags values) fun head =>
    .bind (.bind .get fun _ => .bind (.set _) fun _ => .pure _) fun response => ?_
  cases response with
  | none => exact .bind h fun _ => .bind (.modify _) fun _ => .pure _
  | some response =>
    exact .bind (raises_closeStep common.ordinary span head response) fun _ => .bind (raises_flushContent options common) fun _ => .pure _

include evals

theorem raises_rememberedAttributes (marks : Progress) (attributes : List Attribute) :
    Raises p (rememberedAttributes eval marks attributes) := by
  unfold rememberedAttributes
  split
  · exact .pure _
  · exact raises_attributeValues evals attributes []

omit evals

theorem mild_entry {eval : Evaluator σ} (evals : ∀ e, Mild refers (evaluate eval e)) (entry : Entry) :
    Mild refers (entry.scope eval) :=
  .bind (raises_rememberedAttributes evals _ _) fun _ =>
    raises_closedScope _ _ _ fun f found _ =>
      Node.found_of_closureFaults (p := fun f => f.defect.isMisplaced refers = false) (fun _ _ => rfl) _ _ f found

mutual

/-- **What a pass over well placed tags fails with.** Whatever is true of the common faults, of those of evaluations and
of those of entering closed parts is true of all faults of a visit. -/
theorem raises_walk (evals : ∀ e, Raises p (evaluate eval e)) (common : Common refers p) (around : Surroundings)
    (anew : Bool) : ∀ n : Node, n.isPlaced refers around = true →
      (∀ entry ∈ n.entries anew, Raises p (entry.scope eval)) → Raises p (walk eval options around anew n)
  | .text _ _ _, _, _ => .bind (raises_addSegment _) fun _ => .pure _
  | .comment _ _ _, _, _ => .pure _
  | .config span data _, _, _ => .bind (raises_meetHeader common.ordinary span data) fun _ => .pure _
  | .interpolation span e _, _, _ => .bind (raises_interpolate options evals common.ordinary around span e) fun _ => .pure _
  | .group _ body _, placed, enters => by
    unfold walk
    exact raises_into (raises_walkAll evals common around anew body placed enters)
  | .choice _ test body none _, placed, enters => by
    unfold walk
    refine .bind (raises_remembered (evals test)) fun _ => .ite ?_ (.pure _)
    exact raises_into (raises_inView (raises_walkAll evals common around anew body placed enters))
  | .choice _ test body (some other) _, placed, enters => by
    obtain ⟨first, second⟩ := Bool.and_eq_true_iff.mp placed
    obtain ⟨entersFirst, entersSecond⟩ := List.forall_mem_append.mp enters
    unfold walk
    refine .bind (raises_remembered (evals test)) fun _ => .ite ?_ ?_
    · exact raises_into (raises_inView (raises_walkAll evals common around anew body first entersFirst))
    · exact raises_into (raises_inView (raises_walkAll evals common around anew other second entersSecond))
  | .loop _ items item index body none _, placed, enters => by
    obtain ⟨entersFirst, entersAgain⟩ := List.forall_mem_append.mp enters
    unfold walk
    refine .bind (raises_remembered (evals items)) fun v => .bind (raises_itemsOf common.ordinary items v) fun vs => ?_
    exact raises_into (raises_roundsFrom (raises_walkAll evals common around anew body placed entersFirst)
      (raises_walkAll evals common around true body placed entersAgain))
  | .loop _ items item index body (some other) _, placed, enters => by
    obtain ⟨first, second⟩ := Bool.and_eq_true_iff.mp placed
    obtain ⟨enters, entersSecond⟩ := List.forall_mem_append.mp enters
    obtain ⟨entersFirst, entersAgain⟩ := List.forall_mem_append.mp enters
    unfold walk
    refine .bind (raises_remembered (evals items)) fun v => .bind (raises_itemsOf common.ordinary items v) fun vs => ?_
    cases vs with
    | nil => exact raises_into (raises_inView (raises_walkAll evals common around anew other second entersSecond))
    | cons v vs =>
      exact raises_into (raises_roundsFrom (raises_walkAll evals common around anew body first entersFirst)
        (raises_walkAll evals common around true body first entersAgain))
  | .element span tag attributes body q, placed, enters => by
    have named := raises_rememberedAttributes evals (if anew then {} else q.getD {}) attributes
    unfold walk
    refine .bind (raises_flushPassage options) fun _ => ?_
    cases tag with
    | content kind =>
      obtain ⟨out, inside⟩ := Bool.and_eq_true_iff.mp placed
      refine .bind named fun values => raises_into ?_
      exact .bind (raises_openContent common.ordinary ((Bool.not_eq_true' _).mp out) span kind values) fun _ =>
        raises_closing (raises_walkAll evals common _ anew body inside enters) (raises_closeContent options common.ordinary span _ _)
    | message role =>
      obtain ⟨out, inside⟩ := Bool.and_eq_true_iff.mp placed
      refine .bind named fun values => raises_into ?_
      exact .bind (raises_openMessage options common ((Bool.not_eq_true' _).mp out) span role values) fun _ =>
        raises_closing (raises_walkAll evals common _ anew body inside enters) (raises_closeMessage options common span _ _)
    | scope =>
      obtain ⟨here, enters⟩ := List.forall_mem_cons.mp enters
      exact here.bind_bind fun _ scope =>
        raises_into (raises_inScope (raises_walkAll evals common around anew body placed enters))
    | step =>
      obtain ⟨out, inside⟩ := Bool.and_eq_true_iff.mp placed
      refine .bind named fun values => raises_into ?_
      exact raises_step options common ((Bool.not_eq_true' _).mp out) span attributes values
        (raises_walkAll evals common _ anew body inside enters)
    | reference => exact .bind named fun _ => .throw fun _ => common _ _ (by exact congrArg (!!·) placed)

theorem raises_walkAll (evals : ∀ e, Raises p (evaluate eval e)) (common : Common refers p) (around : Surroundings)
    (anew : Bool) : ∀ nodes : List Node, Node.allPlaced refers around nodes = true →
      (∀ entry ∈ Node.entriesAll anew nodes, Raises p (entry.scope eval)) → Raises p (walkAll eval options around anew nodes)
  | [], _, _ => .pure _
  | n :: r, placed, enters => by
    obtain ⟨first, second⟩ := Bool.and_eq_true_iff.mp placed
    obtain ⟨entersFirst, entersSecond⟩ := List.forall_mem_append.mp enters
    have later := raises_walkAll evals common around anew r second entersSecond
    unfold walkAll
    split
    · exact raises_into later
    · next visited =>
      rw [if_neg visited] at entersFirst
      exact raises_goingOn (raises_walk evals common around anew n first entersFirst) fun _ => raises_into later

end

end Walk
end Pass

/-! ## Chains -/

theorem Document.raises_visit {p : Fault → PassState σ → Prop} {eval : Evaluator σ} {options : Options} {d : Document}
    (evals : ∀ e, Raises p (Pass.evaluate eval e)) (common : Pass.Common refers p)
    (placed : Node.allPlaced refers {} d.body = true)
    (enters : ∀ entry ∈ Node.entriesAll false d.body, Raises p (entry.scope eval)) : Raises p (d.visit eval options) :=
  .bind (Pass.raises_inView (Pass.raises_walkAll options evals common {} false d.body placed enters)) fun _ =>
    .bind (Pass.raises_flushContent options common) fun _ => .pure _

/-- A pass that fails has its fault from the visit. -/
theorem Document.visit_of_pass {eval : Evaluator σ} {options : Options} {d : Document} {response : Option (List Content)}
    {m m' : Machine σ} {fault : Fault} (failed : d.pass eval options response m = (.error fault, m')) :
    ∃ s, (d.visit eval options).run.run ⟨m, #[], [], [], response, none, none⟩ = (.error fault, s) ∧ s.machine = m' := by
  unfold Document.pass at failed
  generalize (d.visit eval options).run.run ⟨m, #[], [], [], response, none, none⟩ = x at failed ⊢
  obtain ⟨result, s⟩ := x
  cases result with
  | error other =>
    cases failed
    exact ⟨s, rfl, rfl⟩
  | ok => cases failed

theorem Document.raised_of_pass {p : Fault → PassState σ → Prop} {eval : Evaluator σ} {options : Options} {d : Document}
    (visits : Raises p (d.visit eval options)) {response : Option (List Content)} {m m' : Machine σ} {fault : Fault}
    (failed : d.pass eval options response m = (.error fault, m')) : ∃ s : PassState σ, s.machine = m' ∧ p fault s := by
  obtain ⟨s, visited, left⟩ := visit_of_pass failed
  exact ⟨s, left, visits _ _ _ visited⟩

/-- Where all tags stand where they may no pass finds one misplaced. -/
theorem Document.mild_pass {eval : Evaluator σ} (evals : ∀ e, Mild refers (eval e)) {options : Options} {d : Document}
    (placed : Node.allPlaced refers {} d.body = true) {response : Option (List Content)} {m m' : Machine σ} {fault : Fault}
    (failed : d.pass eval options response m = (.error fault, m')) : fault.defect.isMisplaced refers = false := by
  have evals := fun e => Pass.raises_evaluate evals e
  obtain ⟨-, -, mild⟩ := raised_of_pass (raises_visit evals Pass.common_mild placed fun entry _ => Pass.mild_entry evals entry) failed
  exact mild

namespace Chain

variable {eval : Evaluator σ} {chain : Chain}

theorem decoded_ne_document {js : List Json} {diagnostic : Diagnostic} :
    chain.decoded js ≠ .error (.document diagnostic) := by
  unfold decoded
  cases chain.format.decodeMessages js <;> exact nofun

theorem answerOf_ne_document {response : Response} {diagnostic : Diagnostic} :
    chain.answerOf response ≠ .error (.document diagnostic) := by
  have read (js : List Json) (f : List Message → Answer) :
      (chain.decoded js >>= fun ms => .ok (f ms)) ≠ .error (.document diagnostic) := by
    cases found : chain.decoded js with
    | ok => exact nofun
    | error fault =>
      rintro ⟨⟩
      exact decoded_ne_document found
  cases response with
  | text => exact nofun
  | messages js => exact read js _
  | message j =>
    cases j with
    | obj fields => exact read [withRole fields] _
    | _ => exact nofun

/-- What is wrong with a response is not wrong with the document. -/
theorem answer?_ne_document {response : Option Response} {diagnostic : Diagnostic} :
    chain.answer? response ≠ .error (.document diagnostic) := by
  cases response with
  | none => exact nofun
  | some response =>
    show (chain.answerOf response).map some ≠ _
    cases found : chain.answerOf response with
    | ok => exact nofun
    | error fault =>
      rintro ⟨⟩
      exact answerOf_ne_document found

/-- Messages that have no form in the format are not what is wrong with a document either. -/
theorem advance_ne_document {answer : Option Answer} {outcome : Outcome} {diagnostic : Diagnostic} :
    chain.advance answer outcome ≠ .error (.document diagnostic) := by
  unfold advance
  dsimp only
  generalize chain.format.encode _ = encoded
  cases encoded <;> exact nofun

/-- A step that fails with a diagnostic of the document has it from the pass. -/
theorem pass_of_step {response : Option Response} {world world' : World σ} {diagnostic : Diagnostic}
    (failed : chain.step eval response world = (.error (.document diagnostic), world')) :
    ∃ content fault machine, chain.document.pass eval chain.options content ⟨world, chain.scope⟩ = (.error fault, machine) ∧
      machine.toWorld = world' ∧ diagnostic.defect = fault.defect := by
  unfold step at failed
  cases ready : chain.checkTurn response with
  | error fault =>
    rw [ready] at failed
    cases failed
    unfold checkTurn at ready
    split at ready
    · cases ready
    · split at ready <;> cases ready
  | ok =>
    cases read : chain.answer? response with
    | error fault =>
      rw [ready, read] at failed
      cases failed
      exact absurd read answer?_ne_document
    | ok answer =>
      rw [ready, read] at failed
      dsimp only [bind, Except.bind] at failed
      split at failed
      · next fault machine passed =>
        cases failed
        exact ⟨_, fault, machine, passed, rfl, rfl⟩
      · exact absurd (Prod.mk.inj failed).1 advance_ne_document

/-- Where passes leave a document as it should be, and fail as they should over such a document, calls fail so. -/
theorem calls_fail {q : Document → Prop} {p : Defect → Prop}
    (after : ∀ {d options response m outcome m'}, q d → d.pass eval options response m = (.ok outcome, m') →
      q outcome.document)
    (fails : ∀ {d options response m fault m'}, q d → d.pass eval options response m = (.error fault, m') →
      p fault.defect)
    (fine : q chain.document) (responses : List (Option Response)) (world : World σ) {diagnostic : Diagnostic}
    (failed : .error (.document diagnostic) ∈ (calls eval responses chain world).1) : p diagnostic.defect := by
  induction responses generalizing chain world with
  | nil => cases failed
  | cons response responses ih =>
    unfold calls at failed
    split at failed
    · next fault world' stepped =>
      rcases List.mem_cons.mp failed with first | later
      · cases first
        obtain ⟨_, fault, _, passed, -, same⟩ := pass_of_step stepped
        exact same ▸ fails fine passed
      · exact ih fine world' later
    · next next' result world' stepped =>
      rcases List.mem_cons.mp failed with first | later
      · cases first
      · obtain ⟨turn, -, rfl, taken⟩ := step_eq_ok_iff.mp stepped
        obtain ⟨_, -, passed⟩ := taken.passed
        exact ih (after fine passed) world' later

/-- Where all tags stand where they may no call finds one misplaced. -/
theorem calls_mild (evals : ∀ e, Mild refers (eval e)) (placed : Node.allPlaced refers {} chain.document.body = true)
    (responses : List (Option Response)) (world : World σ) {diagnostic : Diagnostic}
    (failed : .error (.document diagnostic) ∈ (calls eval responses chain world).1) :
    diagnostic.defect.isMisplaced refers = false := by
  let all (d : Document) : Prop := Node.allPlaced refers {} d.body = true
  refine calls_fail (q := all) (p := fun defect => defect.isMisplaced refers = false) (fun placed passed => ?_)
    (fun placed failed => Document.mild_pass evals placed failed) placed responses world failed
  show Node.allPlaced refers {} _ = true
  rw [← Node.allPlaced_clearedAll, Document.marks_pass passed, Node.allPlaced_clearedAll]
  exact placed

end Chain
end PromptScript
