import PromptScript.Proofs.Accounts
import PromptScript.Proofs.Uninterrupted

/-! # Nothing is lost

The messages of a pass account for all that it has come by: they hold the items that were made, each once and in the
order in which they were made, and the items that are made of text hold the letters that were visited, each once and in
their order. Only text in the body of a tool call, which makes nothing of it, may be missing. -/
namespace PromptScript

variable {σ : Type} {α : Type}

namespace Pass

variable {fine fine' : Bool → Prop} {inCall : Bool}

/-! ## Rounds -/

theorem Records.declareItem (item : Binding) (index : Option Binding) (v : Value) (n : Nat) :
    Records fine fine (Pass.declareItem item index v n : Pass (σ × Record) Unit) (Pass.declareItem item index v n) := by
  refine (modifyScope _).bind fun _ => ?_
  cases index with
  | none => exact .pure _
  | some index => exact modifyScope _

section Rounds

variable {resume again : Pass (σ × Record) (List Node × Flow)} {resume' again' : Pass σ (List Node × Flow)}
  {item : Binding} {index : Option Binding}

theorem Records.rounds (h : Records fine fine again again') (items : List Value) (n : Nat) (body : List Node)
    (round : Option Nat) :
    Records fine fine (Pass.rounds item index again items n body round)
      (Pass.rounds item index again' items n body round) := by
  induction items generalizing n body round with
  | nil => exact .pure _
  | cons v r ih =>
    have here : Records fine fine (Pass.inView none (do Pass.declareItem item index v n; again))
        (Pass.inView none (do Pass.declareItem item index v n; again')) :=
      ((Records.declareItem item index v n).bind fun _ => h).inView
    exact here.goingOn (fun _ => id) fun (body, _) => ih (n + 1) body (some n)

theorem Records.roundsFrom (h : Records fine fine again again') (h' : Records fine fine resume resume') (p : Progress)
    (items : List Value) (body : List Node) :
    Records fine fine (Pass.roundsFrom p item index items body resume again)
      (Pass.roundsFrom p item index items body resume' again') := by
  unfold Pass.roundsFrom
  dsimp only
  generalize items.drop (p.round.getD 0) = left
  cases p.pointers with
  | none => exact h.rounds _ _ _ _
  | some table =>
    cases left with
    | nil => exact h.rounds _ _ _ _
    | cons _ r => exact h'.inView.goingOn (fun _ => id) fun (body, _) => h.rounds r (p.round.getD 0 + 1) body _

end Rounds

/-! ## Tags -/

section Tags

variable (eval : Evaluator σ) (options : Options) {body : Pass (σ × Record) (α × Flow)} {body' : Pass σ (α × Flow)}

theorem within_of_nothing (b : Bool) : Nothing b → Within inCall b := False.elim

/-- Where no piece is in the passage, a part may be of any tool call. -/
theorem Records.afresh (h : Records (Within inCall) fine body body') : Records Nothing fine body body' :=
  Abreast.imp h (fun _ _ same => same.mono within_of_nothing) (fun _ _ _ _ => id) fun _ _ => id

theorem records_content (around : Surroundings) (span : Span) (kind : Option ContentKind) (attributes : Attributes)
    {body : ContentKind → Pass (σ × Record) (α × Flow)}
    (h : ∀ kind,
      Records (Within (inCall || kind = .toolCall)) (Within (inCall || kind = .toolCall)) (body kind) body') :
    Records Nothing (Within inCall) ((Acts.recording eval).content options around span kind attributes body)
      (content options around span kind attributes body') := by
  refine (Records.of_still (blind_openContent _ _ _ _) (still_openContent _ _ _ _) (still_openContent _ _ _ _)).bind ?_
  rintro ⟨kind, attributes⟩
  refine (h kind).afresh.closing (fun b marked call => marked (by rw [call]; rfl)) ?_
  exact (records_closeContent eval options span kind attributes fun call b marked => marked (by simp [call])).mono
    within_of_nothing

theorem records_message (around : Surroundings) (span : Span) (role : Option Role) (attributes : Attributes)
    (h : Records (Within inCall) (Within inCall) body body') :
    Records fine (Within inCall) ((Acts.recording eval).message options around span role attributes body)
      (message options around span role attributes body') := by
  refine (records_openMessage eval options around span role attributes).bind ?_
  rintro ⟨role, attributes⟩
  exact h.afresh.closing (fun _ => id) ((records_closeMessage eval options span role attributes).mono within_of_nothing)

theorem records_takeResponse : Records fine fine (takeResponse : Pass (σ × Record) _) (takeResponse : Pass σ _) :=
  fun _ _ same =>
    .ok ⟨same.beside.response, { same.beside with response := rfl }, same.accounts.items, same.accounts.letters⟩

theorem records_leaveSettings (head : StepHead) :
    Records fine fine (leaveSettings head : Pass (σ × Record) Unit) (leaveSettings head : Pass σ Unit) :=
  .modify fun _ _ same => ⟨rfl, { same.beside with stepConfig := rfl }, same.accounts.items, same.accounts.letters⟩

theorem records_closeStep (span : Span) (head : StepHead) (response : List Content) :
    Records fine fine ((Acts.recording eval).closeStep span head response) (closeStep span head response) := by
  have named (name : String) : Records fine fine (do
      (Acts.recording eval).write name (← responseValue span (Fields.has "schema" head.config) response) :
        Pass (σ × Record) Unit) (do
      write name (← responseValue span (Fields.has "schema" head.config) response) : Pass σ Unit) :=
    (Records.of_still (blind_responseValue _ _ _) (still_responseValue _ _ _) (still_responseValue _ _ _)).bind fun v =>
      .modifyScope fun scope => scope.set name v
  obtain ⟨_ | name, _ | rawName, config⟩ := head
  · exact (Records.pure ()).bind fun _ => .pure ()
  · exact (Records.modifyScope fun scope => scope.set rawName _).bind fun _ => .pure ()
  · exact (Records.pure ()).bind fun _ => named name
  · exact (Records.modifyScope fun scope => scope.set rawName _).bind fun _ => named name

theorem records_step (around : Surroundings) (span : Span) (tags : List Attribute) (attributes : Attributes)
    (h : Records (Within inCall) (Within inCall) body body') :
    Records (Within inCall) (Within inCall) ((Acts.recording eval).step options around span tags attributes body)
      (step options around span tags attributes body') := by
  refine (Records.of_still (blind_openStep _ _ _ _) (still_openStep _ _ _ _) (still_openStep _ _ _ _)).bind
    fun head => ?_
  refine records_takeResponse.bind fun response => ?_
  cases response with
  | none => exact h.bind fun _ => (records_leaveSettings head).bind fun _ => .pure _
  | some response =>
    refine (records_closeStep eval span head response).bind fun _ => ?_
    exact ((records_flushContent eval options).mono within_of_nothing).bind fun _ => .pure _

theorem records_closedScope (p : Progress) (attributes : Attributes) (body : List Node) :
    Records fine fine ((Acts.recording eval).closedScope p attributes body) (closedScope p attributes body) := by
  unfold Acts.closedScope closedScope
  cases p.stash with
  | some stash => exact .pure _
  | none =>
    show Records fine fine ((Acts.recording eval).newScope attributes body) (newScope attributes body)
    unfold Acts.newScope newScope
    cases Node.closureFaults (Fields.names attributes) body with
    | nil => exact .pure _
    | cons fault _ => exact .throw fun _ _ same => same.beside.machine

end Tags

/-! ## The walk -/

section Walk

variable (eval : Evaluator σ) (options : Options)

theorem records_remembered (p : Progress) {find : Pass (σ × Record) Value} {find' : Pass σ Value}
    (h : Records fine fine find find') : Records fine fine (remembered p find) (remembered p find') := by
  unfold remembered
  cases p.memo with
  | some v => exact .pure v
  | none => exact h

theorem records_itemsOf (e : Expr) (v : Value) :
    Records fine fine (itemsOf e v : Pass (σ × Record) (List Value)) (itemsOf e v : Pass σ (List Value)) :=
  .of_still (blind_itemsOf _ _) (still_itemsOf _ _) (still_itemsOf _ _)

theorem records_meetHeader (span : Span) (data : String) :
    Records fine fine (meetHeader span data : Pass (σ × Record) Unit) (meetHeader span data : Pass σ Unit) := by
  unfold meetHeader
  cases Config.ofHeader data with
  | error cause => exact .fail _ _
  | ok config => exact .modify fun _ _ same =>
      ⟨rfl, { same.beside with globalConfig := rfl }, same.accounts.items, same.accounts.letters⟩

mutual

theorem records_walk (around : Surroundings) (inCall anew : Bool) : ∀ n : Node,
    Records (Within inCall) (Within inCall) ((Acts.recording eval).walk options around inCall anew n)
      (walk eval options around anew n)
  | .text span data p => (records_read eval (fun h => h) _).bind fun _ => .pure _
  | .comment _ _ _ => .pure _
  | .config span data p => (records_meetHeader span data).bind fun _ => .pure _
  | .interpolation span e p => (records_interpolate eval options around span e).bind fun _ => .pure _
  | .group _ body _ => by
    rw [Acts.walk, walk]
    exact (records_walkAll around inCall anew body).into
  | .choice _ test body none p => by
    rw [Acts.walk, walk]
    refine (records_remembered _ (records_evaluate eval test)).bind fun v => ?_
    by_cases holds : v.isTruthy = true
    · simp only [if_pos holds]
      exact (records_walkAll around inCall anew body).inView.into
    · simp only [if_neg holds]
      exact .pure _
  | .choice _ test body (some other) p => by
    rw [Acts.walk, walk]
    refine (records_remembered _ (records_evaluate eval test)).bind fun v => ?_
    by_cases holds : v.isTruthy = true
    · simp only [if_pos holds]
      exact (records_walkAll around inCall anew body).inView.into
    · simp only [if_neg holds]
      exact (records_walkAll around inCall anew other).inView.into
  | .loop _ items item index body none p => by
    rw [Acts.walk, walk]
    refine (records_remembered _ (records_evaluate eval items)).bind fun v => ?_
    refine (records_itemsOf items v).bind fun vs => ?_
    exact ((records_walkAll around inCall true body).roundsFrom (records_walkAll around inCall anew body) _ _ _).into
  | .loop _ items item index body (some other) p => by
    rw [Acts.walk, walk]
    refine (records_remembered _ (records_evaluate eval items)).bind fun v => ?_
    refine (records_itemsOf items v).bind fun vs => ?_
    cases vs with
    | nil => exact (records_walkAll around inCall anew other).inView.into
    | cons v vs =>
      exact ((records_walkAll around inCall true body).roundsFrom (records_walkAll around inCall anew body) _ _ _).into
  | .element span tag attributes body p => by
    rw [Acts.walk, walk]
    refine (records_flushPassage eval options).bind fun _ => ?_
    refine (records_rememberedAttributes eval _ _).bind fun values => ?_
    cases tag with
    | content kind =>
      exact (records_content eval options around span kind values fun kind => records_walkAll _ _ anew body).into
    | message role =>
      exact (records_message eval options around span role values (records_walkAll _ inCall anew body)).into
    | scope =>
      exact (records_closedScope eval _ _ _).bind fun _ => (records_walkAll around inCall anew body).inScope.into.afresh
    | step =>
      exact (records_step eval options around span attributes values (records_walkAll _ inCall anew body)).into.afresh
    | reference => exact .fail _ _

theorem records_walkAll (around : Surroundings) (inCall anew : Bool) : ∀ nodes : List Node,
    Records (Within inCall) (Within inCall) ((Acts.recording eval).walkAll options around inCall anew nodes)
      (walkAll eval options around anew nodes)
  | [] => .pure _
  | n :: r => by
    have rest := records_walkAll around inCall anew r
    rw [Acts.walkAll, walkAll]
    by_cases done : (!anew && n.isDone) = true
    · rw [if_pos done, if_pos done]
      exact rest.into
    · rw [if_neg done, if_neg done]
      exact (records_walk around inCall anew n).goingOn (fun _ => id) fun _ => rest.into

end

end Walk
end Pass

namespace Document

variable (eval : Evaluator σ) (options : Options)

open Pass

theorem records_visit (d : Document) : Records (Within false) Nothing (d.visitActing (Acts.recording eval) options)
    (d.visit eval options) :=
  (records_walkAll eval options {} false false d.body).inView.bind fun _ =>
    (records_flushContent eval options).bind fun _ => .pure _

/-- Before a pass there is nothing to account for. -/
theorem samePlace_opening (m : Machine σ) (response : Option (List Content)) :
    SamePlace (Within false) (.opening (m.recorded .empty) response) (.opening m response) where
  beside := ⟨rfl, rfl, rfl, rfl, rfl, rfl, rfl⟩
  accounts := ⟨⟨[], .nil, rfl⟩, [], [], [], rfl, rfl, fun _ member => absurd member List.not_mem_nil, Kept.all _, rfl⟩

/-- **No content is lost, doubled or moved.** A pass that keeps a record is a pass. When it ends without a fault, at the
end of the document or at a step, its messages account for the record, and nothing is left over. -/
theorem pass_conserves (d : Document) (response : Option (List Content)) (m : Machine σ) :
    ((d.passRecorded eval options response m).1.map Prod.fst, (d.passRecorded eval options response m).2) =
        d.pass eval options response m ∧
      ∀ outcome account m', d.passRecorded eval options response m = (.ok (outcome, account), m') →
        account.record.Accounted outcome.messages ∧ account.passage = [] ∧ account.pending = [] := by
  have both := records_visit eval options d _ _ (samePlace_opening m response)
  have blank : ∀ r t, (visit eval options d).run.run (.opening m response) = (.ok r, t) → t.Blank :=
    fun _ _ ran => (blank_of_visit eval options ran).1
  unfold passRecorded pass
  rw [show (visit eval options d).run.run ⟨m, #[], [], [], response, none, none⟩ =
    (visit eval options d).run.run (.opening m response) from rfl]
  generalize (d.visitActing (Acts.recording eval) options).run.run _ = x at both ⊢
  generalize (visit eval options d).run.run _ = y at both blank ⊢
  cases both with
  | error same => exact ⟨congrArg (Prod.mk _) same, by rintro _ _ _ ⟨⟩⟩
  | @ok r r' s t both =>
    obtain ⟨rfl, beside, accounts⟩ := both
    obtain ⟨passage, pending⟩ := blank _ _ rfl
    constructor
    · have scope : s.machine.scope = t.machine.scope := congrArg Machine.scope beside.machine
      simp only [Except.map, beside.messages, beside.globalConfig, beside.stepConfig, beside.machine, scope]
    · rintro _ _ _ ⟨⟩
      refine ⟨⟨?_, ?_⟩, beside.passage.trans passage, beside.pending.trans pending⟩
      · obtain ⟨groups, holds, items⟩ := accounts.items
        rw [pending, List.map_nil, List.append_nil] at items
        exact ⟨groups, by rw [beside.messages]; exact holds, items⟩
      · obtain ⟨before, opened, kept, visited, -, none_, all, letters⟩ := accounts.letters
        obtain rfl : opened = [] := List.eq_nil_iff_forall_not_mem.mpr none_
        rw [List.append_nil] at visited
        exact ⟨kept, by rw [visited]; exact all, letters⟩

/-- Whether a source is read, and a first pass over it that keeps a record meets a condition. -/
def recordsWith (source : String) (parameters : List (String × Value))
    (condition : Document → Outcome → Account → Bool) : Bool :=
  match Document.parse source.toList with
  | .error _ => false
  | .ok d =>
    match (d.passRecorded (Expr.eval Host.idle) {} none ⟨⟨0, ()⟩, Scope.ofList parameters⟩).1 with
    | .error _ => false
    | .ok (outcome, account) => condition d outcome account

theorem exists_of_recordsWith {source : String} {parameters : List (String × Value)}
    {condition : Document → Outcome → Account → Bool} (h : recordsWith source parameters condition = true) : ∃ d outcome account m,
      Document.parse source.toList = .ok d ∧ d.passRecorded (Expr.eval Host.idle) {} none
        ⟨⟨0, ()⟩, Scope.ofList parameters⟩ = (.ok (outcome, account), m) ∧ condition d outcome account = true := by
  unfold recordsWith at h
  split at h
  · cases h
  · next d read =>
    split at h
    · cases h
    · next outcome account passed => exact ⟨d, outcome, account, _, read, Prod.ext passed rfl, h⟩

/-- A pass that stops at a step in a message, after text, an image and a text that is not done. -/
theorem conserved_at_step : ∃ d outcome account m,
    Document.parse "<user>a {{ x }}<content-image> u </content-image>b <step>c</step>d</user>".toList = .ok d ∧
      d.passRecorded (Expr.eval Host.idle) {} none ⟨⟨0, ()⟩, Scope.ofList [("x", .string "7 8")]⟩ =
        (.ok (outcome, account), m) ∧
      outcome.completed = false ∧ Record.lettersOf account.record.visited = ['a', '7', '8', 'u', 'b', 'c'] ∧
      account.record.Accounted outcome.messages ∧ account.passage = [] ∧ account.pending = [] := by
  have made : recordsWith "<user>a {{ x }}<content-image> u </content-image>b <step>c</step>d</user>"
      [("x", .string "7 8")] (fun _ outcome account => !outcome.completed &&
        Record.lettersOf account.record.visited = ['a', '7', '8', 'u', 'b', 'c']) := by
    decide +kernel
  obtain ⟨d, outcome, account, m, read, passed, seen⟩ := exists_of_recordsWith made
  rw [Bool.and_eq_true, Bool.not_eq_true', decide_eq_true_eq] at seen
  exact ⟨d, outcome, account, m, read, passed, seen.1, seen.2, (d.pass_conserves _ _ _ _).2 _ _ _ passed⟩

/-- A document of a message of one tool call, in whose body there is nothing but a closed part with a text. -/
def wrapsInCall (text : String) (d : Document) : Bool :=
  match d.body with
  | [.element _ (.message _) _
      [.element _ (.content (some .toolCall)) _ [.element _ .scope _ [.text _ data _] _] _] _] => data = text
  | _ => false

/-- Text in a tag within the body of a tool call is visited, and no item has a letter of it. -/
theorem lost_in_call : ∃ d outcome account m,
    Document.parse "<assistant><tool-call id=\"1\" name=\"f\"><scope>lost</scope></tool-call></assistant>".toList =
        .ok d ∧ d.wrapsInCall "lost" = true ∧
      d.passRecorded (Expr.eval Host.idle) {} none ⟨⟨0, ()⟩, Scope.ofList []⟩ = (.ok (outcome, account), m) ∧
      account.record.visited.map (·.1.text) = ["lost"] ∧
      (outcome.messages.flatMap Message.content).map Content.isToolCall = [true] ∧
      Content.lettersOf (outcome.messages.flatMap Message.content) = [] := by
  have made : recordsWith "<assistant><tool-call id=\"1\" name=\"f\"><scope>lost</scope></tool-call></assistant>" []
      (fun d outcome account => d.wrapsInCall "lost" && account.record.visited.map (·.1.text) = ["lost"] &&
        (outcome.messages.flatMap Message.content).map Content.isToolCall = [true] &&
        Content.lettersOf (outcome.messages.flatMap Message.content) = []) := by
    decide +kernel
  obtain ⟨d, outcome, account, m, read, passed, seen⟩ := exists_of_recordsWith made
  simp only [Bool.and_eq_true, decide_eq_true_eq] at seen
  obtain ⟨⟨⟨wrapped, visited⟩, call⟩, silent⟩ := seen
  exact ⟨d, outcome, account, m, read, wrapped, passed, visited, call, silent⟩

end Document
end PromptScript
