import PromptScript.Chain.Storage
import PromptScript.Proofs.Exchanged
import PromptScript.Proofs.Turns

/-! # Chains that are stored and restored

A stored chain is read as it was, but for what JSON leaves of the values in it. Where that is all of them the restored
chain goes on like the one that was stored. -/
namespace PromptScript

theorem Scope.ofStored?_toStored (scope : Scope) :
    ofStored? scope.toStored = some ⟨scope.stash.restored, scope.pointers⟩ := by
  unfold ofStored? toStored
  simp [Json.record?, Json.need?, Fields.get?, Stash.ofStored?_toStored, Pointers.ofJson?_toJson]

theorem Options.ofJson?_toJson (o : Options) : ofJson? o.toJson = some o := by
  have role : Role.ofJson? (.str o.defaultRole.name) = some o.defaultRole := Role.ofName?_name o.defaultRole
  unfold ofJson? toJson
  simp [Json.record?, Json.given?, Fields.get?, role, Json.bool?]

namespace Chain

/-! ## Reading what was stored -/

/-- The values of the literals in the document of a chain. -/
def literals (chain : Chain) : List Value := chain.document.literals

/-- The values that a chain keeps from step to step: its variables and what is remembered in its document. -/
def values (chain : Chain) : List Value := chain.scope.stash.toList ++ chain.document.values

/-- The chain with what plain JSON leaves of the values in its history. -/
def settled (chain : Chain) : Chain := { chain with history := chain.history.map Message.settled }

/-- The chain with what JSON leaves of its document and variables. -/
def restored (chain : Chain) : Chain :=
  { chain with
    document := chain.document.restored, scope := ⟨chain.scope.stash.restored, chain.scope.pointers⟩ }

/-- A chain that comes back: its literals are plain, nothing in the values it keeps looks like the mark of undefined,
and the attributes of the messages in its history have names of their own. -/
structure Recoverable (chain : Chain) : Prop where
  literals : ∀ v ∈ chain.literals, v.isPlain = true
  values : ∀ v ∈ chain.values, v.isUnmarked = true
  history : ∀ m ∈ chain.history, m.Distinct

instance (chain : Chain) : Decidable chain.Recoverable :=
  decidable_of_iff ((∀ v ∈ chain.literals, v.isPlain = true) ∧ (∀ v ∈ chain.values, v.isUnmarked = true) ∧
    ∀ m ∈ chain.history, m.Distinct) ⟨fun h => ⟨h.1, h.2.1, h.2.2⟩, fun h => ⟨h.literals, h.values, h.history⟩⟩

/-- What is read is the restored chain, with the history that is read. -/
theorem read?_toJson (chain : Chain) : read? chain.toJson =
    ((chain.history.map Message.toJson).mapM Message.ofJson?).map fun history =>
      ({ chain.restored with history, format := .canonical }, chain.format.name) := by
  unfold read? toJson stored
  simp only [Json.record?, Option.bind_eq_bind, Option.bind_some]
  rw [Json.allow?_of_get? (w := Json.obj) (f := id) (o := chain.config)
    (by simp [Json.get?_present_cons, Json.get?_present_nil]) (fun _ => rfl) nofun]
  simp [Json.need?, Json.given?, Json.get?_present_cons, Json.str?, Json.bool?, Json.list?, Json.arr?,
    Document.ofJson?_toJson, Scope.ofStored?_toStored, Options.ofJson?_toJson]
  cases chain.history.mapM (Message.ofJson? ∘ Message.toJson) <;> rfl

/-- **Restoring gives back the chain**, but for what plain JSON leaves of its history, just if it is recoverable. -/
theorem ofJson_toJson_iff {chain : Chain} (lasting : ∀ v ∈ chain.values, v.isLasting = true) :
    ofJson chain.toJson = .ok chain.settled ↔ chain.Recoverable := by
  have history : (chain.history.map Message.toJson).mapM Message.ofJson? = some (chain.history.map Message.settled) ↔
      ∀ m ∈ chain.history, m.Distinct := by
    rw [mapM_map_eq_some_iff]
    exact forall₂_congr fun m _ => Message.ofJson?_toJson_iff m
  have values : (∀ v ∈ chain.values, v.isUnmarked = true) ↔
      (∀ v ∈ chain.scope.stash.toList, v.restored = v) ∧ ∀ v ∈ chain.document.values, v.restored = v := by
    rw [← List.forall_mem_append]
    exact forall₂_congr fun v there => (Value.restored_eq_iff (lasting v there)).symm
  have document := Document.restored_eq_iff chain.document
  have stash := Stash.restored_eq_iff chain.scope.stash
  have name : Format.ofName? chain.format.name = some chain.format := Format.ofName?_name chain.format
  unfold ofJson
  rw [read?_toJson]
  constructor
  · intro back
    cases read : (chain.history.map Message.toJson).mapM Message.ofJson? with
    | none =>
      rw [read] at back
      cases back
    | some messages =>
      rw [read] at back
      simp only [Option.map_some, name, Except.ok.injEq] at back
      have same : chain.document.restored = chain.document := congrArg Chain.document back
      have cells : chain.scope.stash.restored = chain.scope.stash := congrArg (fun c => c.scope.stash) back
      obtain rfl : messages = chain.history.map Message.settled := congrArg Chain.history back
      obtain ⟨literals, memos⟩ := document.mp same
      exact ⟨literals, values.mpr ⟨stash.mp cells, memos⟩, history.mp read⟩
  · rintro ⟨literals, unmarked, distinct⟩
    obtain ⟨cells, memos⟩ := values.mp unmarked
    rw [history.mpr distinct]
    simp only [Option.map_some, name]
    rw [restored, document.mpr ⟨literals, memos⟩, stash.mpr cells]
    rfl

/-! ## Calls -/

section Calls

variable {σ : Type} (eval : Evaluator σ)

/-- What calls of the step give, one after the other. After one that fails the next is made on the same chain. -/
def calls : List (Option Response) → Chain → World σ → List (Except ChainFault StepResult) × World σ
  | [], _, world => ([], world)
  | response :: responses, chain, world =>
    match chain.step eval response world with
    | (.error fault, world) => (.error fault :: (calls responses chain world).1, (calls responses chain world).2)
    | (.ok (next, result), world) => (.ok result :: (calls responses next world).1, (calls responses next world).2)

/-- The defect of the document that a call fails with. -/
def defectOf? : Except ChainFault StepResult → Option Defect
  | .error (.document diagnostic) => some diagnostic.defect
  | _ => none

theorem defectOf?_eq_some_iff {result : Except ChainFault StepResult} {defect : Defect} :
    defectOf? result = some defect ↔ ∃ diagnostic, result = .error (.document diagnostic) ∧ diagnostic.defect = defect := by
  constructor
  · intro found
    cases result with
    | ok => cases found
    | error fault =>
      cases fault with
      | document diagnostic => exact ⟨diagnostic, rfl, Option.some.inj found⟩
      | _ => cases found
  · rintro ⟨diagnostic, rfl, rfl⟩
    rfl

variable {eval}

/-- Where a step gives the same on related chains, and leaves related chains, calls of it do so too. -/
theorem calls_eq_of_step {related : Chain → Chain → Prop}
    (step : ∀ {chain other : Chain}, related chain other → ∀ (response : Option Response) (world : World σ),
      (∃ fault world', chain.step eval response world = (.error fault, world') ∧
        other.step eval response world = (.error fault, world')) ∨
        ∃ next next' result world', chain.step eval response world = (.ok (next, result), world') ∧
          other.step eval response world = (.ok (next', result), world') ∧ related next next')
    {chain other : Chain} (here : related chain other) (responses : List (Option Response)) (world : World σ) :
    calls eval responses other world = calls eval responses chain world := by
  induction responses generalizing chain other world with
  | nil => rfl
  | cons response responses ih =>
    rcases step here response world with
      ⟨fault, world', first, second⟩ | ⟨next, next', result, world', first, second, goesOn⟩
    · simp only [calls, first, second, ih here]
    · simp only [calls, first, second, ih goesOn]

/-- Chains that differ in nothing but in messages of their history, which have the same form. -/
def Alike (chain other : Chain) : Prop :=
  ∃ history, other = { chain with history } ∧
    history.map chain.format.encodeMessage = chain.history.map chain.format.encodeMessage

/-- A list of messages has a form just as its messages have. -/
theorem encode_congr {f : Format} {config : Config} {ms ms' : List Message}
    (h : ms'.map f.encodeMessage = ms.map f.encodeMessage) : f.encode ⟨config, ms'⟩ = f.encode ⟨config, ms⟩ := by
  have same := congrArg (List.mapM id) h
  rw [List.mapM_map, List.mapM_map] at same
  unfold Format.encode
  exact congrArg (fun forms => forms >>= fun messages => pure (Exchange.mk config messages)) same

variable {chain other : Chain}

theorem Alike.forms_told (alike : Alike chain other) (turn : Turn) :
    (other.told turn).map chain.format.encodeMessage = (chain.told turn).map chain.format.encodeMessage := by
  obtain ⟨history, rfl, forms⟩ := alike
  simp only [told, heard, List.map_append, forms]

theorem Alike.after (alike : Alike chain other) (turn : Turn) : Alike (chain.after turn) (other.after turn) := by
  have forms := alike.forms_told turn
  obtain ⟨history, rfl, -⟩ := alike
  exact ⟨_, rfl, forms⟩

theorem Alike.forms_sent (alike : Alike chain other) (turn : Turn) :
    (other.sent turn).map chain.format.encodeMessage = (chain.sent turn).map chain.format.encodeMessage := by
  unfold sent
  split
  · rfl
  · exact alike.forms_told turn

/-- What follows a pass is alike, too. -/
theorem Alike.advance (alike : Alike chain other) (answer : Option Answer) (outcome : Outcome) :
    (∃ fault, chain.advance answer outcome = .error fault ∧ other.advance answer outcome = .error fault) ∨
      ∃ next next' result, chain.advance answer outcome = .ok (next, result) ∧
        other.advance answer outcome = .ok (next', result) ∧ Alike next next' := by
  let turn : Turn :=
    ⟨answer, outcome, Fields.merge ((outcome.globalConfig.or chain.config).getD []) (outcome.stepConfig.getD []),
      default⟩
  have merged : turn.config = Fields.merge ((outcome.globalConfig.or other.config).getD []) (outcome.stepConfig.getD []) := by
    obtain ⟨history, rfl, -⟩ := alike
    rfl
  have first := @advance_eq chain turn rfl
  have second := @advance_eq other turn merged
  have encoded : other.format.encode ⟨turn.config, other.sent turn⟩ =
      chain.format.encode ⟨turn.config, chain.sent turn⟩ := by
    have same : other.format = chain.format := by
      obtain ⟨history, rfl, -⟩ := alike
      rfl
    rw [same]
    exact encode_congr (alike.forms_sent turn)
  rw [encoded] at second
  cases form : chain.format.encode ⟨turn.config, chain.sent turn⟩ with
  | error fault =>
    rw [form] at first second
    exact .inl ⟨_, first, second⟩
  | ok exchange =>
    rw [form] at first second
    exact .inr ⟨_, _, _, first, second, alike.after turn⟩

/-- **A step tells alike chains from each other in nothing.** -/
theorem Alike.step (alike : Alike chain other) (response : Option Response) (world : World σ) :
    (∃ fault world', chain.step eval response world = (.error fault, world') ∧
      other.step eval response world = (.error fault, world')) ∨
      ∃ next next' result world', chain.step eval response world = (.ok (next, result), world') ∧
        other.step eval response world = (.ok (next', result), world') ∧ Alike next next' := by
  have goesOn := alike.advance
  obtain ⟨history, rfl, -⟩ := alike
  unfold Chain.step
  have ready : ({ chain with history } : Chain).checkTurn response = chain.checkTurn response := rfl
  have read : ({ chain with history } : Chain).answer? response = chain.answer? response := rfl
  rw [ready, read]
  cases chain.checkTurn response >>= fun _ => chain.answer? response with
  | error fault => exact .inl ⟨fault, world, rfl, rfl⟩
  | ok answer =>
    dsimp only
    split
    · next fault m passed => exact .inl ⟨_, _, rfl, rfl⟩
    · next outcome m passed =>
      rcases goesOn answer outcome with ⟨fault, first, second⟩ | ⟨next, next', result, first, second, alike⟩
      · exact .inl ⟨fault, _, by rw [first], by rw [second]⟩
      · exact .inr ⟨next, next', result, _, by rw [first], by rw [second], alike⟩

/-- Neither do any number of calls. -/
theorem Alike.calls_eq (alike : Alike chain other) (responses : List (Option Response)) (world : World σ) :
    calls eval responses other world = calls eval responses chain world :=
  calls_eq_of_step (fun alike => alike.step) alike responses world

end Calls

/-! ## What a chain has heard -/

/-- Of a chain whose format is chat completions: it does not ask for the places of values, and all it has heard is
plain. -/
structure Heard (chain : Chain) : Prop where
  bare : chain.options.sourceMap = false
  history : ∀ m ∈ chain.history, ∀ c ∈ m.content, c.IsPlain

theorem heard_of_start {source : String} {parameters : List (String × Value)} {format : Format} {options : Options}
    {chain : Chain} (begins : start source parameters format options = .ok chain) (chat : chain.format = .chat) :
    chain.Heard := by
  unfold start at begins
  split at begins
  · cases begins
  · next document parsed =>
    obtain rfl := Except.ok.inj begins
    obtain rfl : format = .chat := chat
    exact ⟨Bool.and_false _, fun _ none => absurd none List.not_mem_nil⟩

/-- A response in chat completions is read as plain messages. -/
theorem isPlain_of_answerOf {chain : Chain} {response : Response} {answer : Answer} (chat : chain.format = .chat)
    (read : chain.answerOf response = .ok answer) : ∀ m ∈ answer.messages, ∀ c ∈ m.content, c.IsPlain := by
  have decodes : ∀ js ms, chain.decoded js = .ok ms → ∀ m ∈ ms, ∀ c ∈ m.content, c.IsPlain := by
    intro js ms decoded
    unfold Chain.decoded at decoded
    rw [chat] at decoded
    cases made : Chat.messagesOf [] js with
    | error fault =>
      rw [show Format.decodeMessages .chat js = _ from made] at decoded
      cases decoded
    | ok ms' =>
      rw [show Format.decodeMessages .chat js = _ from made] at decoded
      obtain rfl := Except.ok.inj decoded
      exact Chat.isPlain_messagesOf made
  cases response with
  | text s =>
    obtain rfl := Except.ok.inj read
    intro m there c here
    rw [List.mem_singleton.mp there] at here
    rw [List.mem_singleton.mp here]
    exact rfl
  | messages js =>
    cases decoded : chain.decoded js with
    | error fault => simp [answerOf, decoded, bind, Except.bind] at read
    | ok ms =>
      simp only [answerOf, decoded, bind, Except.bind, pure, Except.pure, Except.ok.injEq] at read
      subst read
      exact decodes js ms decoded
  | message j =>
    cases j with
    | obj fields =>
      cases decoded : chain.decoded [withRole fields] with
      | error fault => simp [answerOf, decoded, bind, Except.bind] at read
      | ok ms =>
        simp only [answerOf, decoded, bind, Except.bind, pure, Except.pure, Except.ok.injEq] at read
        subst read
        intro m there c here
        rw [List.mem_singleton.mp there] at here
        cases ms with
        | nil => exact absurd here List.not_mem_nil
        | cons m' r => exact decodes _ _ decoded m' List.mem_cons_self c here
    | _ => cases read

section Runs

variable {σ : Type} {eval : Evaluator σ}

theorem Taken.heard {chain : Chain} {response : Option Response} {world world' : World σ} {turn : Turn}
    (taken : Taken eval chain response world turn world') (chat : chain.format = .chat) (heard : chain.Heard) :
    (chain.after turn).Heard := by
  have answered : ∀ m ∈ turn.answered, ∀ c ∈ m.content, c.IsPlain := by
    have read := taken.read
    unfold Turn.answered
    cases response with
    | none =>
      rw [← Except.ok.inj read]
      exact fun _ none => absurd none List.not_mem_nil
    | some response =>
      cases made : chain.answerOf response with
      | error fault =>
        rw [answer?, made] at read
        cases read
      | ok answer =>
        rw [answer?, made] at read
        rw [← Except.ok.inj read]
        exact isPlain_of_answerOf chat made
  have emitted : ∀ m ∈ turn.emitted, ∀ c ∈ m.content, c.IsPlain := by
    obtain ⟨m, -, passed⟩ := taken.passed
    exact Document.good_of_pass (Content.made_isPlain heard.bare) passed
  refine ⟨heard.bare, ?_⟩
  intro m there
  rcases List.mem_append.mp there with before | said
  · rcases List.mem_append.mp before with before | heard'
    · exact heard.history m before
    · split at heard'
      · exact absurd heard' List.not_mem_nil
      · exact answered m heard'
  · split at said
    · exact absurd said List.not_mem_nil
    · exact emitted m said

theorem Run.heard {chain last : Chain} {world world' : World σ} {turns : List (Option Response × Turn)}
    (run : Run eval chain world turns last world') (chat : chain.format = .chat) (heard : chain.Heard) :
    last.Heard := by
  induction run with
  | none => exact heard
  | turn taken _ ih => exact ih chat (taken.heard chat heard)

/-- What is restored of a chain that was reached is alike to it. -/
theorem Run.alike_settled {first last : Chain} {world world' : World σ} {turns : List (Option Response × Turn)}
    {source : String} {parameters : List (String × Value)} {format : Format} {options : Options}
    (begins : start source parameters format options = .ok first)
    (run : Run eval first world turns last world') : Alike last last.settled := by
  have plain : last.format = .chat → last.Heard := by
    rw [run.format_eq]
    exact fun chat => run.heard chat (heard_of_start begins chat)
  refine ⟨last.history.map Message.settled, rfl, ?_⟩
  rw [List.map_map]
  exact List.map_congr_left fun m there => Format.encodeMessage_settled fun chat => (plain chat).history m there

/-- **A restored chain goes on as if it had never been stored**, just if it is recoverable. -/
theorem restored_exactly {source : String} {parameters : List (String × Value)} {format : Format} {options : Options}
    {first last : Chain} {world world' : World σ} {turns : List (Option Response × Turn)}
    (begins : start source parameters format options = .ok first)
    (run : Run eval first world turns last world') (lasting : ∀ v ∈ last.values, v.isLasting = true) :
    (ofJson last.toJson = .ok last.settled ↔ last.Recoverable) ∧
      ∀ (responses : List (Option Response)) (world : World σ),
        calls eval responses last.settled world = calls eval responses last world :=
  ⟨ofJson_toJson_iff lasting, (run.alike_settled begins).calls_eq⟩

end Runs

/-- The texts of all that the calls of a chain give: of each message it hands on, or of the reason why it fails. -/
def callTexts (chain : Chain) (responses : List (Option Response)) : List String :=
  (calls (Expr.eval Host.idle) responses chain ⟨0, ()⟩).1.flatMap fun
    | .ok result => result.messages.map Json.toText
    | .error fault => [fault.message]

/-- A chain with an answer among its variables, and a condition to remember, comes back and goes on. -/
theorem restored_with_answer : ∃ first last turns world,
    start "<step as=\"r\">ask</step>\x7b\x7b if r \x7d\x7d<step>\x7b\x7b r \x7d\x7d</step>\x7b\x7b r \x7d\x7d\x7b\x7b endif \x7d\x7d"
        [] .canonical {} = .ok first ∧
      Run (Expr.eval Host.idle) first ⟨0, ()⟩ turns last world ∧
      turns.map Prod.fst = [none, some (.text "so")] ∧ last.Recoverable ∧
      ofJson last.toJson = .ok last.settled ∧
      ∀ (responses : List (Option Response)) (world : World Unit),
        calls (Expr.eval Host.idle) responses last.settled world = calls (Expr.eval Host.idle) responses last world := by
  have made : reaches (Expr.eval Host.idle)
      "<step as=\"r\">ask</step>\x7b\x7b if r \x7d\x7d<step>\x7b\x7b r \x7d\x7d</step>\x7b\x7b r \x7d\x7d\x7b\x7b endif \x7d\x7d"
      [] .canonical {} [none, some (.text "so")] ⟨0, ()⟩
      (fun last _ => (∀ v ∈ last.values, v.isLasting = true) ∧ last.Recoverable) := by
    decide +kernel
  obtain ⟨first, last, turns, world, begins, run, answers, fine⟩ := exists_run_of_reaches made
  obtain ⟨lasting, recoverable⟩ := of_decide_eq_true fine
  have restored := restored_exactly begins run lasting
  exact ⟨first, last, turns, world, begins, run, answers, recoverable, restored.1.mpr recoverable, restored.2⟩

/-- A literal `undefined` is written as `null`: a chain whose document compares the two goes on with another answer
once it has been stored and restored, though it holds nothing that JSON lacks. -/
theorem restored_of_undefinedLiteral : ∃ first last turns world back,
    start "<step>ask</step>\x7b\x7b undefined === null \x7d\x7d" [] .canonical {} = .ok first ∧
      Run (Expr.eval Host.idle) first ⟨0, ()⟩ turns last world ∧ (∀ v ∈ last.values, v.isLasting = true) ∧
      ofJson last.toJson = .ok back ∧
      calls (Expr.eval Host.idle) [some (.text "r")] back ⟨0, ()⟩ ≠
        calls (Expr.eval Host.idle) [some (.text "r")] last ⟨0, ()⟩ := by
  have made : reaches (Expr.eval Host.idle) "<step>ask</step>\x7b\x7b undefined === null \x7d\x7d" [] .canonical {}
      [none] ⟨0, ()⟩ (fun last _ => (∀ v ∈ last.values, v.isLasting = true) ∧
        (ofJson last.toJson).toOption.any fun back =>
          back.callTexts [some (.text "r")] ≠ last.callTexts [some (.text "r")]) := by
    decide +kernel
  obtain ⟨first, last, turns, world, begins, run, -, fine⟩ := exists_run_of_reaches made
  obtain ⟨lasting, differs⟩ := of_decide_eq_true fine
  cases read : ofJson last.toJson with
  | error fault => rw [read] at differs; cases differs
  | ok back =>
    rw [read] at differs
    refine ⟨first, last, turns, world, back, begins, run, lasting, read, fun same => ?_⟩
    exact of_decide_eq_true differs (by unfold callTexts; rw [same])
end Chain
end PromptScript
