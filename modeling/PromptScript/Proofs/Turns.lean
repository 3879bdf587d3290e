import PromptScript.Chain.Basic

/-! # Turns of a chain

A turn is a step that was made: the response as it was read, the outcome of the pass, the settings, and what the
step gave. `Taken` says all that such a step does, and `step_eq_ok_iff` that it says no more; proofs about chains
use it and never open the step itself. A `Run` is any number of turns, one after the other. -/
namespace PromptScript

/-- What a step was given, and what it made of it. -/
structure Turn where
  /-- The response as it was read; the first step has none. -/
  answer : Option Chain.Answer
  /-- What the pass over the document gave. -/
  outcome : Outcome
  /-- The header with the settings of the step. -/
  config : Config
  result : StepResult

namespace Turn

/-- The messages of the pass. -/
def emitted (turn : Turn) : List Message := turn.outcome.messages

/-- The messages of the response. -/
def answered (turn : Turn) : List Message := (turn.answer.map Chain.Answer.messages).getD []

/-- Whether the settings isolate the step. -/
def isolated (turn : Turn) : Bool := Chain.isIsolated turn.config

/-- The turn ends the chain: the pass came to the end of the document and had nothing more to say. -/
def last (turn : Turn) : Bool := turn.outcome.completed && turn.emitted.isEmpty

end Turn

namespace Chain

variable {σ : Type} {eval : Evaluator σ}

/-- The history as a turn finds it: what went before, and the response unless it answers an isolated step. -/
def heard (chain : Chain) (turn : Turn) : List Message :=
  chain.history ++ if chain.isolated then [] else turn.answered

/-- The history that a turn leaves. -/
def told (chain : Chain) (turn : Turn) : List Message :=
  chain.heard turn ++ if turn.isolated then [] else turn.emitted

/-- The messages that a turn hands to the format. -/
def sent (chain : Chain) (turn : Turn) : List Message :=
  if turn.isolated then turn.emitted else chain.told turn

/-- The chain that a turn leaves. -/
def after (chain : Chain) (turn : Turn) : Chain :=
  { chain with
    document := turn.outcome.document, scope := ⟨turn.outcome.stash, chain.scope.pointers⟩, started := true
    completed := turn.last, config := turn.outcome.globalConfig.or chain.config, history := chain.told turn
    isolated := turn.isolated }

/-- What a pass gives to the step it is made for. -/
structure Advanced (chain : Chain) (turn : Turn) : Prop where
  merged : turn.config =
    Fields.merge ((turn.outcome.globalConfig.or chain.config).getD []) (turn.outcome.stepConfig.getD [])
  encoded : chain.format.encode ⟨turn.config, chain.sent turn⟩ = .ok ⟨turn.config, turn.result.messages⟩
  given : turn.result = ⟨turn.result.messages, turn.config, turn.last⟩

/-- A turn that a chain takes on a response in a world, which it leaves as another. -/
structure Taken (eval : Evaluator σ) (chain : Chain) (response : Option Response) (world : World σ) (turn : Turn)
    (world' : World σ) : Prop extends Advanced chain turn where
  ready : chain.checkTurn response = .ok ()
  read : chain.answer? response = .ok turn.answer
  passed : ∃ machine : Machine σ, machine.toWorld = world' ∧
    chain.document.pass eval chain.options (turn.answer.map Answer.content) ⟨world, chain.scope⟩ =
      (.ok turn.outcome, machine)

/-- A format leaves the settings as they are. -/
theorem config_of_encode {format : Format} {c : Conversation} {e : Exchange} (h : format.encode c = .ok e) :
    e.config = c.config := by
  unfold Format.encode at h
  cases hm : c.messages.mapM format.encodeMessage with
  | error fault => rw [hm] at h; cases h
  | ok messages => rw [hm] at h; cases h; rfl

/-- What follows a pass, told by the turn it belongs to. -/
theorem advance_eq (chain : Chain) {turn : Turn}
    (merged : turn.config =
      Fields.merge ((turn.outcome.globalConfig.or chain.config).getD []) (turn.outcome.stepConfig.getD [])) :
    chain.advance turn.answer turn.outcome =
      (chain.format.encode ⟨turn.config, chain.sent turn⟩).mapError ChainFault.provider >>= fun exchange =>
        .ok (chain.after turn, ⟨exchange.messages, exchange.config, turn.last⟩) := by
  have sent : chain.sent turn = if turn.isolated then turn.emitted else chain.heard turn ++ turn.emitted := by
    unfold Chain.sent told
    by_cases h : turn.isolated <;> simp [h]
  have told : chain.told turn = if turn.isolated then chain.heard turn else chain.heard turn ++ turn.emitted := by
    unfold Chain.told
    by_cases h : turn.isolated <;> simp [h]
  unfold after
  rw [sent, told]
  dsimp only [advance]
  rw [← merged]
  rfl

/-- What follows a pass succeeds just if the messages have a form in the format. -/
theorem advance_eq_ok_iff {chain next : Chain} {answer : Option Answer} {outcome : Outcome} {result : StepResult} :
    chain.advance answer outcome = .ok (next, result) ↔
      ∃ turn : Turn, turn.answer = answer ∧ turn.outcome = outcome ∧ turn.result = result ∧
        next = chain.after turn ∧ Advanced chain turn := by
  constructor
  · intro h
    let turn : Turn :=
      ⟨answer, outcome, Fields.merge ((outcome.globalConfig.or chain.config).getD []) (outcome.stepConfig.getD []),
        result⟩
    rw [show answer = turn.answer from rfl, show outcome = turn.outcome from rfl, advance_eq chain rfl] at h
    cases he : chain.format.encode ⟨turn.config, chain.sent turn⟩ with
    | error fault => rw [he] at h; cases h
    | ok exchange =>
      obtain ⟨settings, messages⟩ := exchange
      obtain rfl : settings = turn.config := config_of_encode he
      rw [he] at h
      obtain ⟨gone, given⟩ := Prod.mk.inj (Except.ok.inj h)
      have given : turn.result = ⟨messages, turn.config, turn.last⟩ := given.symm
      refine ⟨turn, rfl, rfl, rfl, gone.symm, rfl, ?_, ?_⟩
      · rw [he, given]
      · rw [given]
  · rintro ⟨turn, rfl, rfl, rfl, rfl, advanced⟩
    rw [advance_eq chain advanced.merged, advanced.encoded]
    exact congrArg (fun r => Except.ok (chain.after turn, r)) advanced.given.symm

/-- **The inversion of a step.** It succeeds just if there is a turn to take, and leaves the chain as the turn
says. -/
theorem step_eq_ok_iff {chain next : Chain} {response : Option Response} {world world' : World σ}
    {result : StepResult} :
    chain.step eval response world = (.ok (next, result), world') ↔
      ∃ turn : Turn, turn.result = result ∧ next = chain.after turn ∧ Taken eval chain response world turn world' := by
  unfold Chain.step
  constructor
  · intro h
    cases ready : chain.checkTurn response with
    | error fault => rw [ready] at h; cases h
    | ok u =>
      cases read : chain.answer? response with
      | error fault => rw [ready, read] at h; cases h
      | ok answer =>
        rw [ready, read] at h
        dsimp only [bind, Except.bind] at h
        split at h
        · cases h
        · next outcome machine passed =>
          obtain ⟨goes, rfl⟩ := Prod.mk.inj h
          obtain ⟨turn, rfl, rfl, rfl, rfl, advanced⟩ := advance_eq_ok_iff.mp goes
          exact ⟨turn, rfl, rfl, advanced, ready, read, machine, rfl, passed⟩
  · rintro ⟨turn, rfl, rfl, advanced, ready, read, machine, rfl, passed⟩
    rw [ready, read]
    dsimp only [bind, Except.bind]
    rw [passed]
    dsimp only
    rw [advance_eq_ok_iff.mpr ⟨turn, rfl, rfl, rfl, rfl, advanced⟩]

/-! ## Runs -/

/-- Turns that a chain takes one after the other, each with the response it was given. -/
inductive Run (eval : Evaluator σ) : Chain → World σ → List (Option Response × Turn) → Chain → World σ → Prop
  | none (chain : Chain) (world : World σ) : Run eval chain world [] chain world
  | turn {chain last : Chain} {world world' world'' : World σ} {response : Option Response} {turn : Turn}
      {turns : List (Option Response × Turn)} (taken : Taken eval chain response world turn world')
      (rest : Run eval (chain.after turn) world' turns last world'') :
      Run eval chain world ((response, turn) :: turns) last world''

/-- Makes a step on each response in turn, as long as they succeed. -/
def steps (eval : Evaluator σ) :
    List (Option Response) → Chain → World σ → Except ChainFault (Chain × List StepResult) × World σ
  | [], chain, world => (.ok (chain, []), world)
  | response :: responses, chain, world =>
    match chain.step eval response world with
    | (.error fault, world) => (.error fault, world)
    | (.ok (chain, result), world) =>
      match steps eval responses chain world with
      | (.error fault, world) => (.error fault, world)
      | (.ok (last, results), world) => (.ok (last, result :: results), world)

/-- Runs are the successful sequences of steps. -/
theorem steps_eq_ok_iff {responses : List (Option Response)} {chain last : Chain} {world world' : World σ}
    {results : List StepResult} :
    steps eval responses chain world = (.ok (last, results), world') ↔
      ∃ turns, Run eval chain world turns last world' ∧ turns.map Prod.fst = responses ∧
        turns.map (·.2.result) = results := by
  constructor
  · intro h
    induction responses generalizing chain world results with
    | nil =>
      obtain ⟨same, rfl⟩ := Prod.mk.inj h
      obtain ⟨rfl, rfl⟩ := Prod.mk.inj (Except.ok.inj same)
      exact ⟨[], .none .., rfl, rfl⟩
    | cons response responses ih =>
      unfold steps at h
      split at h
      · cases h
      · next next result w made =>
        obtain ⟨turn, rfl, rfl, taken⟩ := step_eq_ok_iff.mp made
        split at h
        · cases h
        · next last' results' w' rest =>
          obtain ⟨same, rfl⟩ := Prod.mk.inj h
          obtain ⟨rfl, rfl⟩ := Prod.mk.inj (Except.ok.inj same)
          obtain ⟨turns, run, rfl, rfl⟩ := ih rest
          exact ⟨(response, turn) :: turns, .turn taken run, rfl, rfl⟩
  · rintro ⟨turns, run, rfl, rfl⟩
    induction run with
    | none => rfl
    | turn taken _ ih =>
      simp only [List.map_cons, steps]
      rw [step_eq_ok_iff.mpr ⟨_, rfl, rfl, taken⟩]
      dsimp only
      rw [ih]

/-- A run is cut at any of its turns. -/
theorem Run.cut {chain last : Chain} {world world' : World σ} {before later : List (Option Response × Turn)}
    {response : Option Response} {turn : Turn}
    (run : Run eval chain world (before ++ (response, turn) :: later) last world') :
    ∃ middle w w', Run eval chain world before middle w ∧ Taken eval middle response w turn w' ∧
      Run eval (middle.after turn) w' later last world' := by
  induction before generalizing chain world with
  | nil =>
    cases run with
    | turn taken rest => exact ⟨chain, world, _, .none .., taken, rest⟩
  | cons t before ih =>
    cases run with
    | turn taken rest =>
      obtain ⟨middle, w, w', front, here, back⟩ := ih rest
      exact ⟨middle, w, w', .turn taken front, here, back⟩

/-- A run goes on with one more turn. -/
theorem Run.concat {chain last : Chain} {world world' world'' : World σ} {turns : List (Option Response × Turn)}
    {response : Option Response} {turn : Turn} (run : Run eval chain world turns last world')
    (taken : Taken eval last response world' turn world'') :
    Run eval chain world (turns ++ [(response, turn)]) (last.after turn) world'' := by
  induction run with
  | none => exact .turn taken (.none ..)
  | turn before _ ih => exact .turn before (ih taken)

/-- No turn changes the format. -/
theorem Run.format_eq {chain last : Chain} {world world' : World σ} {turns : List (Option Response × Turn)}
    (run : Run eval chain world turns last world') : last.format = chain.format := by
  induction run with
  | none => rfl
  | turn _ _ ih => exact ih

/-- A chain at its start has heard nothing, and takes its first turn without a response. -/
theorem start_eq_ok {source : String} {parameters : List (String × Value)} {format : Format} {options : Options}
    {chain : Chain} (h : start source parameters format options = .ok chain) :
    chain.history = [] ∧ chain.started = false ∧ chain.completed = false ∧ chain.isolated = false ∧
      chain.config = none ∧ chain.format = format ∧ Document.parse source.toList = .ok chain.document ∧
      chain.scope = Scope.ofList parameters := by
  unfold start at h
  split at h
  · cases h
  · next document parsed =>
    cases h
    exact ⟨rfl, rfl, rfl, rfl, rfl, rfl, parsed, rfl⟩

/-- The first turn is taken without a response. -/
theorem Taken.answer_eq_none {chain : Chain} {world world' : World σ} {response : Option Response} {turn : Turn}
    (taken : Taken eval chain response world turn world') (fresh : chain.started = false) :
    response = none ∧ turn.answer = none := by
  have ready := taken.ready
  have read := taken.read
  unfold checkTurn at ready
  cases response with
  | none => exact ⟨rfl, (Except.ok.inj read).symm⟩
  | some r => by_cases h : chain.completed <;> simp [h, fresh] at ready

/-- Whether a chain starts, takes all the given responses, and then meets a condition. -/
def reaches (eval : Evaluator σ) (source : String) (parameters : List (String × Value)) (format : Format)
    (options : Options) (responses : List (Option Response)) (world : World σ)
    (condition : Chain → List StepResult → Bool) : Bool :=
  match start source parameters format options with
  | .error _ => false
  | .ok first =>
    match steps eval responses first world with
    | (.error _, _) => false
    | (.ok (last, results), _) => condition last results

/-- What a chain reaches it reaches by a run. -/
theorem exists_run_of_reaches {source : String} {parameters : List (String × Value)} {format : Format}
    {options : Options} {responses : List (Option Response)} {world : World σ}
    {condition : Chain → List StepResult → Bool}
    (h : reaches eval source parameters format options responses world condition = true) :
    ∃ first last turns world', start source parameters format options = .ok first ∧
      Run eval first world turns last world' ∧ turns.map Prod.fst = responses ∧
      condition last (turns.map (·.2.result)) = true := by
  unfold reaches at h
  split at h
  · cases h
  · next first begins =>
    split at h
    · cases h
    · next last results world' made =>
      obtain ⟨turns, run, answers, rfl⟩ := steps_eq_ok_iff.mp made
      exact ⟨first, last, turns, world', begins, run, answers, h⟩

end Chain

/-- A caller without functions, whose clock stands still. -/
def Host.idle : Host Unit := ⟨fun _ _ s => (.error "no function", s), fun _ => 0⟩

end PromptScript

/-! ## The history of a chain

What turns add to the history: each its own messages, unless it is isolated, and its response, unless that answers
an isolated turn. Nothing is taken away again, and nothing of an isolated turn is heard by a later one. -/
namespace PromptScript

/-- What a turn adds to the history; `apart` tells that its response is not part of the conversation. -/
def Turn.added (apart : Bool) (turn : Turn) : List Message :=
  (if apart then [] else turn.answered) ++ if turn.isolated then [] else turn.emitted

/-- What turns add to the history, one after the other. `apart` concerns the first of them; the response to any
other is apart if the turn before it is isolated. -/
def Turn.addedFrom (apart : Bool) (turns : List Turn) : List Message :=
  (turns.zip (apart :: turns.map Turn.isolated)).flatMap fun (turn, apart) => turn.added apart

/-- The history of turns from the start of a chain, the first of which answers nothing. -/
def Turn.conversation (turns : List Turn) : List Message := Turn.addedFrom true turns

namespace Chain

variable {σ : Type} {eval : Evaluator σ}

theorem told_eq (chain : Chain) (turn : Turn) : chain.told turn = chain.history ++ turn.added chain.isolated := by
  simp only [told, heard, Turn.added, List.append_assoc]

/-- A turn leaves the history it found as it was, and adds to it at the end. -/
theorem history_prefix (chain : Chain) (turn : Turn) : chain.history <+: (chain.after turn).history := by
  show chain.history <+: chain.told turn
  rw [told_eq]
  exact List.prefix_append ..

/-- The history after a run: what the chain had heard before, and what the turns add. -/
theorem Run.history_eq {chain last : Chain} {world world' : World σ} {turns : List (Option Response × Turn)}
    (run : Run eval chain world turns last world') :
    last.history = chain.history ++ Turn.addedFrom chain.isolated (turns.map Prod.snd) := by
  induction run with
  | none => simp [Turn.addedFrom]
  | @turn chain _ _ _ _ _ turn _ _ _ ih =>
    rw [ih, show (chain.after turn).history = chain.told turn from rfl, told_eq]
    simp [Turn.addedFrom, after]

/-- From the start it is the conversation of the turns. -/
theorem Run.history_eq_conversation {chain last : Chain} {world world' : World σ}
    {turns : List (Option Response × Turn)} (run : Run eval chain world turns last world')
    (fresh : chain.started = false) (silent : chain.history = []) :
    last.history = Turn.conversation (turns.map Prod.snd) := by
  rw [run.history_eq, silent, List.nil_append]
  cases run with
  | none => rfl
  | @turn _ _ _ _ _ _ turn _ taken _ =>
    have mute : turn.answered = [] := by simp [Turn.answered, (taken.answer_eq_none fresh).2]
    simp [Turn.conversation, Turn.addedFrom, Turn.added, mute]

/-- **The history only grows, and isolation is exact.** After any turns from the start of a chain the history is
their conversation. Each turn finds the conversation of those before it, of which what it leaves is a
continuation; it hands to the format the whole of what it leaves, or just its own messages if it is isolated. -/
theorem history_is_conversation {source : String} {parameters : List (String × Value)} {format : Format}
    {options : Options} {first last : Chain} {world world' : World σ} {turns : List (Option Response × Turn)}
    (begins : start source parameters format options = .ok first)
    (run : Run eval first world turns last world') :
    last.history = Turn.conversation (turns.map Prod.snd) ∧
      ∀ before response turn later, turns = before ++ (response, turn) :: later →
        ∃ (found : Chain) (w w' : World σ),
          Run eval first world before found w ∧ Taken eval found response w turn w' ∧
          Run eval (found.after turn) w' later last world' ∧
          found.history = Turn.conversation (before.map Prod.snd) ∧
          (found.after turn).history = Turn.conversation (before.map Prod.snd ++ [turn]) ∧
          found.history <+: (found.after turn).history ∧
          format.encode ⟨turn.config, if turn.isolated then turn.emitted else (found.after turn).history⟩ =
            .ok ⟨turn.config, turn.result.messages⟩ := by
  obtain ⟨silent, fresh, -, -, -, sameFormat, -, -⟩ := start_eq_ok begins
  refine ⟨run.history_eq_conversation fresh silent, ?_⟩
  rintro before response turn later rfl
  obtain ⟨found, w, w', front, here, back⟩ := run.cut
  refine ⟨found, w, w', front, here, back, front.history_eq_conversation fresh silent, ?_, history_prefix found turn, ?_⟩
  · have both := (front.concat here).history_eq_conversation fresh silent
    rwa [List.map_append] at both
  · have encoded := here.encoded
    rwa [front.format_eq, sameFormat] at encoded

/-- A document with an isolated step: neither what it asks nor what is answered is in the history. -/
theorem history_after_isolated_step : ∃ first last turns world,
    start "<step isolated>ask</step>tell" [] .canonical {} = .ok first ∧
      Run (Expr.eval Host.idle) first ⟨0, ()⟩ turns last world ∧
      turns.map Prod.fst = [none, some (.text "answer")] ∧
      last.history = Turn.conversation (turns.map Prod.snd) ∧
      last.history.map Message.text = ["tell"] := by
  have made : reaches (Expr.eval Host.idle) "<step isolated>ask</step>tell" [] .canonical {}
      [none, some (.text "answer")] ⟨0, ()⟩ (fun last _ => last.history.map Message.text = ["tell"]) := by
    decide +kernel
  obtain ⟨first, last, turns, world, begins, run, answers, texts⟩ := exists_run_of_reaches made
  exact ⟨first, last, turns, world, begins, run, answers, (history_is_conversation begins run).1,
    of_decide_eq_true texts⟩

end Chain
end PromptScript
