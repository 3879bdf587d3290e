import PromptScript.Chain.Playing
import PromptScript.Proofs.Straight
import PromptScript.Proofs.Uninterrupted

/-! # Chains end

A chain is called over and over with the responses of a stream that never ends. Unless a call fails, the chain is
completed after a number of calls that the steps executed by the straight walk determine: one for each of them, one
for what follows the last of them, and one more if that stretch had something to say. -/
namespace PromptScript.Chain

open Pass

variable {σ : Type} {eval : Evaluator σ}

/-! ## Calls on a stream of responses -/

/-- The response of a call, of which the first has none. -/
def responseAt (responses : Nat → Response) : Nat → Option Response
  | 0 => none
  | n + 1 => some (responses n)

/-- The responses of the first calls. -/
def responsesTo (responses : Nat → Response) (count : Nat) : List (Option Response) :=
  (List.range count).map (responseAt responses)

/-- What a step is answered with; a response that cannot be read answers nothing. -/
def contentOf (chain : Chain) (response : Response) : List Content :=
  match chain.answerOf response with
  | .ok answer => answer.content
  | .error _ => []

/-- Steps on responses and one more. -/
theorem steps_concat (responses : List (Option Response)) (response : Option Response) (chain : Chain)
    (world : World σ) : steps eval (responses ++ [response]) chain world =
      match steps eval responses chain world with
      | (.error fault, world) => (.error fault, world)
      | (.ok (middle, results), world) =>
        match middle.step eval response world with
        | (.error fault, world) => (.error fault, world)
        | (.ok (last, result), world) => (.ok (last, results ++ [result]), world) := by
  induction responses generalizing chain world with
  | nil =>
    cases made : chain.step eval response world with
    | mk x w => obtain _ | ⟨last, result⟩ := x <;> simp only [List.nil_append, steps, made]
  | cons r responses ih =>
    simp only [List.cons_append, steps]
    obtain ⟨_ | ⟨next, result⟩, w⟩ := chain.step eval r world
    · rfl
    · dsimp only
      rw [ih]
      obtain ⟨_ | ⟨middle, results⟩, w'⟩ := steps eval responses next w
      · rfl
      · dsimp only
        obtain ⟨_ | ⟨last, result'⟩, w''⟩ := middle.step eval response w' <;> rfl

theorem responsesTo_succ (responses : Nat → Response) (n : Nat) :
    responsesTo responses (n + 1) = responsesTo responses n ++ [responseAt responses n] := by
  simp only [responsesTo, List.range_succ, List.map_append, List.map_cons, List.map_nil]

/-- One more call. -/
theorem steps_responsesTo_succ {responses : Nat → Response} {n : Nat} {first middle last : Chain} {world w w' : World σ}
    {results : List StepResult} {result : StepResult}
    (made : steps eval (responsesTo responses n) first world = (.ok (middle, results), w))
    (more : middle.step eval (responseAt responses n) w = (.ok (last, result), w')) :
    steps eval (responsesTo responses (n + 1)) first world = (.ok (last, results ++ [result]), w') := by
  rw [responsesTo_succ, steps_concat, made]
  dsimp only
  rw [more]

/-! ## Completed chains -/

theorem decoded_ne_alreadyCompleted (chain : Chain) (js : List Json) :
    chain.decoded js ≠ .error .alreadyCompleted := by
  unfold decoded
  cases chain.format.decodeMessages js <;> nofun

theorem answerOf_ne_alreadyCompleted (chain : Chain) (response : Response) :
    chain.answerOf response ≠ .error .alreadyCompleted := by
  intro h
  unfold answerOf at h
  split at h
  · cases h
  · next js =>
    cases read : chain.decoded js with
    | error fault =>
      rw [read] at h
      cases h
      exact decoded_ne_alreadyCompleted chain js read
    | ok ms => rw [read] at h; cases h
  · next fields =>
    cases read : chain.decoded [withRole fields] with
    | error fault =>
      rw [read] at h
      cases h
      exact decoded_ne_alreadyCompleted chain _ read
    | ok ms => rw [read] at h; cases h
  · cases h

theorem advance_ne_alreadyCompleted (chain : Chain) (answer : Option Answer) (outcome : Outcome) :
    chain.advance answer outcome ≠ .error .alreadyCompleted := by
  intro h
  unfold advance at h
  dsimp only at h
  cases encoded : chain.format.encode ⟨Fields.merge ((outcome.globalConfig.or chain.config).getD [])
      (outcome.stepConfig.getD []), _⟩ with
  | error fault => rw [encoded] at h; cases h
  | ok exchange => rw [encoded] at h; cases h

/-- A completed chain makes no step. -/
theorem step_of_completed {chain : Chain} (completed : chain.completed = true) (response : Option Response)
    (world : World σ) : chain.step eval response world = (.error .alreadyCompleted, world) := by
  unfold step checkTurn
  rw [completed]
  rfl

/-- No call is made after the one that completes the chain. -/
theorem steps_responsesTo_of_completed {responses : Nat → Response} {n : Nat} {first last : Chain} {world w : World σ}
    {results : List StepResult} (made : steps eval (responsesTo responses n) first world = (.ok (last, results), w))
    (completed : last.completed = true) (k : Nat) :
    steps eval (responsesTo responses (n + k + 1)) first world = (.error .alreadyCompleted, w) := by
  induction k with
  | zero =>
    rw [Nat.add_zero, responsesTo_succ, steps_concat, made]
    simp only [step_of_completed completed]
  | succ k ih => rw [responsesTo_succ, steps_concat, ← Nat.add_assoc, ih]

/-- No other chain says that it is completed. -/
theorem step_ne_alreadyCompleted {chain : Chain} (open_ : chain.completed = false) (response : Option Response)
    (world world' : World σ) : chain.step eval response world ≠ (.error .alreadyCompleted, world') := by
  intro h
  unfold step at h
  cases ready : chain.checkTurn response with
  | error fault =>
    rw [ready] at h
    cases h
    unfold checkTurn at ready
    rw [open_] at ready
    revert ready
    cases chain.started <;> cases response <;> nofun
  | ok u =>
    cases read : chain.answer? response with
    | error fault =>
      rw [ready, read] at h
      cases h
      cases response with
      | none => cases read
      | some r =>
        have read : (chain.answerOf r).map some = .error .alreadyCompleted := read
        cases answered : chain.answerOf r with
        | error fault =>
          rw [answered] at read
          cases read
          exact answerOf_ne_alreadyCompleted chain r answered
        | ok answer => rw [answered] at read; cases read
    | ok answer =>
      rw [ready, read] at h
      dsimp only [bind, Except.bind] at h
      split at h
      · cases h
      · next outcome machine passed =>
        exact advance_ne_alreadyCompleted chain answer outcome (Prod.mk.inj h).1

/-! ## Where a chain stands in the walk -/

/-- The chain has made a turn, and `given` are the responses that it was answered so far; the state `t` is where all
its passes together have led from `s`. What they tell of a walk is where it comes with these responses. -/
structure Stands (eval : Evaluator σ) (s : PassState σ) (whole : Replies → Pass σ (Replies × Flow)) (given : Replies)
    (chain : Chain) (world : World σ) (t : PassState σ) (flow : Flow) : Prop extends Between chain world t where
  started : chain.started = true
  tells : Document.Tells eval chain.options s (fun rs => whole (given ++ rs)) t chain.document flow

section Stands

variable {s t : PassState σ} {whole : Replies → Pass σ (Replies × Flow)} {given : Replies} {chain : Chain}
  {world world' : World σ} {response : Option Response} {turn : Turn}

/-- What a turn ends with, told by the states before and after it. -/
structure Ends (t t' : PassState σ) (turn : Turn) (flow : Flow) : Prop where
  completed : turn.outcome.completed = true ↔ flow = .goesOn
  messages : t'.messages.toList = t.messages.toList ++ turn.emitted

/-- A turn is the last one just if its pass comes to the end and adds no message. -/
theorem Ends.last_iff {t' : PassState σ} {flow : Flow} (h : Ends t t' turn flow) :
    turn.last = true ↔ flow = .goesOn ∧ t'.messages.size = t.messages.size := by
  have more : t'.messages.size = t.messages.size + turn.emitted.length := by
    simpa using congrArg List.length h.messages
  unfold Turn.last
  rw [Bool.and_eq_true, h.completed, List.isEmpty_iff, ← List.length_eq_zero_iff, more, Nat.add_eq_left]

/-- After its first turn a chain stands at the first step of the straight walk, or at its end. -/
theorem Taken.stands_first {source : String} {parameters : List (String × Value)} {format : Format}
    {options : Options} (begins : start source parameters format options = .ok chain)
    (taken : Taken eval chain response world turn world') :
    ∃ t flow, Stands eval (chain.opening world) (chain.document.straight eval chain.options) []
        (chain.after turn) world' t flow ∧ Ends (chain.opening world) t turn flow := by
  obtain ⟨-, fresh, -, -, -, -, parsed, -⟩ := start_eq_ok begins
  have bare := Grammar.unmarked_of_parse parsed
  obtain ⟨-, unanswered⟩ := taken.answer_eq_none fresh
  obtain ⟨flow, t, visited, between, messages, completed⟩ := taken.visits (between_opening chain world)
  rw [unanswered] at visited
  have tells := Document.tells_straight eval chain.options bare rfl visited
  exact ⟨t, flow, ⟨between, rfl, tells⟩, completed, messages⟩

/-- Where a chain stands at a step, its next turn answers it, and the chain stands at the step after or at the end. -/
theorem Stands.next (stands : Stands eval s whole given chain world t .stops)
    (taken : Taken eval chain response world turn world') :
    ∃ a t' flow, turn.answer = some a ∧
      Stands eval s whole (given ++ [a.content]) (chain.after turn) world' t' flow ∧ Ends t t' turn flow := by
  obtain ⟨stopped, -, stops⟩ := stands.tells
  obtain ⟨a, answered⟩ := taken.exists_answer stands.started
  obtain ⟨flow, t', visited, between, messages, completed⟩ := taken.visits stands.toBetween
  rw [answered] at visited
  have tells := Document.tells_resume eval chain.options stopped stands.toBlank visited
  -- The walk with this response is what is left of it after the response.
  have same (rs : Replies) : (whole (given ++ [a.content] ++ rs)).result s =
      (chain.document.resume eval chain.options rs).result (t.answered a.content) := by
    rw [List.append_assoc]
    exact stops a.content rs
  refine ⟨a, t', flow, answered, ⟨between, rfl, ?_⟩, completed, messages⟩
  cases flow with
  | goesOn => exact ⟨tells.1, fun rs => (same rs).trans (tells.2 rs)⟩
  | stops => exact ⟨tells.1, (same []).trans tells.2.1, fun r rs => (same (r :: rs)).trans (tells.2.2 r rs)⟩

/-- Where a chain stands at the end, its next turn has nothing to say and is the last one. -/
theorem Stands.last (stands : Stands eval s whole given chain world t .goesOn)
    (taken : Taken eval chain response world turn world') : turn.last = true := by
  obtain ⟨flow, t', visited, -, messages, completed⟩ := taken.visits stands.toBetween
  have blank : ({ t with response := turn.answer.map Answer.content } : PassState σ).Blank :=
    ⟨stands.passage, stands.pending⟩
  obtain ⟨-, goes, same⟩ := Document.runs_visit_of_finished eval chain.options stands.tells.1 blank visited
  exact (Ends.last_iff ⟨completed, messages⟩).mpr ⟨goes, by rw [same]⟩

end Stands

/-! ## The number of calls -/

/-- A call fails before the chain is completed. -/
def Fails (eval : Evaluator σ) (responses : Nat → Response) (first : Chain) (world : World σ) : Prop :=
  ∃ n fault world',
    steps eval (responsesTo responses n) first world = (.error fault, world') ∧ fault ≠ .alreadyCompleted

section Calls

variable {responses : Nat → Response} {first chain : Chain} {world w : World σ}

/-- Where no call fails, the next call of a chain that is not completed takes a turn. -/
theorem exists_taken {n : Nat} {results : List StepResult} (fine : ¬ Fails eval responses first world)
    (made : steps eval (responsesTo responses n) first world = (.ok (chain, results), w))
    (open_ : chain.completed = false) : ∃ turn w', Taken eval chain (responseAt responses n) w turn w' ∧
      steps eval (responsesTo responses (n + 1)) first world =
        (.ok (chain.after turn, results ++ [turn.result]), w') := by
  cases more : chain.step eval (responseAt responses n) w with
  | mk outcome w' =>
    cases outcome with
    | error fault =>
      refine absurd ⟨n + 1, fault, w', ?_, ?_⟩ fine
      · rw [responsesTo_succ, steps_concat, made]
        dsimp only
        rw [more]
      · rintro rfl
        exact step_ne_alreadyCompleted open_ _ _ _ more
    | ok given =>
      obtain ⟨next, result⟩ := given
      obtain ⟨turn, rfl, rfl, taken⟩ := step_eq_ok_iff.mp more
      exact ⟨turn, w', taken, steps_responsesTo_succ made more⟩

/-- A chain of the same format reads responses in the same way. -/
theorem contentOf_eq {a : Answer} {response : Response} (same : chain.format = first.format)
    (read : chain.answer? (some response) = .ok (some a)) : first.contentOf response = a.content := by
  have read : (chain.answerOf response).map some = .ok (some a) := read
  have alike : chain.answerOf response = first.answerOf response := by
    unfold answerOf decoded
    rw [same]
  unfold contentOf
  rw [alike] at read
  cases answered : first.answerOf response with
  | error fault => rw [answered] at read; cases read
  | ok b =>
    rw [answered] at read
    obtain rfl := Option.some.inj (Except.ok.inj read)
    rfl

/-- How far the calls of a chain have come in the straight walk: all but the first have answered a step each, and the
state `before` is where the last call found the chain. -/
structure Reached (eval : Evaluator σ) (responses : Nat → Response) (first : Chain) (world : World σ) (answered : Nat)
    (chain : Chain) (w : World σ) (before t : PassState σ) (flow : Flow) : Prop extends
      Stands eval (first.opening world) (first.document.straight eval first.options)
        (Replies.first (fun i => first.contentOf (responses i)) answered) chain w t flow where
  made : ∃ results, steps eval (responsesTo responses (answered + 1)) first world = (.ok (chain, results), w)
  completed : chain.completed = true ↔ flow = .goesOn ∧ t.messages.size = before.messages.size
  format : chain.format = first.format

theorem exists_reached {source : String} {parameters : List (String × Value)} {format : Format} {options : Options}
    (begins : start source parameters format options = .ok first) (fine : ¬ Fails eval responses first world) :
    ∃ chain w t flow, Reached eval responses first world 0 chain w (first.opening world) t flow := by
  obtain ⟨-, -, open_, -⟩ := start_eq_ok begins
  obtain ⟨turn, w, taken, made⟩ := exists_taken (n := 0) fine rfl open_
  obtain ⟨t, flow, stands, ends⟩ := taken.stands_first begins
  exact ⟨first.after turn, w, t, flow, stands, ⟨_, made⟩, ends.last_iff, rfl⟩

/-- Each step of the walk is answered by a call of its own. -/
theorem Reached.next {answered : Nat} {before t : PassState σ}
    (reached : Reached eval responses first world answered chain w before t .stops)
    (fine : ¬ Fails eval responses first world) :
    ∃ chain' w' t' flow, Reached eval responses first world (answered + 1) chain' w' t t' flow := by
  obtain ⟨results, made⟩ := reached.made
  have open_ : chain.completed = false := by
    rw [← Bool.not_eq_true, reached.completed]
    nofun
  obtain ⟨turn, w', taken, made'⟩ := exists_taken fine made open_
  obtain ⟨a, t', flow, answer, stands, ends⟩ := reached.toStands.next taken
  have read := taken.read
  rw [answer] at read
  refine ⟨chain.after turn, w', t', flow, ?_, ⟨_, made'⟩, ends.last_iff, reached.format⟩
  rw [Replies.first_add]
  simp only [Replies.first, List.range_one, List.map_cons, List.map_nil, Nat.add_zero]
  rw [contentOf_eq reached.format read]
  exact stands

/-- A chain stands at the end just after all steps of the walk are answered. -/
theorem Reached.flow_eq {answered count : Nat} {before t after : PassState σ} {flow : Flow} {x : Except Fault Unit}
    (reached : Reached eval responses first world answered chain w before t flow) (bound : answered ≤ count)
    (ends : ∀ rs, (first.document.straight eval first.options
      (Replies.first (fun i => first.contentOf (responses i)) count ++ rs)).result (first.opening world) =
        (ended x rs, after)) :
    flow = .stops ∧ answered < count ∨ flow = .goesOn ∧ answered = count ∧ x = .ok () ∧ t = after := by
  cases flow with
  | stops =>
    refine .inl ⟨rfl, Nat.lt_of_le_of_ne bound ?_⟩
    rintro rfl
    have cut := reached.tells.2.1.symm.trans (ends [])
    cases x <;> cases cut
  | goesOn =>
    right
    have goes := reached.tells.2
    obtain ⟨more, rfl⟩ := Nat.exists_eq_add_of_le bound
    rw [Replies.first_add] at ends
    -- With all these responses the walk leaves those that are beyond its end, and yet it leaves none.
    have same := (goes _).symm.trans ((congrArg (fun rs => (first.document.straight eval first.options rs).result
      (first.opening world)) (List.append_nil _)).symm.trans (ends []))
    obtain ⟨value, rfl⟩ := Prod.mk.inj same
    cases x with
    | error fault => cases value
    | ok u =>
      obtain ⟨left, -⟩ := Prod.mk.inj (Except.ok.inj value)
      have none : more = 0 := by
        rw [← Replies.length_first (fun i => first.contentOf (responses (answered + i))) more, left]
        rfl
      exact ⟨rfl, by omega, rfl, rfl⟩

/-- The calls come to each step of the walk. -/
theorem exists_reached_of_le {source : String} {parameters : List (String × Value)} {format : Format}
    {options : Options} (begins : start source parameters format options = .ok first)
    (fine : ¬ Fails eval responses first world) {count : Nat} {after : PassState σ} {x : Except Fault Unit}
    (ends : ∀ rs, (first.document.straight eval first.options
      (Replies.first (fun i => first.contentOf (responses i)) count ++ rs)).result (first.opening world) =
        (ended x rs, after)) (answered : Nat) (bound : answered ≤ count) :
    ∃ chain w before t flow, Reached eval responses first world answered chain w before t flow ∧
      first.document.Reaches eval first.options (first.opening world) (fun i => first.contentOf (responses i))
        answered before := by
  induction answered with
  | zero =>
    obtain ⟨chain, w, t, flow, reached⟩ := exists_reached begins fine
    exact ⟨chain, w, _, t, flow, reached, rfl⟩
  | succ n ih =>
    obtain ⟨chain, w, before, t, flow, reached, -⟩ := ih (by omega)
    rcases reached.flow_eq (by omega) ends with ⟨rfl, -⟩ | ⟨-, all, -⟩
    · obtain ⟨chain', w', t', flow', reached'⟩ := reached.next fine
      have cut := reached.tells.2.1
      simp only [List.append_nil] at cut
      exact ⟨chain', w', t, t', flow', reached', cut⟩
    · omega

end Calls

/-- The number of the call that completes a chain whose document executes so many steps: the call after the last step
if that call finds nothing to say, and else the one after it. -/
def lastCall (count : Nat) (before after : PassState σ) : Nat :=
  if after.messages.size = before.messages.size then count + 1 else count + 2

/-- Unless a call fails, the straight walk over the document executes some number of steps on the responses, and the
calls succeed until the one that completes the chain. -/
theorem fails_or_completed {source : String} {parameters : List (String × Value)} {format : Format}
    {options : Options} {first : Chain} (begins : start source parameters format options = .ok first)
    (eval : Evaluator σ) (world : World σ) (responses : Nat → Response) :
    Fails eval responses first world ∨
      ∃ count before after,
        first.document.Executes eval first.options (first.opening world)
          (fun i => first.contentOf (responses i)) count before after ∧
        ∀ n ≤ lastCall count before after,
          ∃ chain results w, steps eval (responsesTo responses n) first world = (.ok (chain, results), w) ∧
            (chain.completed = true ↔ n = lastCall count before after) := by
  by_cases fine : Fails eval responses first world
  · exact .inl fine
  · right
    obtain ⟨-, -, open_, -⟩ := start_eq_ok begins
    obtain ⟨count, x, after, -, ends⟩ := first.document.supplied_straight eval first.options (first.opening world)
      fun i => first.contentOf (responses i)
    have each := exists_reached_of_le begins fine ends
    obtain ⟨chain, w, before, t, flow, reached, here⟩ := each count (Nat.le_refl count)
    rcases reached.flow_eq (Nat.le_refl count) ends with ⟨-, less⟩ | ⟨rfl, -, rfl, rfl⟩
    · omega
    obtain ⟨results, made⟩ := reached.made
    refine ⟨count, before, t, ⟨fun n bound => ?_, here, ends⟩, fun n bound => ?_⟩
    · obtain ⟨-, -, at_, -, -, -, reaches⟩ := each n bound
      exact ⟨at_, reaches⟩
    unfold lastCall at bound ⊢
    rcases n with _ | n
    · -- No call has been made.
      refine ⟨first, [], world, rfl, ?_⟩
      rw [open_]
      constructor
      · nofun
      · split <;> nofun
    · rcases Nat.lt_trichotomy n count with less | rfl | more
      · -- The call stops at one of the steps.
        obtain ⟨chain', w', before', t', flow', reached', -⟩ := each n (Nat.le_of_lt less)
        obtain ⟨results', made'⟩ := reached'.made
        refine ⟨chain', results', w', made', ?_⟩
        rw [reached'.completed]
        rcases reached'.flow_eq (Nat.le_of_lt less) ends with ⟨rfl, -⟩ | ⟨-, rfl, -⟩
        · constructor
          · nofun
          · split <;> omega
        · omega
      · -- The call after the last step comes to the end.
        refine ⟨chain, results, w, made, ?_⟩
        rw [reached.completed]
        split
        · next silent => exact ⟨fun _ => rfl, fun _ => ⟨rfl, silent⟩⟩
        · next loud => exact ⟨fun h => absurd h.2 loud, fun h => by omega⟩
      · -- That call had something to say, so that there is one more.
        by_cases silent : t.messages.size = before.messages.size
        · rw [if_pos silent] at bound
          omega
        · rw [if_neg silent] at bound ⊢
          obtain rfl : n = count + 1 := by omega
          have unfinished : chain.completed = false := by
            rw [← Bool.not_eq_true, reached.completed]
            exact fun h => silent h.2
          obtain ⟨turn, w', taken, made'⟩ := exists_taken fine made unfinished
          exact ⟨_, _, w', made', fun _ => rfl, fun _ => reached.toStands.last taken⟩

/-! ## Playing -/

/-- A step that completes the chain says so. -/
theorem exists_completed_result {responses : List (Option Response)} {first last : Chain} {world w : World σ}
    {results : List StepResult} (open_ : first.completed = false)
    (made : steps eval responses first world = (.ok (last, results), w)) (completed : last.completed = true) :
    ∃ r ∈ results, r.completed = true := by
  obtain ⟨turns, run, rfl, rfl⟩ := steps_eq_ok_iff.mp made
  induction run with
  | none => exact absurd completed (by rw [open_]; nofun)
  | @turn chain last world world' world'' response turn turns taken rest ih =>
    have given : turn.result.completed = turn.last := by rw [taken.given]
    by_cases done : turn.last = true
    · exact ⟨turn.result, List.mem_cons_self, given.trans done⟩
    · rw [Bool.not_eq_true] at done
      obtain ⟨r, member, told⟩ := ih done completed (steps_eq_ok_iff.mpr ⟨turns, rest, rfl, rfl⟩)
      exact ⟨r, List.mem_cons_of_mem _ member, told⟩

/-- The text that answers the step of a number, as a response. -/
def scriptedResponse (answers : List String) (number : Nat) : Response := .text (scripted answers number)

/-- Playing ends by a call if the calls up to it do not all succeed without completing the chain. -/
theorem playFrom_of_ends {answers : List String} {n : Nat} : ∀ {number : Nat} {chain : Chain} {world : World σ},
    (∀ last results w, steps eval ((List.range n).map fun i => responseAt (scriptedResponse answers) (number + i))
      chain world = (.ok (last, results), w) → ∃ r ∈ results, r.completed = true) →
    ∀ limit ≥ n, playFrom eval answers limit number chain world = playFrom eval answers n number chain world := by
  induction n with
  | zero =>
    intro number chain world ends
    obtain ⟨r, member, -⟩ := ends chain [] world rfl
    cases member
  | succ n ih =>
    intro number chain world ends limit bound
    obtain ⟨limit, rfl⟩ := Nat.exists_eq_add_of_le' (Nat.le_trans (Nat.le_add_left 1 n) bound)
    have asked : (if number = 0 then none else some (Response.text (scripted answers (number - 1)))) =
        responseAt (scriptedResponse answers) number := by
      cases number <;> rfl
    have rest : (List.range (n + 1)).map (fun i => responseAt (scriptedResponse answers) (number + i)) =
        responseAt (scriptedResponse answers) number ::
          (List.range n).map fun i => responseAt (scriptedResponse answers) (number + 1 + i) := by
      rw [List.range_succ_eq_map, List.map_cons, List.map_map]
      simp only [Function.comp_def, Nat.succ_eq_add_one, Nat.add_zero, Nat.add_comm, Nat.add_left_comm]
    rw [rest] at ends
    unfold playFrom
    rw [asked]
    dsimp only
    unfold steps at ends
    cases made : chain.step eval (responseAt (scriptedResponse answers) number) world with
    | mk outcome w =>
      cases outcome with
      | error fault => rfl
      | ok given =>
        obtain ⟨next, result⟩ := given
        rw [made] at ends
        dsimp only at ends ⊢
        by_cases completed : result.completed = true
        · rw [if_pos completed, if_pos completed]
        · rw [if_neg completed, if_neg completed]
          have same := @ih (number + 1) next w ?_ limit (by omega)
          · rw [same]
          · intro last results w' made'
            rw [made'] at ends
            obtain ⟨r, member, told⟩ := ends last (result :: results) w' rfl
            rcases List.mem_cons.mp member with rfl | member
            · exact absurd told completed
            · exact ⟨r, member, told⟩

/-- Playing a chain ends. -/
theorem playFrom_ends {source : String} {parameters : List (String × Value)} {format : Format} {options : Options}
    {first : Chain} (begins : start source parameters format options = .ok first) (eval : Evaluator σ)
    (world : World σ) (answers : List String) :
    ∃ n, ∀ limit ≥ n, playFrom eval answers limit 0 first world = playFrom eval answers n 0 first world := by
  obtain ⟨-, -, open_, -⟩ := start_eq_ok begins
  have asked (n : Nat) : (List.range n).map (fun i => responseAt (scriptedResponse answers) (0 + i)) =
      responsesTo (scriptedResponse answers) n := by
    simp only [responsesTo, Nat.zero_add]
  rcases fails_or_completed begins eval world (scriptedResponse answers) with
    ⟨n, fault, w, fails, -⟩ | ⟨count, before, after, -, calls⟩
  · refine ⟨n, playFrom_of_ends fun last results w' made => ?_⟩
    rw [asked, fails] at made
    cases made
  · obtain ⟨chain, results, w, made, completed⟩ := calls _ (Nat.le_refl _)
    refine ⟨lastCall count before after, playFrom_of_ends fun last results' w' made' => ?_⟩
    rw [asked, made] at made'
    obtain ⟨same, rfl⟩ := Prod.mk.inj made'
    obtain ⟨rfl, rfl⟩ := Prod.mk.inj (Except.ok.inj same)
    exact exists_completed_result open_ made (completed.mpr rfl)

/-- **Every chain ends, after an exactly known number of calls.** Either a call fails, or the straight walk over the
document executes some number of steps on the responses, and the calls succeed until the chain is completed: by the
call after the last step if what follows that step adds no message, and else by one more. All calls of a completed
chain fail. So playing a chain ends as well, whatever it is answered. -/
theorem every_chain_ends {source : String} {parameters : List (String × Value)} {format : Format}
    {options : Options} {first : Chain} (begins : start source parameters format options = .ok first)
    (eval : Evaluator σ) (world : World σ) :
    (∀ responses : Nat → Response, Fails eval responses first world ∨
      ∃ count before after,
        first.document.Executes eval first.options (first.opening world)
          (fun i => first.contentOf (responses i)) count before after ∧
        ∀ n ≤ lastCall count before after,
          ∃ chain results w, steps eval (responsesTo responses n) first world = (.ok (chain, results), w) ∧
            (chain.completed = true ↔ n = lastCall count before after) ∧
            (chain.completed = true → ∀ response w', chain.step eval response w' = (.error .alreadyCompleted, w'))) ∧
      ∀ answers, ∃ n, ∀ limit ≥ n,
        playFrom eval answers limit 0 first world = playFrom eval answers n 0 first world := by
  refine ⟨fun responses => ?_, playFrom_ends begins eval world⟩
  rcases fails_or_completed begins eval world responses with fails | ⟨count, before, after, executes, succeed⟩
  · exact .inl fails
  · refine .inr ⟨count, before, after, executes, fun n bound => ?_⟩
    obtain ⟨chain, results, w, made, completed⟩ := succeed n bound
    exact ⟨chain, results, w, made, completed, fun done => step_of_completed done⟩

/-- A loop with a step in each of two rounds, and nothing after it: the third call completes the chain. -/
theorem ends_after_rounds : ∃ first last turns world,
    start "\x7b\x7b for x in items \x7d\x7d<step>\x7b\x7b x \x7d\x7d</step>\x7b\x7b endfor \x7d\x7d"
        [("items", .array [.string "a", .string "b"])] .canonical {} = .ok first ∧
      Run (Expr.eval Host.idle) first ⟨0, ()⟩ turns last world ∧
      turns.map Prod.fst = responsesTo (fun _ => .text "yes") 3 ∧ last.completed = true ∧
      (Fails (Expr.eval Host.idle) (fun _ => .text "yes") first ⟨0, ()⟩ ∨
        ∃ count before after, first.document.Executes (Expr.eval Host.idle) first.options (first.opening ⟨0, ()⟩)
            (fun _ => first.contentOf (.text "yes")) count before after ∧ lastCall count before after = 3) := by
  have made : reaches (Expr.eval Host.idle)
      "\x7b\x7b for x in items \x7d\x7d<step>\x7b\x7b x \x7d\x7d</step>\x7b\x7b endfor \x7d\x7d"
      [("items", .array [.string "a", .string "b"])] .canonical {} (responsesTo (fun _ => .text "yes") 3) ⟨0, ()⟩
      (fun last _ => last.completed) := by
    decide +kernel
  obtain ⟨first, last, turns, world, begins, run, answers, completed⟩ := exists_run_of_reaches made
  refine ⟨first, last, turns, world, begins, run, answers, completed, ?_⟩
  rcases (every_chain_ends begins (Expr.eval Host.idle) ⟨0, ()⟩).1 fun _ => .text "yes" with
    fails | ⟨count, before, after, executes, succeed⟩
  · exact .inl fails
  · refine .inr ⟨count, before, after, executes, ?_⟩
    have third := steps_eq_ok_iff.mpr ⟨turns, run, answers, rfl⟩
    rcases Nat.lt_trichotomy 3 (lastCall count before after) with sooner | same | later
    · -- The third call would not have completed the chain.
      obtain ⟨chain, results, w, made, told, -⟩ := succeed 3 (Nat.le_of_lt sooner)
      obtain ⟨same, -⟩ := Prod.mk.inj (made.symm.trans third)
      obtain ⟨rfl, -⟩ := Prod.mk.inj (Except.ok.inj same)
      exact (told.mp completed).symm
    · exact same.symm
    · -- The third call would have failed.
      obtain ⟨chain, results, w, made, told, -⟩ := succeed _ (Nat.le_refl _)
      obtain ⟨k, gap⟩ := Nat.exists_eq_add_of_lt later
      have fails := steps_responsesTo_of_completed made (told.mpr rfl) k
      rw [← gap, third] at fails
      cases fails

end PromptScript.Chain
