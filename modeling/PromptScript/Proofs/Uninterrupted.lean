import PromptScript.Proofs.Continuing
import PromptScript.Proofs.Layout
import PromptScript.Proofs.Trails
import PromptScript.Proofs.Turns

/-! # Chains go on as if never stopped

The turns of a chain are passes that stop at steps and are gone on with. All together they emit what the straight
walk emits, and leave what it leaves. -/
namespace PromptScript

variable {σ : Type} (eval : Evaluator σ) (options : Options)

/-! ## Documents between passes -/

namespace Document

/-- All nodes of the document are done. -/
def Finished (d : Document) : Prop := ∀ n ∈ d.body, n.isDone = true

/-- A pass has stopped in the document. -/
def Stopped (d : Document) : Prop :=
  Node.StoppedAll d.body ∧ ∃ table, d.progress = some { pointers := some table }

/-- Goes on straight from where a pass stopped in the document. -/
def resume (d : Document) (rs : Replies) : Pass σ (Replies × Flow) := do
  let left ← Pass.within (d.progress.getD {}).pointers (Pass.resumeAll eval options {} d.body rs)
  Pass.flushContent options
  return left

/-- What a pass over a document tells of a walk: either it went on to the end, and so does the walk, or it stopped,
where the walk is cut or goes on with the document as the pass left it. -/
def Tells (s : PassState σ) (whole : Replies → Pass σ (Replies × Flow)) (t : PassState σ) (d : Document) : Flow → Prop
  | .goesOn => d.Finished ∧ ∀ rs, Pass.Runs (whole rs) s (rs, .goesOn) t
  | .stops => d.Stopped ∧ Pass.Runs (whole []) s ([], .stops) t ∧
      ∀ r rs, (whole (r :: rs)).result s = (d.resume eval options rs).result (t.answered r)

end Document

namespace Pass

/-- Where a pass goes on, all it has visited is done. -/
theorem isDone_of_goesOn {around : Surroundings} {anew : Bool} {nodes nodes' : List Node} {s t : PassState σ}
    (h : Runs (walkAll eval options around anew nodes) s (nodes', .goesOn) t) : ∀ n ∈ nodes', n.isDone = true := by
  induction nodes generalizing nodes' s with
  | nil =>
    obtain ⟨same, -⟩ := runs_pure.mp h
    obtain ⟨rfl, -⟩ := Prod.mk.inj same
    exact nofun
  | cons n r ih =>
    unfold walkAll at h
    split at h
    · next done =>
      obtain ⟨r', ran, rfl⟩ := runs_into.mp h
      rw [Bool.and_eq_true] at done
      exact List.forall_mem_cons.mpr ⟨done.2, ih ran⟩
    · rcases runs_goingOn.mp h with ⟨_, _, _, goes⟩ | ⟨n', s', -, rest⟩
      · cases goes
      · obtain ⟨r', ran, rfl⟩ := runs_into.mp rest
        exact List.forall_mem_cons.mpr ⟨n'.isDone_finished, ih ran⟩

/-- What is done is not visited again. -/
theorem walkAll_of_done {around : Surroundings} {nodes : List Node} (h : ∀ n ∈ nodes, n.isDone = true) :
    walkAll eval options around false nodes = return (nodes, .goesOn) := by
  induction nodes with
  | nil => rfl
  | cons n r ih =>
    obtain ⟨done, later⟩ := List.forall_mem_cons.mp h
    unfold walkAll
    rw [done, ih later]
    rfl

end Pass

namespace Document

open Pass

/-- What a pass over a document does: it visits the nodes with the names that were in view, and makes a message of
what is left. -/
theorem runs_visit {d d' : Document} {flow : Flow} {s t : PassState σ}
    (h : Runs (d.visit eval options) s (d', flow) t) :
    ∃ t₁, Runs (walkAll eval options {} false d.body) (s.withTable ((d.progress.getD {}).pointers.getD s.table))
        (d'.body, flow) t₁ ∧ Runs (flushContent options) (t₁.withTable s.table) () t ∧
      (flow = .stops → d'.progress = some { d.progress.getD {} with pointers := some t₁.table }) := by
  unfold visit at h
  obtain ⟨⟨⟨body, table⟩, flow'⟩, s', viewed, h₁⟩ := runs_bind.mp h
  obtain ⟨t₁, ran, rfl, rfl⟩ := runs_inView.mp viewed
  obtain ⟨⟨⟩, s'', flushed, h₂⟩ := runs_bind.mp h₁
  obtain ⟨same, rfl⟩ := runs_pure.mp h₂
  obtain ⟨rfl, rfl⟩ := Prod.mk.inj same
  refine ⟨t₁, ran, flushed, ?_⟩
  rintro rfl
  rfl

/-- After a pass nothing waits, and the names in view are those from before. -/
theorem blank_of_visit {d d' : Document} {flow : Flow} {s t : PassState σ}
    (h : Runs (d.visit eval options) s (d', flow) t) : t.Blank ∧ t.table = s.table := by
  obtain ⟨t₁, -, flushed, -⟩ := runs_visit eval options h
  obtain ⟨-, here⟩ := flush_inside flushed
  exact ⟨blank_of_flushContent options flushed, by rw [here]; rfl⟩

/-- A pass over a document tells of a walk what the visit of its nodes does. -/
theorem tells_of_continues {d d' : Document} {flow : Flow} {s t : PassState σ}
    {whole : Replies → Pass σ (Replies × Flow)} (open_ : d.progress.getD {} = { pointers := (d.progress.getD {}).pointers })
    (h : Continues options (s.withTable ((d.progress.getD {}).pointers.getD s.table))
      (walkAll eval options {} false d.body) whole (resumeAll eval options {}) (Node.LeftAll {} d.body))
    (ran : Runs (d.visit eval options) s (d', flow) t) :
    Tells eval options s (fun rs => do
      let left ← within (d.progress.getD {}).pointers (whole rs)
      flushContent options
      return left) t d' flow := by
  obtain ⟨t₁, visited, flushed, marks⟩ := runs_visit eval options ran
  obtain ⟨⟨-, stopped⟩, tells⟩ := h d'.body flow t₁ visited
  have blank := blank_of_flushContent options flushed
  have told := tells.within
  cases flow with
  | goesOn =>
    refine ⟨isDone_of_goesOn eval options visited, fun rs => ?_⟩
    exact runs_bind.mpr ⟨_, _, told.2 rs, runs_bind.mpr ⟨(), t, flushed, rfl⟩⟩
  | stops =>
    obtain ⟨cut, stops⟩ := told t flushed
    refine ⟨⟨(stopped rfl).1, t₁.table, ?_⟩, ?_, fun r rs => ?_⟩
    · rw [marks rfl, open_]
    · exact runs_bind.mpr ⟨_, _, cut, runs_bind.mpr ⟨(), t, flushContent_of_blank options blank, rfl⟩⟩
    · refine (result_bind_congr (stops r rs)).trans ?_
      unfold resume
      rw [marks rfl]
      rfl

/-- A first pass over a document tells of the straight walk. -/
theorem tells_straight {d d' : Document} {flow : Flow} {s t : PassState σ}
    (bare : Node.clearedAll d.body = d.body ∧ d.progress = none) (quiet : s.response = none)
    (ran : Runs (d.visit eval options) s (d', flow) t) : Tells eval options s (d.straight eval options) t d' flow := by
  have tells := tells_of_continues eval options (by rw [bare.2]; rfl)
    (walkAll_continues eval options {} false d.body (.inr bare.1) _ quiet) ran
  rw [bare.2] at tells
  exact tells

/-- A pass over a document in which one has stopped tells of what is left of the walk. -/
theorem tells_resume {d d' : Document} {flow : Flow} {s t : PassState σ} {r : List Content} (stopped : d.Stopped)
    (blank : s.Blank) (ran : Runs (d.visit eval options) (s.answered r) (d', flow) t) :
    Tells eval options (s.answered r) (d.resume eval options) t d' flow := by
  obtain ⟨inside, table, marks⟩ := stopped
  exact tells_of_continues eval options (by rw [marks]; rfl)
    (walkAll_stopped_continues eval options {} d.body inside _ r ((blank.answered r).withTable _) rfl) ran

/-- A pass over a document that is done does nothing. -/
theorem runs_visit_of_finished {d d' : Document} {flow : Flow} {s t : PassState σ} (finished : d.Finished)
    (blank : s.Blank) (ran : Runs (d.visit eval options) s (d', flow) t) : d'.Finished ∧ flow = .goesOn ∧ t = s := by
  obtain ⟨t₁, visited, flushed, -⟩ := runs_visit eval options ran
  rw [walkAll_of_done eval options finished] at visited
  obtain ⟨same, rfl⟩ := runs_pure.mp visited
  obtain ⟨body, goes⟩ := Prod.mk.inj same
  refine ⟨?_, goes.symm, (flushed.unique (flushContent_of_blank options blank)).2⟩
  unfold Finished
  rw [← body]
  exact finished

end Document

/-! ## Turns as passes -/

namespace Turn

/-- The responses that turns have answered. -/
def replies (turns : List (Option Response × Turn)) : Replies :=
  turns.filterMap fun (_, turn) => turn.answer.map Chain.Answer.content

/-- The messages that turns emit, one after the other. -/
def emittedAll (turns : List (Option Response × Turn)) : List Message := turns.flatMap fun (_, turn) => turn.emitted

end Turn

namespace Chain

open Pass

variable {eval options} {chain last : Chain} {world world' : World σ} {response : Option Response} {turn : Turn}

/-- The state between passes: nothing waits, and the machine is the chain's. -/
structure Between (chain : Chain) (world : World σ) (s : PassState σ) : Prop extends s.Blank where
  machine : s.machine = ⟨world, chain.scope⟩

/-- The state before all passes. -/
def opening (chain : Chain) (world : World σ) : PassState σ := .opening ⟨world, chain.scope⟩ none

theorem between_opening (chain : Chain) (world : World σ) : Between chain world (chain.opening world) := ⟨⟨rfl, rfl⟩, rfl⟩

/-- A turn is a pass over the document. It does the same after what earlier passes have gathered. -/
theorem Taken.visits (taken : Taken eval chain response world turn world') {s : PassState σ}
    (between : Between chain world s) :
    ∃ flow t, Runs (chain.document.visit eval chain.options)
        { s with response := turn.answer.map Answer.content } (turn.outcome.document, flow) t ∧
      Between (chain.after turn) world' t ∧ t.messages.toList = s.messages.toList ++ turn.emitted ∧
      (turn.outcome.completed = true ↔ flow = .goesOn) := by
  obtain ⟨machine, rfl, passed⟩ := taken.passed
  obtain ⟨flow, t, visited, rfl, messages, stash, completed⟩ := Document.runs_visit_of_pass eval chain.options passed
  obtain ⟨blank, table⟩ := Document.blank_of_visit eval chain.options visited
  have begins : s.leading (.opening ⟨world, chain.scope⟩ (turn.answer.map Answer.content)) =
      { s with response := turn.answer.map Answer.content } := by
    obtain ⟨⟨passage, pending⟩, machine⟩ := between
    simp [PassState.amid, PassState.opening, passage, pending, machine]
  have led := (Document.commutes_visit eval chain.options chain.document s).runs visited
  rw [begins] at led
  refine ⟨flow, s.leading t, led, ⟨⟨blank.passage, blank.pending⟩, ?_⟩, ?_, completed⟩
  · show t.machine = ⟨t.machine.toWorld, turn.outcome.stash, chain.scope.pointers⟩
    rw [stash, ← show t.table = chain.scope.pointers from table]
    rfl
  · rw [Turn.emitted, messages]
    simp [PassState.amid]

/-- Every turn but the first answers something. -/
theorem Taken.exists_answer (taken : Taken eval chain response world turn world') (started : chain.started = true) :
    ∃ a, turn.answer = some a := by
  have ready := taken.ready
  have read := taken.read
  unfold checkTurn at ready
  cases response with
  | none => by_cases h : chain.completed <;> simp [h, started] at ready
  | some r =>
    have read : (chain.answerOf r).map some = .ok turn.answer := read
    cases h : chain.answerOf r with
    | error fault => rw [h] at read; cases read
    | ok a =>
      rw [h] at read
      exact ⟨a, (Except.ok.inj read).symm⟩

/-- Turns over a document that is done emit nothing and change nothing. -/
theorem Run.of_finished {turns : List (Option Response × Turn)} (run : Run eval chain world turns last world')
    (finished : chain.document.Finished) :
    Turn.emittedAll turns = [] ∧ last.scope.stash = chain.scope.stash ∧ world' = world := by
  induction run with
  | none => exact ⟨rfl, rfl, rfl⟩
  | @turn chain last world world' world'' response turn turns taken rest ih =>
    obtain ⟨flow, t, visited, between', messages, -⟩ := taken.visits (between_opening chain world)
    obtain ⟨finished', -, rfl⟩ := Document.runs_visit_of_finished eval chain.options finished ⟨rfl, rfl⟩ visited
    obtain ⟨silent, stash, same⟩ := ih finished'
    have machine := between'.machine
    obtain ⟨world, scope⟩ : world = world' ∧ chain.scope = (chain.after turn).scope := Machine.mk.inj machine
    refine ⟨?_, stash.trans (congrArg Scope.stash scope.symm), same.trans world.symm⟩
    have silence : turn.emitted = [] := by simpa [opening, PassState.opening] using messages.symm
    show turn.emitted ++ Turn.emittedAll turns = []
    rw [silence, silent, List.append_nil]

/-- **Turns go on with a walk.** What the first pass has told of a walk the turns after it carry on. -/
theorem Run.goesOn {turns : List (Option Response × Turn)} (run : Run eval chain world turns last world')
    (started : chain.started = true) {s t : PassState σ} {whole : Replies → Pass σ (Replies × Flow)} {flow : Flow}
    (between : Between chain world t) (tells : Document.Tells eval chain.options s whole t chain.document flow) :
    ∃ rest flow u, Runs (whole (Turn.replies turns)) s (rest, flow) u ∧
      u.messages.toList = t.messages.toList ++ Turn.emittedAll turns ∧ u.machine.scope.stash = last.scope.stash ∧
      u.machine.toWorld = world' := by
  induction run generalizing s t whole flow with
  | none chain world =>
    have machine := between.machine
    cases flow with
    | goesOn => exact ⟨[], .goesOn, t, tells.2 [], by simp [Turn.emittedAll], by rw [machine], by rw [machine]⟩
    | stops => exact ⟨[], .stops, t, tells.2.1, by simp [Turn.emittedAll], by rw [machine], by rw [machine]⟩
  | @turn chain last world world' world'' response turn turns taken rest ih =>
    cases flow with
    | goesOn =>
      obtain ⟨finished, walks⟩ := tells
      obtain ⟨silent, stash, same⟩ := Run.of_finished (.turn taken rest) finished
      refine ⟨_, .goesOn, t, walks _, by rw [silent, List.append_nil], ?_, ?_⟩
      · rw [stash, between.machine]
      · rw [same, between.machine]
    | stops =>
      obtain ⟨stopped, -, stops⟩ := tells
      obtain ⟨a, answered⟩ := taken.exists_answer started
      obtain ⟨flow', t', visited, between', messages, -⟩ := taken.visits between
      rw [answered] at visited
      have tells' := Document.tells_resume eval chain.options stopped between.toBlank visited
      obtain ⟨left, flow, u, walks, emitted, stash, same⟩ := ih rfl between' tells'
      refine ⟨left, flow, u, ?_, ?_, stash, same⟩
      · rw [show Turn.replies ((response, turn) :: turns) = a.content :: Turn.replies turns by
          simp [Turn.replies, answered]]
        exact (stops a.content (Turn.replies turns)).trans walks
      · rw [emitted, messages, List.append_assoc]
        rfl

/-- Turns from the start of a chain do all together what the straight walk does. -/
theorem Run.straight {source : String} {parameters : List (String × Value)} {format : Format}
    {first : Chain} {turns : List (Option Response × Turn)}
    (begins : start source parameters format options = .ok first)
    (run : Run eval first world ((response, turn) :: turns) last world') :
    ∃ rest flow u,
      Runs (first.document.straight eval first.options (Turn.replies ((response, turn) :: turns)))
        (first.opening world) (rest, flow) u ∧
      u.messages.toList = Turn.emittedAll ((response, turn) :: turns) ∧
      u.machine.scope.stash = last.scope.stash ∧ u.machine.toWorld = world' := by
  obtain ⟨-, fresh, -, -, -, -, parsed, -⟩ := start_eq_ok begins
  have bare := Grammar.unmarked_of_parse parsed
  cases run with
  | turn taken rest =>
    obtain ⟨-, unanswered⟩ := taken.answer_eq_none fresh
    obtain ⟨flow, t, visited, between', messages, -⟩ := taken.visits (between_opening first world)
    rw [unanswered] at visited
    have tells := Document.tells_straight eval first.options bare rfl visited
    obtain ⟨left, flow, u, walks, emitted, stash, same⟩ := rest.goesOn rfl between' tells
    refine ⟨left, flow, u, ?_, ?_, stash, same⟩
    · rw [show Turn.replies ((response, turn) :: turns) = Turn.replies turns by simp [Turn.replies, unanswered]]
      exact walks
    · rw [emitted, messages]
      rfl

/-- The responses of a run are read as at its start. -/
theorem Run.answers_eq {turns : List (Option Response × Turn)} (run : Run eval chain world turns last world') :
    ∀ t ∈ turns, chain.answer? t.1 = .ok t.2.answer := by
  induction run with
  | none => exact fun _ member => absurd member List.not_mem_nil
  | turn taken _ ih => exact List.forall_mem_cons.mpr ⟨taken.read, ih⟩

/-- **Resuming equals never having stopped.** Turns from the start of a chain emit all together, one after the other,
the messages of one straight walk through the document with the responses they were given; the walk leaves the same
variables and the same world, with the same list of calls of the caller's functions. What the turns evaluate
is a trail of the document: no expression of it twice in one round of a loop. -/
theorem resuming_is_never_stopping {host : Host σ} {source : String} {parameters : List (String × Value)}
    {format : Format} {options : Options} {first last : Chain} {world world' : World ((σ × List Call) × List Expr)}
    {response : Option Response} {turn : Turn} {turns : List (Option Response × Turn)}
    (begins : start source parameters format options = .ok first)
    (run : Run (Expr.eval host.noting).noting first world ((response, turn) :: turns) last world') :
    (∀ t ∈ (response, turn) :: turns, first.answer? t.1 = .ok t.2.answer) ∧
      ∃ rest flow u,
        Runs (first.document.straight (Expr.eval host.noting).noting first.options
          (Turn.replies ((response, turn) :: turns))) (first.opening world) (rest, flow) u ∧
        u.messages.toList = Turn.emittedAll ((response, turn) :: turns) ∧
        u.machine.scope.stash = last.scope.stash ∧
        u.machine.host.1.2 = world'.host.1.2 ∧ u.machine.toWorld = world' ∧
        ∃ trail, world'.host.2 = world.host.2 ++ trail ∧ Node.TrailAll first.document.body trail := by
  obtain ⟨rest, flow, u, walks, emitted, stash, rfl⟩ := run.straight begins
  obtain ⟨trail, noted, fine⟩ := first.document.notes_straight _ _ _ _ _ _ walks
  exact ⟨run.answers_eq, rest, flow, u, walks, emitted, stash, rfl, rfl, trail, noted, fine⟩

/-- A step in a message in a loop asks in each round, and hears an answer of its own. -/
theorem resuming_in_rounds : ∃ first last turns world,
    start "\x7b\x7b for x in items \x7d\x7d<user>\x7b\x7b x \x7d\x7d<step as=\"r\">?</step>\x7b\x7b r \x7d\x7d</user>\x7b\x7b endfor \x7d\x7d"
        [("items", .array [.string "a", .string "b"])] .canonical {} = .ok first ∧
      Run (Expr.eval Host.idle.noting).noting first ⟨0, (((), []), [])⟩ turns last world ∧
      turns.map Prod.fst = [none, some (.text "1"), some (.text "2")] ∧
      last.history.map Message.text = ["a?", "1", "1", "b?", "2", "2"] ∧
      ∃ rest flow u,
        Runs (first.document.straight (Expr.eval Host.idle.noting).noting first.options (Turn.replies turns))
          (first.opening ⟨0, (((), []), [])⟩) (rest, flow) u ∧
        u.messages.toList = Turn.emittedAll turns := by
  have made : reaches (Expr.eval Host.idle.noting).noting
      "\x7b\x7b for x in items \x7d\x7d<user>\x7b\x7b x \x7d\x7d<step as=\"r\">?</step>\x7b\x7b r \x7d\x7d</user>\x7b\x7b endfor \x7d\x7d"
      [("items", .array [.string "a", .string "b"])] .canonical {}
      [none, some (.text "1"), some (.text "2")] ⟨0, (((), []), [])⟩
      (fun last _ => last.history.map Message.text = ["a?", "1", "1", "b?", "2", "2"]) := by
    decide +kernel
  obtain ⟨first, last, turns, world, begins, run, answers, texts⟩ := exists_run_of_reaches made
  refine ⟨first, last, turns, world, begins, run, answers, of_decide_eq_true texts, ?_⟩
  obtain _ | ⟨⟨response, turn⟩, turns⟩ := turns
  · cases answers
  · obtain ⟨-, rest, flow, u, walks, emitted, -⟩ := resuming_is_never_stopping begins run
    exact ⟨rest, flow, u, walks, emitted⟩

end Chain
end PromptScript
