import PromptScript.Proofs.Asides

/-! # Going straight through a document

The walk that no step interrupts: it writes no marks and reads none. A step that it reaches runs its body, makes
a message of what waits, takes the next response for its variables, and the walk goes on; it is cut at the first
step for which no response is left. -/
namespace PromptScript

/-- The responses that are still to come. -/
abbrev Replies := List (List Content)

namespace Pass

variable {σ α : Type} (eval : Evaluator σ) (options : Options)

/-- Runs a part with a table of its own. -/
def within (table : Option Pointers) (part : Pass σ (α × Flow)) : Pass σ (α × Flow) :=
  into (fun (a, _) _ => a) (inView table part)

/-- Runs a part with a scope of its own. -/
def enclosed (scope : Scope) (part : Pass σ (α × Flow)) : Pass σ (α × Flow) :=
  into (fun (a, _) _ => a) (inScope scope part)

/-- The rounds of a loop, the first of which has the number `n`. -/
def straightRounds (item : Binding) (index : Option Binding) (body : Replies → Pass σ (Replies × Flow)) :
    List Value → Nat → Replies → Pass σ (Replies × Flow)
  | [], _, rs => return (rs, .goesOn)
  | v :: r, n, rs =>
    goingOn (within none (do declareItem item index v n; body rs)) id fun rs =>
      straightRounds item index body r (n + 1) rs

/-- The next response for the variables of a step. Without one the walk is cut. -/
def takeReply (span : Span) (head : StepHead) : Replies → Pass σ (Replies × Flow)
  | [] => return ([], .stops)
  | r :: rs => do
    closeStep span head r
    return (rs, .goesOn)

/-- A step. -/
def straightStep (around : Surroundings) (span : Span) (tags : List Attribute) (attributes : Attributes)
    (body : Replies → Pass σ (Replies × Flow)) (rs : Replies) : Pass σ (Replies × Flow) := do
  let head ← openStep around span tags attributes
  let _ ← body rs
  leaveSettings head
  flushContent options
  takeReply span head rs

mutual

/-- Goes through a node. -/
def straight (around : Surroundings) : Node → Replies → Pass σ (Replies × Flow)
  | .text _ data _, rs => do
    addSegment (.literal data)
    return (rs, .goesOn)
  | .comment _ _ _, rs => return (rs, .goesOn)
  | .config span data _, rs => do
    meetHeader span data
    return (rs, .goesOn)
  | .interpolation span e _, rs => do
    interpolate eval options around span e
    return (rs, .goesOn)
  | .group _ body _, rs => straightAll around body rs
  | .choice _ test body none _, rs => do
    let holds ← evaluate eval test
    if holds.isTruthy then within none (straightAll around body rs) else return (rs, .goesOn)
  | .choice _ test body (some other) _, rs => do
    let holds ← evaluate eval test
    if holds.isTruthy then within none (straightAll around body rs) else within none (straightAll around other rs)
  | .loop _ items item index body none _, rs => do
    let v ← evaluate eval items
    straightRounds item index (straightAll around body) (← itemsOf items v) 0 rs
  | .loop _ items item index body (some other) _, rs => do
    let v ← evaluate eval items
    match ← itemsOf items v with
    | [] => within none (straightAll around other rs)
    | vs => straightRounds item index (straightAll around body) vs 0 rs
  | .element span tag attributes body _, rs => do
    flushPassage options
    let values ← attributeValues eval attributes []
    match tag with
    | .content kind => content options around span kind values (straightAll { around with inContent := true } body rs)
    | .message role => message options around span role values (straightAll { around with inMessage := true } body rs)
    | .scope => enclosed (← newScope values body) (straightAll around body rs)
    | .step => straightStep options around span attributes values (straightAll { around with inStep := true } body) rs
    | .reference => fail .unresolvedReference span

/-- Goes through nodes in order. -/
def straightAll (around : Surroundings) : List Node → Replies → Pass σ (Replies × Flow)
  | [], rs => return (rs, .goesOn)
  | n :: r, rs => goingOn (straight around n rs) id fun rs => straightAll around r rs

end

end Pass

/-- Goes through a document, and makes a message of what is left over. -/
def Document.straight {σ : Type} (eval : Evaluator σ) (options : Options) (d : Document) (rs : Replies) :
    Pass σ (Replies × Flow) := do
  let left ← Pass.within none (Pass.straightAll eval options {} d.body rs)
  Pass.flushContent options
  return left

/-! ## Marks -/

namespace Node

mutual

/-- What a node reads and declares does not depend on marks. -/
theorem analyze_cleared : ∀ (n : Node) (s : Usage × List Fault), n.cleared.analyze s = n.analyze s
  | .text .., _ => rfl
  | .comment .., _ => rfl
  | .config .., _ => rfl
  | .interpolation .., _ => rfl
  | .group _ body _, s => analyzeAll_clearedAll body s
  | .choice _ test body none _, s => by
    simp only [cleared, analyze, analyzeAll_clearedAll body]
  | .choice _ test body (some other) _, s => by
    simp only [cleared, analyze, analyzeAll_clearedAll body, analyzeAll_clearedAll other]
  | .loop _ items item index body none _, s => by
    simp only [cleared, analyze, analyzeAll_clearedAll body]
  | .loop _ items item index body (some other) _, s => by
    simp only [cleared, analyze, analyzeAll_clearedAll body, analyzeAll_clearedAll other]
  | .element _ tag attributes body _, s => by
    simp only [cleared, analyze, analyzeAll_clearedAll body]

theorem analyzeAll_clearedAll : ∀ (nodes : List Node) (s : Usage × List Fault),
    analyzeAll (clearedAll nodes) s = analyzeAll nodes s
  | [], _ => rfl
  | n :: r, s => by simp only [clearedAll, analyzeAll, analyze_cleared n, analyzeAll_clearedAll r]

end

theorem closureFaults_clearedAll (names : List String) (body : List Node) :
    closureFaults names (clearedAll body) = closureFaults names body := by
  unfold closureFaults
  rw [analyzeAll_clearedAll]

end Node

namespace Pass

variable {σ : Type} (eval : Evaluator σ) (options : Options)

theorem newScope_clearedAll (attributes : Attributes) (body : List Node) :
    (newScope attributes (Node.clearedAll body) : Pass σ Scope) = newScope attributes body := by
  unfold newScope
  rw [Node.closureFaults_clearedAll]

mutual

/-- Going straight through a node does not depend on marks. -/
theorem straight_cleared (around : Surroundings) : ∀ n : Node,
    straight eval options around n.cleared = straight eval options around n
  | .text .. => rfl
  | .comment .. => rfl
  | .config .. => rfl
  | .interpolation .. => rfl
  | .group _ body _ => by
    funext rs
    simp only [Node.cleared, straight, straightAll_clearedAll around body]
  | .choice _ test body none _ => by
    funext rs
    simp only [Node.cleared, straight, straightAll_clearedAll around body]
  | .choice _ test body (some other) _ => by
    funext rs
    simp only [Node.cleared, straight, straightAll_clearedAll around body, straightAll_clearedAll around other]
  | .loop _ items item index body none _ => by
    funext rs
    simp only [Node.cleared, straight, straightAll_clearedAll around body]
  | .loop _ items item index body (some other) _ => by
    funext rs
    simp only [Node.cleared, straight, straightAll_clearedAll around body, straightAll_clearedAll around other]
  | .element _ tag attributes body _ => by
    funext rs
    simp only [Node.cleared, straight, newScope_clearedAll, straightAll_clearedAll _ body]

theorem straightAll_clearedAll (around : Surroundings) : ∀ nodes : List Node,
    straightAll eval options around (Node.clearedAll nodes) = straightAll eval options around nodes
  | [] => rfl
  | n :: r => by
    funext rs
    simp only [Node.clearedAll, straightAll, straight_cleared around n, straightAll_clearedAll around r]

end

/-- Nodes that differ in marks only are gone through in the same way. -/
theorem straightAll_congr (around : Surroundings) {nodes nodes' : List Node}
    (h : Node.clearedAll nodes = Node.clearedAll nodes') :
    straightAll eval options around nodes = straightAll eval options around nodes' := by
  rw [← straightAll_clearedAll, h, straightAll_clearedAll]

end Pass
end PromptScript

/-! ## How many responses a document takes

Loops go over lists that are there before their first round, so the straight walk comes to an end whatever it is
answered: on any stream of responses it takes a number of them, one for each step that it executes, and looks at no
other. `Supplied` states this of a part of the walk, with one rule for each way to put parts together. -/
namespace PromptScript

/-- The first responses of a stream. -/
def Replies.first (stream : Nat → List Content) (count : Nat) : Replies := (List.range count).map stream

theorem Replies.first_add (stream : Nat → List Content) (m n : Nat) :
    first stream (m + n) = first stream m ++ first (fun i => stream (m + i)) n := by
  simp only [first, List.range_add, List.map_append, List.map_map, Function.comp_def]

theorem Replies.length_first (stream : Nat → List Content) (count : Nat) : (first stream count).length = count := by
  rw [first, List.length_map, List.length_range]

namespace Pass

variable {σ α γ : Type}

/-- What a part of the straight walk gives that is left with some responses, or fails. -/
def ended (x : Except Fault Unit) (rs : Replies) : Except Fault (Replies × Flow) := x.map fun _ => (rs, .goesOn)

/-- From a state a part of the straight walk takes so many responses of a stream and no more, and goes on to its end
or fails. Within a step it takes none. -/
def SuppliedAt (inStep : Bool) (part : Replies → Pass σ (Replies × Flow)) (s : PassState σ)
    (stream : Nat → List Content) : Prop :=
  ∃ count x t, (inStep = true → count = 0) ∧
    ∀ rs, (part (Replies.first stream count ++ rs)).result s = (ended x rs, t)

/-- A part takes a number of responses from any state and of any stream. -/
def Supplied (inStep : Bool) (part : Replies → Pass σ (Replies × Flow)) : Prop :=
  ∀ s stream, SuppliedAt inStep part s stream

section Rules

variable {inStep : Bool} {part : Replies → Pass σ (Replies × Flow)} {s : PassState σ} {stream : Nat → List Content}

/-- What fails before it looks at a response takes none. -/
theorem suppliedAt_of_error (fault : Fault) (t : PassState σ)
    (fails : ∀ rs, (part rs).result s = (.error fault, t)) : SuppliedAt inStep part s stream :=
  ⟨0, .error fault, t, fun _ => rfl, fails⟩

theorem supplied_pure : Supplied inStep (fun rs => (return (rs, .goesOn) : Pass σ (Replies × Flow))) :=
  fun s _ => ⟨0, .ok (), s, fun _ => rfl, fun _ => rfl⟩

/-- What comes first and looks at no response makes no difference. -/
theorem suppliedAt_bind {head : Pass σ γ} {rest : γ → Replies → Pass σ (Replies × Flow)}
    (h : ∀ a t, Runs head s a t → SuppliedAt inStep (rest a) t stream) :
    SuppliedAt inStep (fun rs => head >>= fun a => rest a rs) s stream := by
  cases first : head.result s with
  | mk x s' =>
    cases x with
    | error fault =>
      refine suppliedAt_of_error fault s' fun rs => ?_
      rw [result_bind, first]
    | ok a =>
      obtain ⟨count, x, t, none, ends⟩ := h a s' first
      refine ⟨count, x, t, none, fun rs => ?_⟩
      rw [Runs.result_bind first]
      exact ends rs

theorem supplied_bind {head : Pass σ γ} {rest : γ → Replies → Pass σ (Replies × Flow)}
    (h : ∀ a, Supplied inStep (rest a)) : Supplied inStep fun rs => head >>= fun a => rest a rs :=
  fun _ _ => suppliedAt_bind fun a t _ => h a t _

/-- Two parts take what the first takes and then what the second takes. -/
theorem Supplied.goingOn {rest : Replies → Pass σ (Replies × Flow)} (first : Supplied inStep part)
    (last : Supplied inStep rest) : Supplied inStep fun rs => goingOn (part rs) id rest := by
  intro s stream
  obtain ⟨count, x, s', none, ends⟩ := first s stream
  cases x with
  | error fault =>
    refine ⟨count, .error fault, s', none, fun rs => ?_⟩
    unfold Pass.goingOn
    rw [result_bind, ends]
    rfl
  | ok u =>
    obtain ⟨count', x', t, none', ends'⟩ := last s' fun i => stream (count + i)
    refine ⟨count + count', x', t, fun inside => ?_, fun rs => ?_⟩
    · rw [none inside, none' inside]
    · rw [Replies.first_add, List.append_assoc]
      rw [Runs.result_goingOn (ends (Replies.first (fun i => stream (count + i)) count' ++ rs))]
      exact ends' rs

theorem Supplied.closing {close : Pass σ Unit} (h : Supplied inStep part) :
    Supplied inStep fun rs => closing (part rs) close :=
  h.goingOn (supplied_bind fun _ => supplied_pure)

theorem Supplied.within {table : Option Pointers} (h : Supplied inStep part) :
    Supplied inStep fun rs => within table (part rs) := by
  intro s stream
  obtain ⟨count, x, t, none, ends⟩ := h (s.withTable (table.getD s.table)) stream
  refine ⟨count, x, if x matches .ok _ then t.withTable s.table else t, none, fun rs => ?_⟩
  unfold Pass.within Pass.into
  rw [result_bind, result_inView, ends]
  cases x <;> rfl

theorem Supplied.enclosed {scope : Scope} (h : Supplied inStep part) :
    Supplied inStep fun rs => enclosed scope (part rs) := by
  intro s stream
  obtain ⟨count, x, t, none, ends⟩ := h (s.withScope scope) stream
  refine ⟨count, x, if x matches .ok _ then t.withScope s.machine.scope else t, none, fun rs => ?_⟩
  unfold Pass.enclosed Pass.into
  rw [result_bind, result_inScope, ends]
  cases x <;> rfl

/-- The rounds of a loop take what each of them takes: there are as many as the list has items. -/
theorem Supplied.rounds {item : Binding} {index : Option Binding} (h : Supplied inStep part) (items : List Value)
    (n : Nat) : Supplied inStep (straightRounds item index part items n) := by
  induction items generalizing n with
  | nil => exact supplied_pure
  | cons v items ih => exact (supplied_bind fun _ => h).within.goingOn (ih (n + 1))

/-- The end of a step takes the first response there is. -/
theorem supplied_takeReply (span : Span) (head : StepHead) :
    Supplied false (takeReply span head : Replies → Pass σ (Replies × Flow)) := by
  intro s stream
  obtain ⟨x, t, same⟩ : ∃ x t, (closeStep span head (stream 0) : Pass σ Unit).result s = (x, t) := ⟨_, _, rfl⟩
  refine ⟨1, x, t, nofun, fun rs => ?_⟩
  show (closeStep span head (stream 0) >>= fun _ => return (rs, Flow.goesOn)).result s = _
  rw [result_bind, same]
  cases x <;> rfl

variable (options : Options)

/-- A step takes one response. There is no step in a step, so its body takes none. -/
theorem Supplied.step {around : Surroundings} {span : Span} {tags : List Attribute} {attributes : Attributes}
    (h : Supplied true part) :
    Supplied around.inStep (straightStep options around span tags attributes part) := by
  intro s stream
  by_cases inside : around.inStep = true
  · -- The step is reported before it looks at its responses.
    exact suppliedAt_bind fun head t opened => absurd opened (not_runs_openStep inside)
  · rw [Bool.not_eq_true] at inside
    rw [inside]
    refine suppliedAt_bind fun head s' _ => ?_
    obtain ⟨count, x, s'', none, ends⟩ := h s' stream
    obtain rfl := none rfl
    cases x with
    | error fault =>
      refine suppliedAt_of_error fault s'' fun rs => ?_
      rw [result_bind, show (part rs).result s' = (.error fault, s'') from ends rs]
    | ok u =>
      -- What the body leaves over is what it was given: none of the responses are its own.
      have goes : ∀ rs, Runs (part rs) s' (rs, .goesOn) s'' := ends
      obtain ⟨count, x, t, none, ends'⟩ : SuppliedAt false (fun rs => do
          leaveSettings head
          flushContent options
          takeReply span head rs) s'' stream :=
        suppliedAt_bind fun _ _ _ => suppliedAt_bind fun _ _ _ => supplied_takeReply span head _ _
      refine ⟨count, x, t, none, fun rs => ?_⟩
      rw [(goes _).result_bind]
      exact ends' rs

end Rules

/-! ### Documents -/

variable (eval : Evaluator σ) (options : Options)

mutual

theorem supplied_straight (around : Surroundings) : ∀ n : Node,
    Supplied around.inStep (straight eval options around n)
  | .text .. => supplied_bind fun _ => supplied_pure
  | .comment .. => supplied_pure
  | .config .. => supplied_bind fun _ => supplied_pure
  | .interpolation .. => supplied_bind fun _ => supplied_pure
  | .group _ body _ => supplied_straightAll around body
  | .choice _ test body none _ => by
    refine supplied_bind fun holds => ?_
    by_cases taken : holds.isTruthy = true
    · simp only [taken, if_true]
      exact (supplied_straightAll around body).within
    · simp only [taken]
      exact supplied_pure
  | .choice _ test body (some other) _ => by
    refine supplied_bind fun holds => ?_
    by_cases taken : holds.isTruthy = true
    · simp only [taken, if_true]
      exact (supplied_straightAll around body).within
    · simp only [taken]
      exact (supplied_straightAll around other).within
  | .loop _ items _ _ body none _ =>
    supplied_bind fun _ => supplied_bind fun vs => (supplied_straightAll around body).rounds vs 0
  | .loop _ items _ _ body (some other) _ => by
    refine supplied_bind fun v => supplied_bind fun vs => ?_
    cases vs with
    | nil => exact (supplied_straightAll around other).within
    | cons v vs => exact (supplied_straightAll around body).rounds (v :: vs) 0
  | .element span tag attributes body _ => by
    refine supplied_bind fun _ => supplied_bind fun values => ?_
    cases tag with
    | content kind => exact supplied_bind fun _ => (supplied_straightAll { around with inContent := true } body).closing
    | message role => exact supplied_bind fun _ => (supplied_straightAll { around with inMessage := true } body).closing
    | scope => exact supplied_bind fun _ => (supplied_straightAll around body).enclosed
    | step => exact (supplied_straightAll { around with inStep := true } body).step options
    | reference => exact fun s _ => suppliedAt_of_error _ _ fun _ => result_fail

theorem supplied_straightAll (around : Surroundings) : ∀ nodes : List Node,
    Supplied around.inStep (straightAll eval options around nodes)
  | [] => supplied_pure
  | n :: r => (supplied_straight around n).goingOn (supplied_straightAll around r)

end

end Pass

namespace Document

variable {σ : Type} (eval : Evaluator σ) (options : Options)

/-- **The straight walk ends.** It takes a number of responses of any stream, and comes to the end of the document or
fails. -/
theorem supplied_straight (d : Document) : Pass.Supplied false (d.straight eval options) := by
  intro s stream
  obtain ⟨count, x, t, none, ends⟩ :=
    Pass.Supplied.within (Pass.supplied_straightAll eval options {} d.body) s stream
  cases x with
  | error fault =>
    refine ⟨count, .error fault, t, none, fun rs => ?_⟩
    unfold straight
    rw [Pass.result_bind, ends]
    rfl
  | ok u =>
    obtain ⟨y, t', flushed⟩ : ∃ y t', (Pass.flushContent options : Pass σ Unit).result t = (y, t') := ⟨_, _, rfl⟩
    refine ⟨count, y, t', none, fun rs => ?_⟩
    unfold straight
    rw [Pass.Runs.result_bind (ends rs), Pass.result_bind, flushed]
    cases y <;> rfl

/-- The state in which the straight walk reaches the last of so many steps of a stream of responses, with one response
too few to go on from there. Without a step it is the state at the start. -/
def Reaches (d : Document) (s : PassState σ) (stream : Nat → List Content) : Nat → PassState σ → Prop
  | 0, t => t = s
  | n + 1, t => Pass.Runs (d.straight eval options (Replies.first stream n)) s ([], .stops) t

/-- Going straight through a document executes so many steps of a stream of responses: it reaches each of them, and
with a response for each it comes to the end, where it leaves all responses that follow. `before` is where it reaches
the last step, and `after` the end. -/
structure Executes (d : Document) (s : PassState σ) (stream : Nat → List Content) (count : Nat)
    (before after : PassState σ) : Prop where
  each : ∀ n ≤ count, ∃ t, d.Reaches eval options s stream n t
  reaches : d.Reaches eval options s stream count before
  ends : ∀ rs, Pass.Runs (d.straight eval options (Replies.first stream count ++ rs)) s (rs, .goesOn) after

end Document
end PromptScript
