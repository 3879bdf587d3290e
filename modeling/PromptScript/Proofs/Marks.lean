import PromptScript.Proofs.Continuing
import PromptScript.Proofs.Uses

/-! # Passes change nothing but marks

Whatever a pass does and however it ends, the document it leaves is the one it was given, with other marks. -/
namespace PromptScript

variable {σ α β : Type} {good : α → Prop} {fine : β → Prop}

namespace Pass

/-- All that a part of a pass may leave is good, however the part ends. -/
def Leaves (good : α → Prop) (part : Pass σ (α × Flow)) : Prop := Yields (fun r => good r.1) part

namespace Leaves

theorem pure {a : α} {flow : Flow} (h : good a) : Leaves good (Pure.pure (a, flow) : Pass σ (α × Flow)) := yields_pure h

theorem fail (defect : Defect) (span : Span) : Leaves good (Pass.fail defect span : Pass σ (α × Flow)) :=
  fun _ _ _ ran => nomatch ran

theorem bind {part : Pass σ (α × Flow)} {rest : α × Flow → Pass σ (β × Flow)} (h : Leaves good part)
    (hr : ∀ a flow, good a → Leaves fine (rest (a, flow))) : Leaves fine (part >>= rest) :=
  Yields.bind h fun (a, flow) => hr a flow

/-- What comes before does not matter. -/
theorem after {part : Pass σ β} {rest : β → Pass σ (α × Flow)} (h : ∀ b, Leaves good (rest b)) :
    Leaves good (part >>= rest) :=
  Yields.bind (fun _ _ _ _ => trivial : Yields (fun _ => True) part) fun b _ => h b

theorem into {f : α → Flow → β} {part : Pass σ (α × Flow)} (h : Leaves good part)
    (more : ∀ a flow, good a → fine (f a flow)) : Leaves fine (Pass.into f part) :=
  h.bind fun a flow here => pure (more a flow here)

theorem goingOn {part : Pass σ (α × Flow)} {left : α → β} {rest : α → Pass σ (β × Flow)} (h : Leaves good part)
    (stop : ∀ a, good a → fine (left a)) (on : ∀ a, good a → Leaves fine (rest a)) :
    Leaves fine (Pass.goingOn part left rest) := by
  refine h.bind fun a flow here => ?_
  cases flow with
  | stops => exact pure (stop a here)
  | goesOn => exact on a here

theorem closing {part : Pass σ (α × Flow)} {close : Pass σ Unit} (h : Leaves good part) :
    Leaves good (Pass.closing part close) :=
  h.goingOn (fun _ => id) fun _ here => after fun _ => pure here

theorem inView {table : Option Pointers} {part : Pass σ (α × Flow)} (h : Leaves good part) :
    Leaves (fun a => good a.1) (Pass.inView table part) :=
  after fun _ => after fun _ => h.bind fun _ _ here => after fun _ => after fun _ => pure here

theorem inScope {scope : Scope} {part : Pass σ (α × Flow)} (h : Leaves good part) :
    Leaves (fun a => good a.1) (Pass.inScope scope part) :=
  after fun _ => after fun _ => h.bind fun _ _ here => after fun _ => after fun _ => pure here

variable {item : Binding} {index : Option Binding} {again : Pass σ (List Node × Flow)} {good : List Node → Prop}

theorem rounds (h : Leaves good again) (items : List Value) (n : Nat) {body : List Node} (round : Option Nat)
    (here : good body) : Leaves (fun r => good r.body) (Pass.rounds item index again items n body round) := by
  induction items generalizing n body round with
  | nil => exact pure here
  | cons v r ih =>
    exact goingOn (inView (after fun _ => h)) (fun _ => id) fun _ later => ih (n + 1) (some n) later

theorem roundsFrom {p : Progress} {items : List Value} {body : List Node} {resume : Pass σ (List Node × Flow)}
    (hr : Leaves good resume) (h : Leaves good again) (here : good body) :
    Leaves (fun r => good r.body) (Pass.roundsFrom p item index items body resume again) := by
  unfold Pass.roundsFrom
  dsimp only
  split
  · exact goingOn (inView hr) (fun _ => id) fun _ later => rounds h _ _ _ later
  · exact rounds h _ _ _ here

end Leaves

section Walk

variable (eval : Evaluator σ) (options : Options)

mutual

/-- **A visit of a node changes nothing but marks.** -/
theorem marks_walk (around : Surroundings) (anew : Bool) : ∀ n : Node,
    Leaves (fun n' => n'.cleared = n.cleared) (walk eval options around anew n)
  | .text _ _ _ => .after fun _ => .pure rfl
  | .comment _ _ _ => .pure rfl
  | .config _ _ _ => .after fun _ => .pure rfl
  | .interpolation _ _ _ => .after fun _ => .pure rfl
  | .group _ body _ => by
    unfold walk
    exact .into (marks_walkAll around anew body) fun _ _ same => by simp only [Node.cleared, same]
  | .choice _ _ body none _ => by
    unfold walk
    refine .after fun holds => ?_
    dsimp only
    split
    · exact .into (.inView (marks_walkAll around anew body)) fun _ _ same => by simp only [Node.cleared, same]
    · exact .pure (by simp only [Node.cleared, Node.clearedAll_untouched])
  | .choice _ _ body (some other) _ => by
    unfold walk
    refine .after fun holds => ?_
    dsimp only
    split
    · exact .into (.inView (marks_walkAll around anew body)) fun _ _ same => by
        simp only [Node.cleared, same, Node.clearedAll_untouched]
    · exact .into (.inView (marks_walkAll around anew other)) fun _ _ same => by
        simp only [Node.cleared, same, Node.clearedAll_untouched]
  | .loop _ _ _ _ body none _ => by
    unfold walk
    refine .after fun v => .after fun items => ?_
    exact .into (.roundsFrom (marks_walkAll around anew body) (marks_walkAll around true body)
      (Node.clearedAll_untouched anew body)) fun _ _ same => by simp only [Node.cleared, same]
  | .loop _ _ _ _ body (some other) _ => by
    unfold walk
    refine .after fun v => .after fun items => ?_
    cases items with
    | nil =>
      exact .into (.inView (marks_walkAll around anew other)) fun _ _ same => by
        simp only [Node.cleared, same, Node.clearedAll_untouched]
    | cons =>
      exact .into (.roundsFrom (marks_walkAll around anew body) (marks_walkAll around true body)
        (Node.clearedAll_untouched anew body)) fun _ _ same => by
          simp only [Node.cleared, same, Node.clearedAll_untouched]
  | .element span tag attributes body _ => by
    unfold walk
    refine .after fun _ => .after fun values => ?_
    cases tag with
    | content | message =>
      exact .into (.after fun _ => .closing (marks_walkAll _ anew body)) fun _ _ same => by
        simp only [Node.cleared, same]
    | scope =>
      exact .after fun inner => .into (.inScope (marks_walkAll around anew body)) fun _ _ same => by
        simp only [Node.cleared, same]
    | step =>
      have inside : Leaves (fun visited => Node.clearedAll (visited.getD (untouched anew body)) = Node.clearedAll body)
          (step options around span attributes values (walkAll eval options { around with inStep := true } anew body)) := by
        refine .after fun head => .after fun response => ?_
        cases response with
        | none => exact (marks_walkAll _ anew body).bind fun _ _ same => .after fun _ => .pure same
        | some => exact .after fun _ => .after fun _ => .pure (Node.clearedAll_untouched anew body)
      exact inside.into fun _ _ same => by simp only [Node.cleared, same]
    | reference => exact .fail _ _

/-- A visit of nodes changes nothing but marks. -/
theorem marks_walkAll (around : Surroundings) (anew : Bool) : ∀ nodes : List Node,
    Leaves (fun nodes' => Node.clearedAll nodes' = Node.clearedAll nodes) (walkAll eval options around anew nodes)
  | [] => .pure rfl
  | n :: r => by
    have later := marks_walkAll around anew r
    unfold walkAll
    split
    · exact .into later fun _ _ same => by simp only [Node.clearedAll, same]
    · refine .goingOn (marks_walk around anew n) (fun n' same => ?_) fun n' same => ?_
      · simp only [Node.clearedAll, same, Node.clearedAll_untouched]
      · exact .into later fun _ _ same' => by simp only [Node.clearedAll, Node.cleared_finished, same, same']

end

end Walk
end Pass

/-- A pass over a document changes nothing but marks. -/
theorem Document.marks_visit {eval : Evaluator σ} {options : Options} (d : Document) :
    Pass.Leaves (fun d' => Node.clearedAll d'.body = Node.clearedAll d.body) (d.visit eval options) := by
  unfold Document.visit
  refine (Pass.Leaves.inView (Pass.marks_walkAll eval options {} false d.body)).bind fun _ _ same => ?_
  exact .after fun _ => .pure same

theorem Document.marks_pass {eval : Evaluator σ} {options : Options} {d : Document} {response : Option (List Content)}
    {m m' : Machine σ} {outcome : Outcome} (ran : d.pass eval options response m = (.ok outcome, m')) :
    Node.clearedAll outcome.document.body = Node.clearedAll d.body := by
  unfold Document.pass at ran
  generalize visited : (d.visit eval options).run.run ⟨m, #[], [], [], response, none, none⟩ = x at ran
  obtain ⟨result, s⟩ := x
  cases result with
  | error fault => cases ran
  | ok a =>
    cases ran
    exact d.marks_visit _ _ _ visited

end PromptScript
