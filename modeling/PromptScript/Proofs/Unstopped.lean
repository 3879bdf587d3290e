import PromptScript.Proofs.RejoinedWalks
import PromptScript.Proofs.Uses

/-! # Where no pass stops

Only at a step does a pass stop. What follows nodes without steps is therefore reached, and nodes are visited as if those
before them and those after them were visited on their own. -/
namespace PromptScript

variable {σ : Type}

/-! ## Nodes in which no pass stops -/

namespace Node

mutual

/-- Whether there is a tag in the node. -/
def tagged : Node → Bool
  | text _ _ _ | comment _ _ _ | config _ _ _ | interpolation _ _ _ => false
  | choice _ _ body none _ | loop _ _ _ _ body none _ | group _ body _ => taggedAll body
  | choice _ _ body (some other) _ | loop _ _ _ _ body (some other) _ => taggedAll body || taggedAll other
  | element _ _ _ _ _ => true

def taggedAll : List Node → Bool
  | [] => false
  | n :: r => tagged n || taggedAll r

end

mutual

/-- Whether there is a step in the node. -/
def stepped : Node → Bool
  | text _ _ _ | comment _ _ _ | config _ _ _ | interpolation _ _ _ => false
  | choice _ _ body none _ | loop _ _ _ _ body none _ | group _ body _ => steppedAll body
  | choice _ _ body (some other) _ | loop _ _ _ _ body (some other) _ => steppedAll body || steppedAll other
  | element _ tag _ body _ => tag = .step || steppedAll body

def steppedAll : List Node → Bool
  | [] => false
  | n :: r => stepped n || steppedAll r

end

mutual

theorem stepped_of_untagged : ∀ n : Node, n.tagged = false → n.stepped = false
  | text .., _ | comment .., _ | config .., _ | interpolation .., _ => rfl
  | choice _ _ body none _, bare | loop _ _ _ _ body none _, bare | group _ body _, bare => steppedAll_of_untagged body bare
  | choice _ _ body (some other) _, bare | loop _ _ _ _ body (some other) _, bare => by
    obtain ⟨first, second⟩ := Bool.or_eq_false_iff.mp bare
    exact Bool.or_eq_false_iff.mpr ⟨steppedAll_of_untagged body first, steppedAll_of_untagged other second⟩
  | element .., bare => nomatch bare

theorem steppedAll_of_untagged : ∀ nodes : List Node, taggedAll nodes = false → steppedAll nodes = false
  | [], _ => rfl
  | n :: r, bare => by
    obtain ⟨first, rest⟩ := Bool.or_eq_false_iff.mp bare
    exact Bool.or_eq_false_iff.mpr ⟨stepped_of_untagged n first, steppedAll_of_untagged r rest⟩

end

end Node

namespace Pass

variable {α β : Type}

/-- A part that never stops. -/
def GoesOn (part : Pass σ (α × Flow)) : Prop := Yields (fun r => r.2 = .goesOn) part

namespace GoesOn

variable {part : Pass σ (α × Flow)}

theorem pure (a : α) : GoesOn (Pure.pure (a, .goesOn) : Pass σ (α × Flow)) := yields_pure rfl

theorem after {first : Pass σ β} {rest : β → Pass σ (α × Flow)} (h : ∀ b, GoesOn (rest b)) : GoesOn (first >>= rest) :=
  Yields.bind (fun _ _ _ _ => trivial : Yields (fun _ => True) first) fun b _ => h b

theorem into {f : α → Flow → β} (h : GoesOn part) : GoesOn (Pass.into f part) :=
  Yields.bind h fun _ on => yields_pure on

theorem goingOn {left : α → β} {rest : α → Pass σ (β × Flow)} (h : GoesOn part) (later : ∀ a, GoesOn (rest a)) :
    GoesOn (Pass.goingOn part left rest) :=
  Yields.bind h fun (a, flow) on => by
    obtain rfl : flow = .goesOn := on
    exact later a

theorem inView {table : Option Pointers} (h : GoesOn part) : GoesOn (Pass.inView table part) :=
  after fun _ => after fun _ => Yields.bind h fun _ on => after fun _ => after fun _ => yields_pure on

theorem inScope {scope : Scope} (h : GoesOn part) : GoesOn (Pass.inScope scope part) :=
  after fun _ => after fun _ => Yields.bind h fun _ on => after fun _ => after fun _ => yields_pure on

theorem closing {close : Pass σ Unit} (h : GoesOn part) : GoesOn (Pass.closing part close) :=
  h.goingOn fun _ => after fun _ => pure _

theorem rounds {item : Binding} {index : Option Binding} {again : Pass σ (List Node × Flow)} (h : GoesOn again)
    (vs : List Value) (n : Nat) (body : List Node) (round : Option Nat) :
    GoesOn (Pass.rounds item index again vs n body round) := by
  induction vs generalizing n body round with
  | nil => exact pure _
  | cons v vs ih => exact goingOn (inView (after fun _ => h)) fun _ => ih _ _ _

theorem roundsFrom {p : Progress} {item : Binding} {index : Option Binding} {vs : List Value} {body : List Node}
    {resume again : Pass σ (List Node × Flow)} (hr : GoesOn resume) (h : GoesOn again) :
    GoesOn (Pass.roundsFrom p item index vs body resume again) := by
  unfold Pass.roundsFrom
  dsimp only
  split
  · exact goingOn (inView hr) fun _ => rounds h _ _ _ _
  · exact rounds h _ _ _ _

variable (eval : Evaluator σ) (options : Options)

mutual

/-- No pass stops in a node without steps. -/
theorem walk (around : Surroundings) (anew : Bool) : ∀ n : Node, n.stepped = false →
    GoesOn (Pass.walk eval options around anew n)
  | .text .., _ | .config .., _ | .interpolation .., _ => by
    unfold Pass.walk
    exact after fun _ => pure _
  | .comment .., _ => by
    unfold Pass.walk
    exact pure _
  | .group _ body _, bare => by
    unfold Pass.walk
    exact (walkAll around anew body bare).into
  | .choice _ _ body none _, bare => by
    unfold Pass.walk
    dsimp only
    refine after fun holds => ?_
    split
    · exact (walkAll around anew body bare).inView.into
    · exact pure _
  | .choice _ _ body (some other) _, bare => by
    obtain ⟨bare, bare'⟩ := Bool.or_eq_false_iff.mp bare
    unfold Pass.walk
    dsimp only
    refine after fun holds => ?_
    split
    · exact (walkAll around anew body bare).inView.into
    · exact (walkAll around anew other bare').inView.into
  | .loop _ _ _ _ body none _, bare => by
    unfold Pass.walk
    dsimp only
    exact after fun _ => after fun _ => (roundsFrom (walkAll around anew body bare) (walkAll around true body bare)).into
  | .loop _ _ _ _ body (some other) _, bare => by
    obtain ⟨bare, bare'⟩ := Bool.or_eq_false_iff.mp bare
    unfold Pass.walk
    dsimp only
    refine after fun _ => after fun vs => ?_
    cases vs with
    | nil => exact (walkAll around anew other bare').inView.into
    | cons => exact (roundsFrom (walkAll around anew body bare) (walkAll around true body bare)).into
  | .element _ tag _ body _, bare => by
    obtain ⟨other, bare⟩ := Bool.or_eq_false_iff.mp bare
    unfold Pass.walk
    refine after fun _ => after fun values => ?_
    cases tag with
    | content | message => exact into (after fun _ => closing (walkAll _ anew body bare))
    | scope => exact after fun inner => into (inScope (walkAll around anew body bare))
    | step => cases other
    | reference => exact fun _ _ _ ran => nomatch ran

theorem walkAll (around : Surroundings) (anew : Bool) : ∀ nodes : List Node, Node.steppedAll nodes = false →
    GoesOn (Pass.walkAll eval options around anew nodes)
  | [], _ => by
    unfold Pass.walkAll
    exact pure _
  | n :: r, bare => by
    obtain ⟨bare, bare'⟩ := Bool.or_eq_false_iff.mp bare
    unfold Pass.walkAll
    split
    · exact (walkAll around anew r bare').into
    · exact (walk around anew n bare).goingOn fun _ => (walkAll around anew r bare').into

end

end GoesOn

/-! ## Nodes after each other -/

variable (eval : Evaluator σ) (options : Options)

section Flow

variable {γ : Type} (part : Pass σ (α × Flow))

theorem into_goingOn (f : β → Flow → γ) (left : α → β) (rest : α → Pass σ (β × Flow)) :
    into f (goingOn part left rest) = goingOn part (fun a => f (left a) .stops) fun a => into f (rest a) := by
  unfold into goingOn
  rw [bind_assoc]
  congr 1
  funext ⟨a, flow⟩
  cases flow with
  | stops => rw [pure_bind]
  | goesOn => rfl

theorem goingOn_into (f : α → Flow → β) (left : β → γ) (rest : β → Pass σ (γ × Flow)) :
    goingOn (into f part) left rest = goingOn part (fun a => left (f a .stops)) fun a => rest (f a .goesOn) := by
  unfold into goingOn
  rw [bind_assoc]
  congr 1
  funext ⟨a, flow⟩
  rw [pure_bind]
  cases flow <;> rfl

theorem goingOn_goingOn (left : α → β) (rest : α → Pass σ (β × Flow)) (left' : β → γ) (rest' : β → Pass σ (γ × Flow)) :
    goingOn (goingOn part left rest) left' rest' = goingOn part (fun a => left' (left a)) fun a => goingOn (rest a) left' rest' := by
  unfold goingOn
  rw [bind_assoc]
  congr 1
  funext ⟨a, flow⟩
  cases flow with
  | stops => rw [pure_bind]
  | goesOn => rfl

end Flow

theorem untouched_append (anew : Bool) (nodes nodes' : List Node) :
    untouched anew (nodes ++ nodes') = untouched anew nodes ++ untouched anew nodes' := by
  cases anew with
  | false => rfl
  | true => exact Node.clearedAll_append nodes nodes'

/-- Nodes are visited after those before them, unless a pass stops in these. -/
theorem walkAll_append (around : Surroundings) (anew : Bool) (nodes nodes' : List Node) :
    walkAll eval options around anew (nodes ++ nodes') =
      goingOn (walkAll eval options around anew nodes) (fun r => r ++ untouched anew nodes')
        fun r => into (fun r' _ => r ++ r') (walkAll eval options around anew nodes') := by
  induction nodes with
  | nil =>
    show _ = goingOn (pure ([], .goesOn)) _ _
    unfold goingOn
    rw [pure_bind]
    exact (bind_pure _).symm
  | cons n r ih =>
    have later (n : Node) : into (fun r _ => n :: r) (walkAll eval options around anew (r ++ nodes')) =
        goingOn (into (fun r _ => n :: r) (walkAll eval options around anew r)) (fun r => r ++ untouched anew nodes')
          fun r => into (fun r' _ => r ++ r') (walkAll eval options around anew nodes') := by
      rw [ih, into_goingOn, goingOn_into]
      congr 1
      funext r
      rw [into_into]
      rfl
    rw [List.cons_append, walkAll, walkAll]
    split
    · exact later n
    · rw [goingOn_goingOn]
      congr 1
      · funext n
        rw [untouched_append]
        rfl
      · funext n
        exact later n.finished

end Pass
end PromptScript
