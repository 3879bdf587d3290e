import PromptScript.Proofs.Lossless
import PromptScript.Proofs.Persistence
import PromptScript.Proofs.RenamedSteps

/-! # Steps that fail

A caller holds a chain, and puts the one that a step gives in its place; a step that fails gives none. All that it
leaves behind is in the world: identities of built-in members that are given away. The chain after a failed step and
the same chain before it thus differ in no more than the identities of members that are made from there on, and no
step looks at these. -/
namespace PromptScript

/-! ## Stored values -/

mutual

theorem Value.renamed_ofStored (f : Nat → Nat) : ∀ j : Json, renamed f (ofStored j) = ofStored j
  | .obj fields => by
    unfold ofStored
    split
    · rfl
    · rw [renamed_object, renamed_fieldsOfStored f fields]
  | .arr items => by rw [ofStored, renamed_array, renamed_itemsOfStored f items]
  | .null | .bool _ | .int _ | .float _ | .str _ => rfl

theorem Value.renamed_itemsOfStored (f : Nat → Nat) : ∀ items : List Json,
    renamed f (itemsOfStored items) = itemsOfStored items
  | [] => rfl
  | j :: r => by rw [itemsOfStored, renamed_cons, renamed_ofStored f j, renamed_itemsOfStored f r]

theorem Value.renamed_fieldsOfStored (f : Nat → Nat) : ∀ fields : List (String × Json),
    renamed f (fieldsOfStored fields) = fieldsOfStored fields
  | [] => rfl
  | (k, j) :: r => by
    rw [fieldsOfStored, renamed_cons, renamed_mk, renamed_string, renamed_ofStored f j, renamed_fieldsOfStored f r]

end

theorem Stash.renamed_restored (f : Nat → Nat) (stash : Stash) : renamed f stash.restored = stash.restored := by
  show Array.map (renamed f) (Array.map Value.restored stash) = Array.map Value.restored stash
  rw [Array.map_map]
  exact Array.map_congr_left fun v _ => Value.renamed_ofStored f v.toStored

theorem Progress.renamed_restored (f : Nat → Nat) (p : Option Progress) :
    renamed f (p.map restored) = p.map restored := by
  obtain _ | ⟨done, memo, pointers, round, stash⟩ := p
  · rfl
  · show some (Progress.mk _ (renamed f (memo.map Value.restored)) _ _ (renamed f (stash.map Stash.restored))) = _
    have memo : renamed f (memo.map Value.restored) = memo.map Value.restored := by
      cases memo with
      | none => rfl
      | some v => exact congrArg some (Value.renamed_ofStored f v.toStored)
    have stash : renamed f (stash.map Stash.restored) = stash.map Stash.restored := by
      cases stash with
      | none => rfl
      | some s => exact congrArg some (s.renamed_restored f)
    rw [memo, stash]
    rfl

namespace Node

mutual

/-- What is read back holds no identities. -/
theorem renamed_restored (f : Nat → Nat) : ∀ n : Node, renamed f n.restored = n.restored
  | text .. | comment .. | config .. | interpolation .. => by
    unfold restored
    exact congrArg _ (Progress.renamed_restored f _)
  | choice _ _ body none p => by
    rw [restored, renamed_choice, renamed_none, renamed_restoredAll f body, Progress.renamed_restored]
  | choice _ _ body (some other) p => by
    rw [restored, renamed_choice, renamed_some, renamed_restoredAll f body, renamed_restoredAll f other,
      Progress.renamed_restored]
  | loop _ _ _ _ body none p => by
    rw [restored, renamed_loop, renamed_none, renamed_restoredAll f body, Progress.renamed_restored]
  | loop _ _ _ _ body (some other) p => by
    rw [restored, renamed_loop, renamed_some, renamed_restoredAll f body, renamed_restoredAll f other,
      Progress.renamed_restored]
  | element _ _ _ body p => by
    rw [restored, renamed_element, renamed_restoredAll f body, Progress.renamed_restored]
  | group _ body p => by rw [restored, renamed_group, renamed_restoredAll f body, Progress.renamed_restored]

theorem renamed_restoredAll (f : Nat → Nat) : ∀ nodes : List Node, renamed f (restoredAll nodes) = restoredAll nodes
  | [] => rfl
  | n :: r => by rw [restoredAll, renamed_cons, renamed_restored f n, renamed_restoredAll f r]

end

end Node
namespace Expr

mutual

theorem literals_restored : ∀ e : Expr, e.restored.literals = e.literals.map Value.settled
  | literal .. | identifier .. => rfl
  | array _ items | sequence _ items => literals_restoredItems items
  | object _ fields => literals_restoredFields fields
  | unary _ _ e | update _ _ _ e | chain _ e => literals_restored e
  | binary _ _ a b | logical _ _ a b | assignment _ _ a b => by
    rw [restored, literals, literals, List.map_append, literals_restored a, literals_restored b]
  | member _ base key _ => by
    rw [restored, literals, literals, List.map_append, literals_restored base, literals_restoredKey key]
  | conditional _ test a b => by
    rw [restored, literals, literals, List.map_append, List.map_append, literals_restored test, literals_restored a,
      literals_restored b]
  | call _ callee arguments _ => by
    rw [restored, literals, literals, List.map_append, literals_restored callee, literals_restoredItems arguments]

theorem literals_restoredItems : ∀ es : List Expr,
    literalsOfItems (restoredItems es) = (literalsOfItems es).map Value.settled
  | [] => rfl
  | e :: r => by
    rw [restoredItems, literalsOfItems, literalsOfItems, List.map_append, literals_restored e, literals_restoredItems r]

theorem literals_restoredFields : ∀ fields : List (Key × Expr),
    literalsOfFields (restoredFields fields) = (literalsOfFields fields).map Value.settled
  | [] => rfl
  | (key, e) :: r => by
    rw [restoredFields, literalsOfFields, literalsOfFields, List.map_append, List.map_append, literals_restoredKey key,
      literals_restored e, literals_restoredFields r]

theorem literals_restoredKey : ∀ key : Key, literalsOfKey (restoredKey key) = (literalsOfKey key).map Value.settled
  | .named _ => rfl
  | .computed e => literals_restored e

end

theorem bare_settled (v : Value) : Bare v.settled := fun _ => Value.renamed_ofJson _

theorem bare_of_isSingle {v : Value} (single : v.isSingle = true) : Bare v := by
  intro g
  cases v with
  | array | object | date | callable | method => cases single
  | _ => rfl

end Expr

namespace Node

mutual

theorem literals_restored : ∀ n : Node, n.restored.literals = n.literals.map Value.settled
  | text .. | comment .. | config .. => rfl
  | interpolation _ e _ => e.literals_restored
  | choice _ test body none _ => by
    rw [restored, literals, literals, List.map_append, test.literals_restored, literals_restoredAll body]
  | choice _ test body (some other) _ => by
    rw [restored, literals, literals, List.map_append, List.map_append, test.literals_restored,
      literals_restoredAll body, literals_restoredAll other]
  | loop _ items _ _ body none _ => by
    rw [restored, literals, literals, List.map_append, items.literals_restored, literals_restoredAll body]
  | loop _ items _ _ body (some other) _ => by
    rw [restored, literals, literals, List.map_append, List.map_append, items.literals_restored,
      literals_restoredAll body, literals_restoredAll other]
  | element _ _ attributes body _ => by
    rw [restored, literals, literals, List.map_append, literals_restoredAttributes attributes,
      literals_restoredAll body]
  | group _ body _ => literals_restoredAll body

theorem literals_restoredAll : ∀ nodes : List Node,
    literalsOfAll (restoredAll nodes) = (literalsOfAll nodes).map Value.settled
  | [] => rfl
  | n :: r => by
    rw [restoredAll, literalsOfAll, literalsOfAll, List.map_append, literals_restored n, literals_restoredAll r]

theorem literals_restoredAttributes : ∀ attributes : List Attribute,
    literalsOfAttributes (restoredAttributes attributes) = (literalsOfAttributes attributes).map Value.settled
  | [] => rfl
  | .mk _ _ .flag :: r => literals_restoredAttributes r
  | .mk _ _ (.nodes parts) :: r => by
    rw [restoredAttributes, literalsOfAttributes, literalsOfAttributes, List.map_append, literals_restoredAll parts,
      literals_restoredAttributes r]

end

end Node

/-! ## Chains in the hands of a caller -/

variable {σ : Type} {bound : Nat}

/-- The renaming that changes nothing. -/
def Renaming.same (home : σ) : Renaming σ bound := ⟨id, Function.injective_id, fun _ _ => rfl, home⟩

namespace Chain

/-- A chain that a caller holds, and the world. -/
structure Held (σ : Type) where
  chain : Chain
  world : World σ

namespace Held

/-- Makes a step of the chain that is held. Only a chain that the step gives takes its place. -/
def call (eval : Evaluator σ) (response : Option Response) (held : Held σ) : Except ChainFault StepResult × Held σ :=
  match held.chain.step eval response held.world with
  | (.error fault, world) => (.error fault, { held with world })
  | (.ok (chain, result), world) => (.ok result, ⟨chain, world⟩)

/-- What is held after calls of which some may have failed, and after the chain was stored and restored in between. -/
inductive Reached (eval : Evaluator σ) (first : Held σ) : Held σ → Prop
  | start : Reached eval first first
  | call {held : Held σ} (reached : Reached eval first held) (response : Option Response) :
    Reached eval first (held.call eval response).2
  | restored {held : Held σ} {chain : Chain} (reached : Reached eval first held)
    (back : ofJson held.chain.toJson = .ok chain) : Reached eval first { held with chain }

variable {host : Host σ} {r : Renaming σ bound}

/-- Two callers hold chains that differ in identities alone. -/
structure Moved (r : Renaming σ bound) (held other : Held σ) : Prop where
  chain : Chain.Moved r held.world.fresh held.chain other.chain
  world : held.world.Moved r other.world

theorem alike_call (stateless : host.Stateless bound) {held other : Held σ} (moved : held.Moved r other)
    (response : Option Response) :
    (other.call (Expr.eval host) response).1 = (held.call (Expr.eval host) response).1 ∧
      (held.call (Expr.eval host) response).2.Moved r (other.call (Expr.eval host) response).2 ∧
      held.world.fresh ≤ (held.call (Expr.eval host) response).2.world.fresh := by
  obtain ⟨results, worlds, le⟩ := alike_step stateless moved.world moved.chain response
  unfold call
  generalize held.chain.step (Expr.eval host) response held.world = x at results worlds le ⊢
  generalize other.chain.step (Expr.eval host) response other.world = y at results worlds ⊢
  obtain ⟨x, w⟩ := x
  obtain ⟨y, v⟩ := y
  cases results with
  | error fault =>
    have chains := { moved.chain with
      underDocument := moved.chain.underDocument.mono le, underScope := moved.chain.underScope.mono le }
    exact ⟨rfl, ⟨chains, worlds⟩, le⟩
  | ok chains result => exact ⟨rfl, ⟨chains, worlds⟩, le⟩

/-- What holds of all that a caller holds: identities in it are given, and literals have none. -/
structure Given (bound : Nat) (home : σ) (held : Held σ) : Prop where
  document : Under held.world.fresh held.chain.document
  scope : Under held.world.fresh held.chain.scope
  bare : ∀ v ∈ held.chain.document.literals, Expr.Bare v
  host : held.world.host = home
  known : bound ≤ held.world.fresh

/-- What is held differs in identities alone from the same chain in a world that gives other ones. -/
theorem Given.moved {held : Held σ} (given : held.Given bound r.home) {world : World σ} (host : world.host = r.home)
    (same : ∀ i < held.world.fresh, r.map i = i) (later : ∀ i, r.map (held.world.fresh + i) = world.fresh + i) :
    held.Moved r { held with world } where
  chain :=
    { document := (given.document r.map r.one same).symm
      scope := (given.scope r.map r.one same).symm
      underDocument := given.document
      underScope := given.scope
      bare := given.bare
      history := rfl, source := rfl, options := rfl, format := rfl, started := rfl, completed := rfl, config := rfl
      isolated := rfl }
  world := ⟨given.host, host, later, given.known⟩

theorem Given.same {home : σ} {held : Held σ} (given : held.Given bound home) :
    held.Moved (Renaming.same home : Renaming σ bound) held :=
  Given.moved (r := Renaming.same home) given given.host (fun _ _ => rfl) fun _ => rfl

theorem Given.of_moved {home : σ} {held : Held σ} (moved : held.Moved (Renaming.same home : Renaming σ bound) held) :
    held.Given bound home :=
  ⟨moved.chain.underDocument, moved.chain.underScope, moved.chain.bare, moved.world.host, moved.world.known⟩

theorem Given.call (stateless : host.Stateless bound) {home : σ} {held : Held σ} (given : held.Given bound home)
    (response : Option Response) : (held.call (Expr.eval host) response).2.Given bound home :=
  .of_moved (alike_call stateless given.same response).2.1

/-- A chain that is read back holds no identities at all. -/
theorem Given.restored {home : σ} {held : Held σ} {chain : Chain} (given : held.Given bound home)
    (back : ofJson held.chain.toJson = .ok chain) : Given bound home { held with chain } := by
  obtain ⟨document, scope⟩ : chain.document = held.chain.document.restored ∧
      chain.scope = ⟨held.chain.scope.stash.restored, held.chain.scope.pointers⟩ := by
    unfold ofJson at back
    rw [read?_toJson] at back
    generalize (held.chain.history.map Message.toJson).mapM Message.ofJson? = history at back
    cases history with
    | none => cases back
    | some history =>
      simp only [Option.map_some, Format.ofName?_name] at back
      cases back
      exact ⟨rfl, rfl⟩
  refine ⟨?_, ?_, ?_, given.host, given.known⟩
  · show Under _ chain.document
    rw [document]
    exact Document.under_iff.mpr
      ⟨fun f _ _ => Node.renamed_restoredAll f _, fun f _ _ => Progress.renamed_restored f _⟩
  · show Under _ chain.scope
    rw [scope]
    exact fun f _ _ => congrArg (Scope.mk · _) (Stash.renamed_restored f _)
  · show ∀ v ∈ chain.document.literals, _
    rw [document]
    intro v there
    rw [Document.literals, Document.restored, Node.literals_restoredAll] at there
    obtain ⟨u, -, rfl⟩ := List.mem_map.mp there
    exact Expr.bare_settled u

/-- A chain at its start has the identities in its parameters. -/
theorem Given.start {source : String} {parameters : List (String × Value)} {format : Format} {options : Options}
    {first : Chain} {world : World σ} (begins : start source parameters format options = .ok first)
    (known : bound ≤ world.fresh) (given : Under world.fresh parameters) : Given bound world.host ⟨first, world⟩ := by
  obtain ⟨-, -, -, -, -, -, parsed, scope⟩ := start_eq_ok begins
  obtain ⟨body, progress⟩ := Grammar.unmarked_of_parse parsed
  refine ⟨Document.under_iff.mpr ⟨?_, ?_⟩, ?_, fun v there => Expr.bare_of_isSingle ?_, rfl, known⟩
  · show Under _ first.document.body
    rw [← body]
    exact fun _ _ _ => Node.renamed_clearedAll _
  · show Under _ first.document.progress
    rw [progress]
    exact under_none
  · show Under _ first.scope
    rw [scope]
    exact given.of_natural fun _ _ => Scope.renamed_ofList _
  · exact Document.isSingle_of_parse parsed v there

/-- All that a caller comes to hold has identities that are given. -/
theorem Reached.given (stateless : host.Stateless bound) {home : σ} {first held : Held σ}
    (given : first.Given bound home) (reached : Reached (Expr.eval host) first held) : held.Given bound home := by
  induction reached with
  | start => exact given
  | call _ response ih => exact ih.call stateless response
  | restored _ back ih => exact ih.restored back

end Held

end Chain
end PromptScript
