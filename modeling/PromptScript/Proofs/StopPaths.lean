import PromptScript.Proofs.Continuing
import PromptScript.Proofs.Tables

/-! # Tables on the way to a stop

Where a pass has stopped at a step, the nodes before it are done and those after it have not been reached. Exactly the
choices, loops and closed parts around the step hold tables, sound for the cells they belong to (`Node.Stops`). From
there, as from nodes without tables, the next pass goes on: nodes are `Ready` for it. -/
namespace PromptScript

namespace Node

mutual

/-- A pass has stopped in the node, at a step with some settings: the choices, loops and closed parts around that step
hold sound tables, and nothing else does. -/
inductive Stops (config : Config) : Nat → Node → Prop
  | group {size : Nat} {span : Span} {body : List Node} {p : Option Progress} (open_ : ¬ p.any Progress.done = true)
      (own : Tableless p) (inside : StopsAll config size body) : Stops config size (.group span body p)
  | holds {size : Nat} {span : Span} {test : Expr} {body : List Node} {other : Option (List Node)} {p : Progress}
      {v : Value} {table : Pointers} (open_ : p.done = false) (memo : p.memo = some v) (truthy : v.isTruthy = true)
      (held : p.pointers = some table) (sound : table.Sound size) (inside : StopsAll config size body)
      (beside : ∀ nodes, other = some nodes → UntabledAll nodes) :
      Stops config size (.choice span test body other (some p))
  | fails {size : Nat} {span : Span} {test : Expr} {body other : List Node} {p : Progress} {v : Value}
      {table : Pointers} (open_ : p.done = false) (memo : p.memo = some v) (falsy : v.isTruthy = false) (held : p.pointers = some table)
      (sound : table.Sound size) (inside : StopsAll config size other) (beside : UntabledAll body) :
      Stops config size (.choice span test body (some other) (some p))
  | round {size : Nat} {span : Span} {e : Expr} {item : Binding} {index : Option Binding} {body : List Node}
      {other : Option (List Node)} {p : Progress} {items : List Value} {n : Nat} {table : Pointers}
      (open_ : p.done = false) (memo : p.memo = some (.array items)) (round : p.round = some n)
      (there : n < items.length) (held : p.pointers = some table) (sound : table.Sound size)
      (inside : StopsAll config size body) (beside : ∀ nodes, other = some nodes → UntabledAll nodes) :
      Stops config size (.loop span e item index body other (some p))
  | idle {size : Nat} {span : Span} {e : Expr} {item : Binding} {index : Option Binding} {body other : List Node}
      {p : Progress} {table : Pointers} (open_ : p.done = false) (memo : p.memo = some (.array []))
      (held : p.pointers = some table) (sound : table.Sound size) (inside : StopsAll config size other)
      (beside : UntabledAll body) : Stops config size (.loop span e item index body (some other) (some p))
  | content {size : Nat} {span : Span} {kind : Option ContentKind} {attributes : List Attribute} {body : List Node}
      {p : Progress} {values : Attributes} (open_ : p.done = false) (memo : p.memo = some (.object values))
      (own : p.pointers = none) (parts : UntabledAttributes attributes)
      (inside : StopsAll config size body) : Stops config size (.element span (.content kind) attributes body (some p))
  | message {size : Nat} {span : Span} {role : Option Role} {attributes : List Attribute} {body : List Node}
      {p : Progress} {values : Attributes} (open_ : p.done = false) (memo : p.memo = some (.object values))
      (own : p.pointers = none) (parts : UntabledAttributes attributes)
      (inside : StopsAll config size body) : Stops config size (.element span (.message role) attributes body (some p))
  | scope {size : Nat} {span : Span} {attributes : List Attribute} {body : List Node} {p : Progress}
      {values : Attributes} {scope : Scope} (open_ : p.done = false) (memo : p.memo = some (.object values))
      (saved : p.stash = some scope.stash) (held : p.pointers = some scope.pointers) (sound : scope.Sound)
      (parts : UntabledAttributes attributes) (inside : StopsAll config scope.stash.size body) :
      Stops config size (.element span .scope attributes body (some p))
  | step {size : Nat} {span : Span} {attributes : List Attribute} {body : List Node} {p : Progress}
      {values : Attributes} (open_ : p.done = false) (memo : p.memo = some (.object values)) (own : p.pointers = none)
      (settings : config = Attributes.toJson (Fields.erase "raw" (Fields.erase "as" values)))
      (parts : UntabledAttributes attributes) (inside : UntabledAll body) :
      Stops config size (.element span .step attributes body (some p))

/-- A pass has stopped in one of the nodes. -/
inductive StopsAll (config : Config) : Nat → List Node → Prop
  | done {size : Nat} {n : Node} {r : List Node} (finished : n.isDone = true) (untabled : n.Untabled)
      (later : StopsAll config size r) : StopsAll config size (n :: r)
  | here {size : Nat} {n : Node} {r : List Node} (stops : n.Stops config size) (untabled : UntabledAll r) :
      StopsAll config size (n :: r)

end

section Stops

variable {config : Config} {size more : Nat}

theorem Stops.isDone_eq {n : Node} (h : n.Stops config size) : n.isDone = false := by
  cases h with
  | group open_ => exact Bool.eq_false_iff.mpr open_
  | holds open_ | fails open_ | round open_ | idle open_ | content open_ | message open_ | scope open_ | step open_ =>
    exact open_

mutual

/-- Cells may be added. -/
theorem Stops.mono (le : size ≤ more) : ∀ {n : Node}, n.Stops config size → n.Stops config more
  | _, .group open_ own inside => .group open_ own (inside.mono le)
  | _, .holds open_ memo truthy held sound inside beside =>
    .holds open_ memo truthy held (sound.mono le) (inside.mono le) beside
  | _, .fails open_ memo falsy held sound inside beside =>
    .fails open_ memo falsy held (sound.mono le) (inside.mono le) beside
  | _, .round open_ memo round there held sound inside beside =>
    .round open_ memo round there held (sound.mono le) (inside.mono le) beside
  | _, .idle open_ memo held sound inside beside => .idle open_ memo held (sound.mono le) (inside.mono le) beside
  | _, .content open_ memo own parts inside => .content open_ memo own parts (inside.mono le)
  | _, .message open_ memo own parts inside => .message open_ memo own parts (inside.mono le)
  | _, .scope open_ memo saved held sound parts inside => .scope open_ memo saved held sound parts inside
  | _, .step open_ memo own settings parts inside => .step open_ memo own settings parts inside

theorem StopsAll.mono (le : size ≤ more) :
    ∀ {nodes : List Node}, StopsAll config size nodes → StopsAll config more nodes
  | _, .done finished untabled later => .done finished untabled (later.mono le)
  | _, .here stops untabled => .here (stops.mono le) untabled

end

/-- All of some tables are sound for their cells. -/
def AllSound (tables : List (Pointers × Nat)) : Prop := ∀ e ∈ tables, e.1.Sound e.2

theorem allSound_append {a b : List (Pointers × Nat)} : AllSound (a ++ b) ↔ AllSound a ∧ AllSound b :=
  List.forall_mem_append

theorem allSound_of_eq_nil {tables : List (Pointers × Nat)} (h : tables = []) : AllSound tables := by
  rw [h]
  exact fun _ member => absurd member List.not_mem_nil

theorem allSound_tableOf {p : Progress} {table : Pointers} {cells : Nat} (held : p.pointers = some table)
    (sound : table.Sound cells) : AllSound (tableOf cells (some p)) := by
  rw [show tableOf cells (some p) = p.pointers.toList.map (·, cells) from rfl, held]
  exact List.forall_mem_singleton.mpr sound

theorem allSound_tableless {p : Option Progress} {cells : Nat} (own : Tableless p) : AllSound (tableOf cells p) :=
  allSound_of_eq_nil (tableOf_eq_nil_iff.mpr own)

mutual

/-- **Every table on the way to a stop is sound for its cells.** -/
theorem Stops.sound : ∀ {size : Nat} {n : Node}, n.Stops config size → AllSound (n.tables size)
  | _, _, .group _ own inside => allSound_append.mpr ⟨allSound_tableless own, inside.sound⟩
  | size, .choice _ _ _ none _, .holds _ _ _ held sound inside _
  | size, .loop _ _ _ _ _ none _, .round _ _ _ _ held sound inside _ =>
    allSound_append.mpr ⟨allSound_tableOf held sound, inside.sound⟩
  | size, .choice _ _ _ (some _) _, .holds _ _ _ held sound inside beside
  | size, .loop _ _ _ _ _ (some _) _, .round _ _ _ _ held sound inside beside =>
    allSound_append.mpr ⟨allSound_tableOf held sound,
      allSound_append.mpr ⟨inside.sound, allSound_of_eq_nil (beside _ rfl size)⟩⟩
  | size, _, .fails _ _ _ held sound inside beside | size, _, .idle _ _ held sound inside beside =>
    allSound_append.mpr ⟨allSound_tableOf held sound,
      allSound_append.mpr ⟨allSound_of_eq_nil (beside size), inside.sound⟩⟩
  | size, _, .content _ _ own parts inside | size, _, .message _ _ own parts inside =>
    allSound_append.mpr ⟨allSound_tableless own,
      allSound_append.mpr ⟨allSound_of_eq_nil (parts size), inside.sound⟩⟩
  | size, _, .step _ _ own _ parts inside =>
    allSound_append.mpr ⟨allSound_tableless own,
      allSound_append.mpr ⟨allSound_of_eq_nil (parts size), allSound_of_eq_nil (inside size)⟩⟩
  | size, .element _ _ attributes body (some p), @Stops.scope _ _ _ _ _ _ _ scope _ _ saved held sound parts inside => by
    have cells : cellsIn size .scope (some p) = scope.stash.size := by
      unfold cellsIn
      rw [Option.bind_some, saved]
      rfl
    show AllSound (tableOf (cellsIn size .scope (some p)) (some p) ++ (tablesOfAttributes size attributes ++
      tablesAll (cellsIn size .scope (some p)) body))
    rw [cells]
    exact allSound_append.mpr ⟨allSound_tableOf held sound,
      allSound_append.mpr ⟨allSound_of_eq_nil (parts size), inside.sound⟩⟩

theorem StopsAll.sound :
    ∀ {size : Nat} {nodes : List Node}, StopsAll config size nodes → AllSound (tablesAll size nodes)
  | size, _, .done _ untabled later => allSound_append.mpr ⟨allSound_of_eq_nil (untabled size), later.sound⟩
  | size, _, .here stops untabled => allSound_append.mpr ⟨stops.sound, allSound_of_eq_nil (untabled size)⟩

end

mutual

/-- Without marks there are no tables. -/
theorem Stops.cleared : ∀ {size : Nat} {n : Node}, n.Stops config size → n.cleared.Untabled
  | _, _, .group _ _ inside => untabled_group.mpr ⟨rfl, inside.clearedAll⟩
  | _, .choice _ _ _ none _, .holds _ _ _ _ _ inside _ =>
    untabled_choice.mpr ⟨rfl, inside.clearedAll, by rintro _ ⟨⟩⟩
  | _, .choice _ _ _ (some other) _, .holds _ _ _ _ _ inside beside =>
    untabled_choice.mpr ⟨rfl, inside.clearedAll, by rintro _ ⟨⟩; exact (beside other rfl).clearedAll⟩
  | _, _, .fails _ _ _ _ _ inside beside =>
    untabled_choice.mpr ⟨rfl, beside.clearedAll, by rintro _ ⟨⟩; exact inside.clearedAll⟩
  | _, .loop _ _ _ _ _ none _, .round _ _ _ _ _ _ inside _ =>
    untabled_loop.mpr ⟨rfl, inside.clearedAll, by rintro _ ⟨⟩⟩
  | _, .loop _ _ _ _ _ (some other) _, .round _ _ _ _ _ _ inside beside =>
    untabled_loop.mpr ⟨rfl, inside.clearedAll, by rintro _ ⟨⟩; exact (beside other rfl).clearedAll⟩
  | _, _, .idle _ _ _ _ inside beside =>
    untabled_loop.mpr ⟨rfl, beside.clearedAll, by rintro _ ⟨⟩; exact inside.clearedAll⟩
  | _, _, .content _ _ _ parts inside | _, _, .message _ _ _ parts inside | _, _, .scope _ _ _ _ _ parts inside =>
    untabled_element.mpr ⟨rfl, parts, inside.clearedAll⟩
  | _, _, .step _ _ _ _ parts inside => untabled_element.mpr ⟨rfl, parts, inside.clearedAll⟩

theorem StopsAll.clearedAll : ∀ {size : Nat} {nodes : List Node}, StopsAll config size nodes →
    UntabledAll (Node.clearedAll nodes)
  | _, _, .done _ untabled later => untabledAll_cons.mpr ⟨untabled.cleared, later.clearedAll⟩
  | _, _, .here stops untabled => untabledAll_cons.mpr ⟨stops.cleared, untabled.clearedAll⟩

end

end Stops

/-! ## Nodes that a pass may visit -/

/-- A pass finds a node without tables, or goes on from a stop in it. Marks that do not count are not looked at. -/
def Ready (size : Nat) (anew : Bool) (n : Node) : Prop :=
  (if anew then n.cleared else n).Untabled ∨ anew = false ∧ ∃ config, n.Stops config size

def ReadyAll (size : Nat) (anew : Bool) (nodes : List Node) : Prop :=
  UntabledAll (Pass.untouched anew nodes) ∨ anew = false ∧ ∃ config, StopsAll config size nodes

section Ready

variable {size more : Nat} {anew : Bool} {span : Span} {body : List Node} {other : Option (List Node)}
  {p : Option Progress}

theorem Ready.mono {n : Node} (h : n.Ready size anew) (le : size ≤ more) : n.Ready more anew :=
  h.imp_right fun ⟨counts, settings, stops⟩ => ⟨counts, settings, stops.mono le⟩

theorem ReadyAll.mono {nodes : List Node} (h : ReadyAll size anew nodes) (le : size ≤ more) :
    ReadyAll more anew nodes :=
  h.imp_right fun ⟨counts, settings, stops⟩ => ⟨counts, settings, stops.mono le⟩

/-- Without their marks nodes are ready for any pass. -/
theorem ReadyAll.again {nodes : List Node} (h : ReadyAll size anew nodes) : ReadyAll more true nodes := by
  refine .inl ?_
  rcases h with kept | ⟨-, settings, stops⟩
  · cases anew with
    | true => exact kept
    | false => exact kept.clearedAll
  · exact stops.clearedAll

/-- What is done has no tables; the rest is ready. -/
theorem ReadyAll.done {n : Node} {r : List Node} (h : ReadyAll size anew (n :: r)) (skip : (!anew && n.isDone) = true) :
    n.Untabled ∧ ReadyAll size anew r := by
  cases anew with
  | true => cases skip
  | false =>
    rcases h with kept | ⟨-, settings, stops⟩
    · obtain ⟨first, rest⟩ := untabledAll_cons.mp kept
      exact ⟨first, .inl rest⟩
    · cases stops with
      | done _ first rest => exact ⟨first, .inr ⟨rfl, settings, rest⟩⟩
      | here stops _ =>
        have skip : n.isDone = true := skip
        rw [stops.isDone_eq] at skip
        cases skip

/-- After a node that is not done there are no tables. -/
theorem ReadyAll.open_ {n : Node} {r : List Node} (h : ReadyAll size anew (n :: r))
    (visit : ¬ (!anew && n.isDone) = true) : n.Ready size anew ∧ UntabledAll (Pass.untouched anew r) := by
  rcases h with kept | ⟨rfl, settings, stops⟩
  · cases anew with
    | true =>
      obtain ⟨first, rest⟩ := untabledAll_cons.mp kept
      exact ⟨.inl first, rest⟩
    | false =>
      obtain ⟨first, rest⟩ := untabledAll_cons.mp kept
      exact ⟨.inl first, rest⟩
  · cases stops with
    | done finished _ _ => exact absurd finished visit
    | here stops rest => exact ⟨.inr ⟨rfl, settings, stops⟩, rest⟩

/-- Marks that count have no table. -/
def Unheld (anew : Bool) (p : Option Progress) : Prop := (if anew then {} else p.getD {} : Progress).pointers = none

theorem unheld_of_tableless (h : Tableless p) : Unheld anew p := by
  cases anew with
  | true => rfl
  | false =>
    cases p with
    | none => rfl
    | some p => exact h

/-- A node in which no pass can stop is found without tables. -/
theorem Ready.kept {n : Node} (h : n.Ready size anew) (never : ∀ settings, ¬ n.Stops settings size) :
    (if anew then n.cleared else n).Untabled :=
  h.resolve_right fun ⟨_, settings, stops⟩ => never settings stops

/-- The marks that count on a node that is not done. -/
theorem open_marks (h : anew = false → p.any Progress.done = false) :
    (if anew then {} else p.getD {} : Progress).done = false := by
  cases anew with
  | true => rfl
  | false =>
    cases p with
    | none => rfl
    | some p => exact h rfl

theorem Ready.group (h : (Node.group span body p).Ready size anew) :
    Tableless (if anew then none else p) ∧ ReadyAll size anew body := by
  rcases h with kept | ⟨rfl, settings, stops⟩
  · cases anew with
    | true => exact ⟨rfl, .inl (untabled_group.mp kept).2⟩
    | false =>
      obtain ⟨own, inside⟩ := untabled_group.mp kept
      exact ⟨own, .inl inside⟩
  · cases stops with
    | group _ own inside => exact ⟨own, .inr ⟨rfl, settings, inside⟩⟩

theorem untabled_kept_choice {test : Expr}
    (h : (if anew then (choice span test body other p).cleared else choice span test body other p).Untabled) :
    Unheld anew p ∧ UntabledAll (Pass.untouched anew body) ∧
      ∀ nodes, other = some nodes → UntabledAll (Pass.untouched anew nodes) := by
  cases anew with
  | true =>
    rw [if_pos rfl, cleared_choice] at h
    obtain ⟨-, inside, beside⟩ := untabled_choice.mp h
    exact ⟨rfl, inside, fun nodes here => beside _ (by rw [here]; rfl)⟩
  | false =>
    obtain ⟨own, inside⟩ := untabled_choice.mp h
    exact ⟨unheld_of_tableless own, inside⟩

/-- The marks of a choice hold a sound table; the part that its condition chooses is ready, the other has no tables. -/
theorem Ready.choice {test : Expr} (h : (Node.choice span test body other p).Ready size anew) {q : Progress}
    (marks : (if anew then {} else p.getD {}) = q) :
    (∀ own, q.pointers = some own → own.Sound size) ∧ ∀ v, (∀ w, q.memo = some w → v = w) →
      (v.isTruthy = true → ReadyAll size anew body ∧
        ∀ nodes, other = some nodes → UntabledAll (Pass.untouched anew nodes)) ∧
      (v.isTruthy = false → UntabledAll (Pass.untouched anew body) ∧
        ∀ nodes, other = some nodes → ReadyAll size anew nodes) := by
  subst marks
  rcases h with kept | ⟨rfl, settings, stops⟩
  · obtain ⟨own, inside, beside⟩ := untabled_kept_choice kept
    refine ⟨fun table held => ?_, fun v _ => ⟨fun _ => ⟨.inl inside, beside⟩, fun _ => ⟨inside, fun nodes here => ?_⟩⟩⟩
    · rw [show _ = none from own] at held
      cases held
    · exact .inl (beside nodes here)
  · cases stops with
    | holds _ memo truthy held sound inside beside =>
      refine ⟨fun table same => ?_, fun v known => ⟨fun _ => ⟨.inr ⟨rfl, settings, inside⟩, beside⟩, fun falsy => ?_⟩⟩
      · obtain rfl := Option.some.inj (held.symm.trans same)
        exact sound
      · rw [known _ memo, truthy] at falsy
        cases falsy
    | fails _ memo falsy held sound inside beside =>
      refine ⟨fun table same => ?_, fun v known => ⟨fun truthy => ?_, fun _ => ⟨beside, ?_⟩⟩⟩
      · obtain rfl := Option.some.inj (held.symm.trans same)
        exact sound
      · rw [known _ memo, falsy] at truthy
        cases truthy
      · rintro _ ⟨⟩
        exact .inr ⟨rfl, settings, inside⟩

theorem untabled_kept_loop {items : Expr} {item : Binding} {index : Option Binding}
    (h : (if anew then (loop span items item index body other p).cleared
      else loop span items item index body other p).Untabled) :
    Unheld anew p ∧ UntabledAll (Pass.untouched anew body) ∧
      ∀ nodes, other = some nodes → UntabledAll (Pass.untouched anew nodes) := by
  cases anew with
  | true =>
    rw [if_pos rfl, cleared_loop] at h
    obtain ⟨-, inside, beside⟩ := untabled_loop.mp h
    exact ⟨rfl, inside, fun nodes here => beside _ (by rw [here]; rfl)⟩
  | false =>
    obtain ⟨own, inside⟩ := untabled_loop.mp h
    exact ⟨unheld_of_tableless own, inside⟩

/-- The marks of a loop hold a sound table. A loop over nothing visits its other part, and any other loop its body,
where it may stand in one of its rounds. -/
theorem Ready.loop {e : Expr} {item : Binding} {index : Option Binding}
    (h : (Node.loop span e item index body other p).Ready size anew) {q : Progress}
    (marks : (if anew then {} else p.getD {}) = q) :
    (∀ own, q.pointers = some own → own.Sound size) ∧ ∀ items, (∀ w, q.memo = some w → .array items = w) →
      (ReadyAll size anew body ∧ (∀ nodes, other = some nodes → UntabledAll (Pass.untouched anew nodes)) ∧
        ((q.pointers = none ∧ UntabledAll (Pass.untouched anew body)) ∨
          (∃ own, q.pointers = some own) ∧ q.round.getD 0 < items.length)) ∨
      (items = [] ∧ UntabledAll (Pass.untouched anew body) ∧
        ∃ nodes, other = some nodes ∧ ReadyAll size anew nodes) := by
  subst marks
  rcases h with kept | ⟨rfl, settings, stops⟩
  · obtain ⟨own, inside, beside⟩ := untabled_kept_loop kept
    refine ⟨fun table held => ?_, fun items _ => .inl ⟨.inl inside, beside, .inl ⟨own, inside⟩⟩⟩
    rw [show _ = none from own] at held
    cases held
  · cases stops with
    | @round _ _ _ _ _ _ _ q items n _ _ memo round there held sound inside beside =>
      refine ⟨fun table same => ?_, fun items' known =>
        .inl ⟨.inr ⟨rfl, settings, inside⟩, beside, .inr ⟨⟨_, held⟩, ?_⟩⟩⟩
      · obtain rfl := Option.some.inj (held.symm.trans same)
        exact sound
      · obtain rfl := Value.array.inj (known _ memo)
        show q.round.getD 0 < items'.length
        rw [round]
        exact there
    | idle _ memo held sound inside beside =>
      refine ⟨fun table same => ?_, fun items' known => .inr ⟨?_, beside, _, rfl, .inr ⟨rfl, settings, inside⟩⟩⟩
      · obtain rfl := Option.some.inj (held.symm.trans same)
        exact sound
      · exact Value.array.inj (known _ memo)

theorem untabled_kept_element {tag : Tag} {attributes : List Attribute}
    (h : (if anew then (element span tag attributes body p).cleared else element span tag attributes body p).Untabled) :
    Unheld anew p ∧ UntabledAttributes attributes ∧ UntabledAll (Pass.untouched anew body) := by
  cases anew with
  | true => exact ⟨rfl, (untabled_element.mp h).2⟩
  | false =>
    obtain ⟨own, inside⟩ := untabled_element.mp h
    exact ⟨unheld_of_tableless own, inside⟩

theorem Ready.parts {tag : Tag} {attributes : List Attribute}
    (h : (element span tag attributes body p).Ready size anew) : UntabledAttributes attributes := by
  rcases h with kept | ⟨-, settings, stops⟩
  · exact (untabled_kept_element kept).2.1
  · cases stops with
    | content _ _ _ parts | message _ _ _ parts | scope _ _ _ _ _ parts | step _ _ _ _ parts => exact parts

/-- A tag that is no closed part has no table, and its body is ready. -/
theorem Ready.inside {tag : Tag} {attributes : List Attribute}
    (h : (element span tag attributes body p).Ready size anew) (kind : tag ≠ .scope) {q : Progress} (marks : (if anew then {} else p.getD {}) = q) :
    q.pointers = none ∧ ReadyAll size anew body := by
  subst marks
  rcases h with kept | ⟨rfl, settings, stops⟩
  · obtain ⟨own, -, inside⟩ := untabled_kept_element kept
    exact ⟨own, .inl inside⟩
  · cases stops with
    | content _ _ own _ inside | message _ _ own _ inside => exact ⟨own, .inr ⟨rfl, settings, inside⟩⟩
    | step _ _ own _ _ inside => exact ⟨own, .inl inside⟩
    | scope => exact absurd rfl kind

/-- In the body of a step no pass stops. -/
theorem Ready.step {attributes : List Attribute} (h : (element span .step attributes body p).Ready size anew) :
    UntabledAll (Pass.untouched anew body) := by
  rcases h with kept | ⟨rfl, settings, stops⟩
  · exact (untabled_kept_element kept).2.2
  · cases stops with
    | step _ _ _ _ _ inside => exact inside

/-- A closed part has a table just where it has saved its cells; what is saved is a sound scope, for which the body is
ready. -/
theorem Ready.scope {attributes : List Attribute} (h : (element span .scope attributes body p).Ready size anew)
    {q : Progress} (marks : (if anew then {} else p.getD {}) = q) :
    (q.stash = none → q.pointers = none) ∧
      (∀ stash, q.stash = some stash → (Scope.mk stash (q.pointers.getD .empty)).Sound) ∧
      ∀ scope : Scope, (∀ stash, q.stash = some stash → scope.stash = stash) → ReadyAll scope.stash.size anew body := by
  subst marks
  rcases h with kept | ⟨rfl, settings, stops⟩
  · obtain ⟨own, -, inside⟩ := untabled_kept_element kept
    have own : (if anew then {} else p.getD {} : Progress).pointers = none := own
    refine ⟨fun _ => own, fun stash _ => ?_, fun _ _ => .inl inside⟩
    rw [own]
    exact Pointers.sound_empty _
  · cases stops with
    | @scope _ _ _ _ q _ scope _ _ saved held sound _ inside =>
      refine ⟨fun unsaved => ?_, fun stash same => ?_, fun scope' known => .inr ⟨rfl, settings, ?_⟩⟩
      · rw [show q.stash = none from unsaved] at saved
        cases saved
      · obtain rfl := Option.some.inj (saved.symm.trans same)
        show (Scope.mk scope.stash (q.pointers.getD .empty)).Sound
        rw [held]
        exact sound
      · rw [known _ saved]
        exact inside

end Ready

end Node

/-! ## Documents -/

namespace Document

/-- No table is in the marks of a document. -/
def Untabled (d : Document) : Prop := ∀ size, d.tables size = []

/-- A pass has stopped in the document, at a step with some settings: the document holds a sound table, and so do the
nodes around the step. -/
structure Stops (config : Config) (size : Nat) (d : Document) : Prop where
  held : ∃ table, d.progress.bind Progress.pointers = some table ∧ table.Sound size
  inside : Node.StopsAll config size d.body

/-- A pass finds a document without tables, or goes on from a stop in it. -/
def Ready (size : Nat) (d : Document) : Prop := d.Untabled ∨ ∃ config, d.Stops config size

variable {size : Nat} {d : Document}

theorem untabled_iff : d.Untabled ↔ Node.Tableless d.progress ∧ Node.UntabledAll d.body := by
  unfold Untabled Node.UntabledAll
  simp only [tables, List.append_eq_nil_iff, forall_and, Node.tableOf_eq_nil_iff, forall_const]

/-- **Every table of a document in which a pass has stopped is sound for its cells.** -/
theorem Stops.sound {config : Config} (h : d.Stops config size) : Node.AllSound (d.tables size) := by
  obtain ⟨table, held, sound⟩ := h.held
  obtain ⟨p, marks, held⟩ := Option.bind_eq_some_iff.mp held
  refine Node.allSound_append.mpr ⟨?_, h.inside.sound⟩
  rw [marks]
  exact Node.allSound_tableOf held sound

/-- The marks of a document hold a sound table, and its nodes are ready. -/
theorem Ready.inside (h : d.Ready size) :
    (∀ own, (d.progress.getD {}).pointers = some own → own.Sound size) ∧ Node.ReadyAll size false d.body := by
  have own (table : Pointers) (held : (d.progress.getD {}).pointers = some table) :
      d.progress.bind Progress.pointers = some table := by
    cases marks : d.progress with
    | none =>
      rw [marks] at held
      cases held
    | some p =>
      rw [marks] at held
      exact held
  rcases h with untabled | ⟨config, ⟨table, held, sound⟩, inside⟩
  · obtain ⟨tableless, inside⟩ := untabled_iff.mp untabled
    refine ⟨fun table held => ?_, .inl inside⟩
    rw [show d.progress.bind Progress.pointers = none from tableless] at own
    cases own table held
  · refine ⟨fun table' held' => ?_, .inr ⟨rfl, config, inside⟩⟩
    obtain rfl := Option.some.inj (held.symm.trans (own table' held'))
    exact sound

end Document
end PromptScript
