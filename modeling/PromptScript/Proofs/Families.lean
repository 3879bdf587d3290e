import Mathlib.Data.List.Induction
import PromptScript.Proofs.Tables

/-! # Scopes over one stash

Scopes that are copied from one another are views of the same cells. A family holds the cells, the table of every scope in
it, and tables that were saved; its scopes are set, declared in and copied in any order. The state is the history of the
cells and who has a name for them: each name reads what was last written to its cell, a new cell is one that no table knows,
and a table comes to know a cell only where it is made or from a table that knows it. -/
namespace PromptScript

/-- Scopes over one stash, known by their places in the order in which they were made, and saved tables. -/
structure Family where
  stash : Stash
  tables : List Pointers
  saved : List Pointers

namespace Family

/-- What is done with a scope of a family. -/
inductive Op where
  | set (i : Nat) (name : String) (v : Value)
  | declare (i : Nat) (name : String) (v : Value)
  /-- Saves the table of a scope. -/
  | save (i : Nat)
  /-- Makes a new scope from one, with its table or with a saved one. -/
  | copy (i : Nat) (saved : Option Nat)

/-- A family of one scope. -/
def alone (scope : Scope) : Family := ⟨scope.stash, [scope.pointers], []⟩

/-- A scope of a family. -/
def scope? (f : Family) (i : Nat) : Option Scope := (f.tables[i]?).map (Scope.mk f.stash)

/-- The family in which a scope has become another; its cells are those of all. -/
def put (f : Family) (i : Nat) (scope : Scope) : Family := ⟨scope.stash, f.tables.set i scope.pointers, f.saved⟩

/-- The family after something is done. What is asked of a scope or of a saved table that is not there does nothing. -/
def step (f : Family) : Op → Family
  | .set i name v => ((f.scope? i).map fun scope => f.put i (scope.set name v)).getD f
  | .declare i name v => ((f.scope? i).map fun scope => f.put i (scope.declare name v)).getD f
  | .save i => ((f.tables[i]?).map fun table => { f with saved := f.saved ++ [table] }).getD f
  | .copy i none => ((f.tables[i]?).map fun table => { f with tables := f.tables ++ [table] }).getD f
  | .copy i (some k) =>
    ((f.tables[i]?).bind fun _ => (f.saved[k]?).map fun table => { f with tables := f.tables ++ [table] }).getD f

def run (f : Family) (ops : List Op) : Family := ops.foldl step f

/-- The cell of a name in a scope. -/
def cell? (f : Family) (i : Nat) (name : String) : Option Nat := (f.tables[i]?).bind fun table => table.find? name

/-- What a name reads in a scope. -/
def read? (f : Family) (i : Nat) (name : String) : Option Value := (f.scope? i).bind fun scope => scope.get? name

/-! ## The history of the cells -/

/-- What is written, and to which cell: that of the name, or a new one. -/
def writes (f : Family) : Op → List (Nat × Value)
  | .set i name v => if i < f.tables.length then [((f.cell? i name).getD f.stash.size, v)] else []
  | .declare i _ v => if i < f.tables.length then [(f.stash.size, v)] else []
  | .save _ | .copy _ _ => []

/-- All that is written, from first to last. -/
def log (f : Family) : List Op → List (Nat × Value)
  | [] => []
  | op :: r => f.writes op ++ (f.step op).log r

/-- The value that was last written to a cell. -/
def lastWritten (log : List (Nat × Value)) (cell : Nat) : Option Value :=
  log.foldl (fun last w => if w.1 = cell then some w.2 else last) none

/-! ## The ways of tables -/

/-- Who has a table: a scope, or those who saved it. -/
inductive Holder where
  | live (i : Nat)
  | saved (k : Nat)

def table? (f : Family) : Holder → Option Pointers
  | .live i => f.tables[i]?
  | .saved k => f.saved[k]?

/-- From where a table comes when something is done: it stays, or it is copied. -/
inductive Passes (f : Family) : Op → Holder → Holder → Prop
  | stays (op : Op) (h : Holder) : Passes f op h h
  | copied (i : Nat) : Passes f (.copy i none) (.live i) (.live f.tables.length)
  | saved (i : Nat) : Passes f (.save i) (.live i) (.saved f.saved.length)
  | restored (i k : Nat) : Passes f (.copy i (some k)) (.saved k) (.live f.tables.length)

/-- Whose tables come from that of a scope, after what is done: its own, and later copies of it. -/
inductive Inherits (f : Family) (i : Nat) : List Op → Holder → Prop
  | self : Inherits f i [] (.live i)
  | next {ops : List Op} {op : Op} {h h' : Holder} (before : Inherits f i ops h) (on : (f.run ops).Passes op h h') :
    Inherits f i (ops ++ [op]) h'

variable {f : Family} {i j c : Nat} {name m : String} {v : Value} {t t' : Pointers} {op : Op} {ops : List Op} {h : Holder}

theorem run_append (f : Family) (ops more : List Op) : f.run (ops ++ more) = (f.run ops).run more := List.foldl_append ..

theorem run_concat (f : Family) (ops : List Op) (op : Op) : f.run (ops ++ [op]) = (f.run ops).step op := run_append f ops [op]

theorem lastWritten_concat (log : List (Nat × Value)) (w : Nat × Value) (cell : Nat) :
    lastWritten (log ++ [w]) cell = if w.1 = cell then some w.2 else lastWritten log cell := List.foldl_append ..

/-- What a name reads is what is in its cell. -/
theorem read?_eq (f : Family) (i : Nat) (name : String) :
    f.read? i name = (f.cell? i name).map fun c => (f.stash[c]?).getD .undefined := by
  unfold read? cell? scope?
  cases f.tables[i]? with
  | none => rfl
  | some t => rfl

/-! ## What is done at each step -/

theorem step_declare (table : f.tables[i]? = some t) : f.step (.declare i name v) =
    ⟨f.stash.push v, f.tables.set i (t.insert name f.stash.size), f.saved⟩ := by
  simp [step, scope?, table, put, Scope.declare]

theorem step_set_of_bound (table : f.tables[i]? = some t) (bound : t.find? name = some c) (there : c < f.stash.size) :
    f.step (.set i name v) = { f with stash := f.stash.setIfInBounds c v } := by
  have same : f.tables.set i t = f.tables := by
    obtain ⟨inside, rfl⟩ := List.getElem?_eq_some_iff.mp table
    exact List.set_getElem_self inside
  simp [step, scope?, table, put, Scope.set, bound, there, same]

/-- To set a name without a cell is to declare it. -/
theorem step_set_of_unbound (table : f.tables[i]? = some t) (unbound : ∀ c, t.find? name = some c → ¬ c < f.stash.size) :
    f.step (.set i name v) = f.step (.declare i name v) := by
  have declares : (Scope.mk f.stash t).set name v = (Scope.mk f.stash t).declare name v := by
    unfold Scope.set
    dsimp only
    split
    · next c bound => rw [if_neg (unbound c bound)]
    · rfl
  simp [step, scope?, table, declares]

/-- Cells are added, never taken away. -/
theorem size_le_size_step (f : Family) (op : Op) : f.stash.size ≤ (f.step op).stash.size := by
  cases op with
  | set i name v =>
    cases table : f.tables[i]? with
    | none => simp [step, scope?, table]
    | some t => simpa [step, scope?, table, put] using Scope.size_le_size_set ⟨f.stash, t⟩ name v
  | declare i name v =>
    cases table : f.tables[i]? with
    | none => simp [step, scope?, table]
    | some t => simp [step_declare table]
  | save i => cases table : f.tables[i]? <;> simp [step, table]
  | copy i saved =>
    cases saved with
    | none => cases table : f.tables[i]? <;> simp [step, table]
    | some k => cases table : f.tables[i]? <;> cases kept : f.saved[k]? <;> simp [step, table, kept]

theorem size_le_size_run (f : Family) (ops : List Op) : f.stash.size ≤ (f.run ops).stash.size := by
  induction ops generalizing f with
  | nil => exact Nat.le_refl _
  | cons op ops ih => exact Nat.le_trans (f.size_le_size_step op) (ih _)

/-- A table with a name for a new cell. -/
def Renews (f : Family) (op : Op) (t t' : Pointers) : Prop :=
  t' = t ∨ ∃ name, t' = t.insert name f.stash.size ∧ f.stash.size < (f.step op).stash.size

/-- A table after something is done comes from one before, with at most one new cell. -/
def Comes (f : Family) (op : Op) (h : Holder) (t' : Pointers) : Prop :=
  ∃ h₀ t, f.table? h₀ = some t ∧ f.Passes op h₀ h ∧ f.Renews op t t'

theorem comes_of_same (there : (f.step op).table? h = some t') (same : (f.step op).table? h = f.table? h) : f.Comes op h t' :=
  ⟨h, t', same ▸ there, .stays op h, .inl rfl⟩

/-- Where a name is declared in a scope, the table of that scope alone is renewed. -/
theorem comes_of_declare (there : (f.step op).table? h = some t') (table : f.tables[i]? = some t)
    (same : f.step op = f.step (.declare i name v)) : f.Comes op h t' := by
  rw [step_declare table] at same
  have more : f.stash.size < (f.step op).stash.size := by simp [same]
  cases h with
  | saved k => exact comes_of_same there (by rw [same]; rfl)
  | live j =>
    by_cases here : i = j
    · subst here
      have inside : i < f.tables.length := (List.getElem?_eq_some_iff.mp table).1
      have new : t' = t.insert name f.stash.size := by simpa [same, table?, inside, eq_comm] using there
      exact ⟨.live i, t, table, .stays op _, .inr ⟨name, new, more⟩⟩
    · exact comes_of_same there (by simp [same, table?, here])

/-- What is at a place of a list with one more element. -/
theorem getElem?_concat {α : Type} {l : List α} {a b : α} {k : Nat} (there : (l ++ [a])[k]? = some b) :
    (l ++ [a])[k]? = l[k]? ∨ k = l.length ∧ a = b := by
  rcases Nat.lt_trichotomy k l.length with earlier | rfl | later
  · exact .inl (List.getElem?_append_left earlier)
  · exact .inr ⟨rfl, by simpa using there⟩
  · have none : (l ++ [a])[k]? = none := List.getElem?_eq_none (by simp; omega)
    cases none.symm.trans there

/-- Where a scope is made, its table is the one it is made with. -/
theorem comes_of_append {h₀ : Holder} (there : (f.step op).table? h = some t') (given : f.table? h₀ = some t)
    (passes : f.Passes op h₀ (.live f.tables.length)) (same : f.step op = { f with tables := f.tables ++ [t] }) :
    f.Comes op h t' := by
  rw [same] at there
  cases h with
  | saved k => exact comes_of_same (same ▸ there) (by rw [same]; rfl)
  | live j =>
    rcases getElem?_concat there with kept | ⟨rfl, rfl⟩
    · exact comes_of_same (same ▸ there) (by rw [same]; exact kept)
    · exact ⟨h₀, t, given, passes, .inl rfl⟩

/-- Where a table is saved, it is that of the scope. -/
theorem comes_of_save (there : (f.step (.save i)).table? h = some t') (table : f.tables[i]? = some t) :
    f.Comes (.save i) h t' := by
  have same : f.step (.save i) = { f with saved := f.saved ++ [t] } := by simp [step, table]
  rw [same] at there
  cases h with
  | live j => exact comes_of_same (same ▸ there) (by rw [same]; rfl)
  | saved k =>
    rcases getElem?_concat there with kept | ⟨rfl, rfl⟩
    · exact comes_of_same (same ▸ there) (by rw [same]; exact kept)
    · exact ⟨.live i, t, table, .saved i, .inl rfl⟩

/-- Whatever is done, a table stays, is renewed, or is made from one that was there. -/
theorem comes_of_step (f : Family) (op : Op) (there : (f.step op).table? h = some t') : f.Comes op h t' := by
  cases op with
  | set i name v =>
    cases table : f.tables[i]? with
    | none => exact comes_of_same there (by simp [step, scope?, table])
    | some t =>
      by_cases bound : ∃ c, t.find? name = some c ∧ c < f.stash.size
      · obtain ⟨c, bound, inside⟩ := bound
        exact comes_of_same there (by rw [step_set_of_bound table bound inside]; rfl)
      · exact comes_of_declare there table (step_set_of_unbound table fun c found inside => bound ⟨c, found, inside⟩)
  | declare i name v =>
    cases table : f.tables[i]? with
    | none => exact comes_of_same there (by simp [step, scope?, table])
    | some t => exact comes_of_declare there table rfl
  | save i =>
    cases table : f.tables[i]? with
    | none => exact comes_of_same there (by simp [step, table])
    | some t => exact comes_of_save there table
  | copy i saved =>
    cases table : f.tables[i]? with
    | none => exact comes_of_same there (by cases saved <;> simp [step, table])
    | some t =>
      cases saved with
      | none =>
        have given : f.table? (.live i) = some t := table
        exact comes_of_append there given (.copied i) (by simp [step, table])
      | some k =>
        cases kept : f.saved[k]? with
        | none => exact comes_of_same there (by simp [step, table, kept])
        | some t =>
          have given : f.table? (.saved k) = some t := kept
          exact comes_of_append there given (.restored i k) (by simp [step, table, kept])

/-! ## Sound families -/

/-- All tables are sound for the cells. -/
def Sound (f : Family) : Prop := ∀ h t, f.table? h = some t → t.Sound f.stash.size

theorem Sound.step (sound : f.Sound) (op : Op) : (f.step op).Sound := by
  intro h t' there
  obtain ⟨h₀, t, from_, -, same | ⟨name, same, more⟩⟩ := f.comes_of_step op there
  · rw [same]
    exact (sound h₀ t from_).mono (f.size_le_size_step op)
  · rw [same]
    have scope : (Scope.mk f.stash t).Sound := sound h₀ t from_
    have declared : (t.insert name f.stash.size).Sound (f.stash.push .undefined).size := scope.declare name .undefined
    exact declared.mono (by rw [Array.size_push]; exact more)

theorem Sound.run (sound : f.Sound) (ops : List Op) : (f.run ops).Sound := by
  induction ops generalizing f with
  | nil => exact sound
  | cons op ops ih => exact ih (sound.step op)

theorem sound_alone {scope : Scope} (sound : scope.Sound) : (alone scope).Sound := by
  intro h t there
  cases h with
  | saved k => simp [alone, table?] at there
  | live j =>
    obtain rfl : scope.pointers = t := by
      cases j with
      | zero => exact Option.some.inj there
      | succ j => simp [alone, table?] at there
    exact sound

theorem Sound.there (sound : f.Sound) (bound : f.cell? i name = some c) : c < f.stash.size := by
  obtain ⟨t, table, found⟩ := Option.bind_eq_some_iff.mp bound
  exact (sound (.live i) t table).there name c found

theorem Sound.apart {other : String} (sound : f.Sound) (bound : f.cell? i name = some c)
    (bound' : f.cell? i other = some c) : name = other := by
  obtain ⟨t, table, found⟩ := Option.bind_eq_some_iff.mp bound
  obtain ⟨t', table', found'⟩ := Option.bind_eq_some_iff.mp bound'
  obtain rfl : t = t' := Option.some.inj (table.symm.trans table')
  exact (sound (.live i) t table).apart name other c found found'

/-! ## What is in the cells -/

/-- The cells hold what was last written to them, if they did before. -/
theorem Sound.stash_step {log : List (Nat × Value)} (sound : f.Sound) (before : ∀ c, f.stash[c]? = lastWritten log c)
    (op : Op) (c : Nat) : (f.step op).stash[c]? = lastWritten (log ++ f.writes op) c := by
  have declared {i : Nat} {name : String} {v : Value} (inside : i < f.tables.length) :
      (f.step (.declare i name v)).stash[c]? = lastWritten (log ++ [(f.stash.size, v)]) c := by
    rw [step_declare (List.getElem?_eq_getElem inside), lastWritten_concat, ← before, Array.getElem?_push]
    simp only [eq_comm]
  cases op with
  | set i name v =>
    by_cases inside : i < f.tables.length
    · have table := List.getElem?_eq_getElem inside
      simp only [writes, if_pos inside]
      cases bound : f.cell? i name with
      | some d =>
        have there := sound.there bound
        rw [cell?, table, Option.bind_some] at bound
        rw [step_set_of_bound table bound there, Option.getD_some, lastWritten_concat, ← before,
          Array.getElem?_setIfInBounds, if_pos there]
      | none =>
        rw [cell?, table, Option.bind_some] at bound
        rw [step_set_of_unbound table (by simp [bound]), declared inside, Option.getD_none]
    · simp [Family.step, scope?, writes, inside, before]
  | declare i name v =>
    by_cases inside : i < f.tables.length
    · simp only [writes, if_pos inside, declared inside]
    · simp [Family.step, scope?, writes, inside, before]
  | save i =>
    rw [writes, List.append_nil, ← before]
    cases table : f.tables[i]? <;> simp [Family.step, table]
  | copy i saved =>
    rw [writes, List.append_nil, ← before]
    cases saved with
    | none => cases table : f.tables[i]? <;> simp [Family.step, table]
    | some k => cases table : f.tables[i]? <;> cases kept : f.saved[k]? <;> simp [Family.step, table, kept]

theorem Sound.stash_run {log : List (Nat × Value)} (sound : f.Sound) (before : ∀ c, f.stash[c]? = lastWritten log c)
    (ops : List Op) (c : Nat) : (f.run ops).stash[c]? = lastWritten (log ++ f.log ops) c := by
  induction ops generalizing f log with
  | nil => rw [Family.log, List.append_nil]; exact before c
  | cons op ops ih =>
    rw [Family.log, ← List.append_assoc]
    exact ih (sound.step op) (sound.stash_step before op)

/-! ## New cells -/

/-- A cell that one scope has one name for is known only to what inherits from that scope, and under that name. -/
theorem inherits_of_find? (there : c < f.stash.size)
    (here : ∀ h t m, f.table? h = some t → t.find? m = some c → h = .live i ∧ m = name) (ops : List Op) :
    ∀ h t m, (f.run ops).table? h = some t → t.find? m = some c → f.Inherits i ops h ∧ m = name := by
  -- By the last step: a table that knows the cell after it comes from one that knew it before.
  induction ops using List.reverseRecOn with
  | nil =>
    intro h t m table found
    obtain ⟨rfl, same⟩ := here h t m table found
    exact ⟨.self, same⟩
  | append_singleton ops op ih =>
    intro h t' m table found
    rw [run_concat] at table
    obtain ⟨h₀, t, from_, passes, renews⟩ := (f.run ops).comes_of_step op table
    have old : t.find? m = some c := by
      rcases renews with rfl | ⟨fresh, rfl, -⟩
      · exact found
      · by_cases same : m = fresh
        · -- The new cell of this step is not the old one.
          rw [same, Pointers.find?_insert_same] at found
          have : c < (f.run ops).stash.size := Nat.lt_of_lt_of_le there (f.size_le_size_run ops)
          exact absurd (Option.some.inj found) (by omega)
        · rwa [Pointers.find?_insert_other same] at found
    obtain ⟨before, same⟩ := ih h₀ t m from_ old
    exact ⟨.next before passes, same⟩

/-! ## What is seen of each step -/

/-- A name leads to the same cell in a scope, and reads the same. -/
def Unchanged (f g : Family) (j : Nat) (m : String) : Prop := g.cell? j m = f.cell? j m ∧ g.read? j m = f.read? j m

/-- What is written to the cell of a name in a scope is read wherever a name leads to that cell, and nowhere else. -/
structure Writes (f g : Family) (i : Nat) (name : String) (v : Value) : Prop where
  cells : ∀ j m, g.cell? j m = f.cell? j m
  seen : ∀ j m, f.cell? j m = f.cell? i name → g.read? j m = some v
  unseen : ∀ j m, f.cell? j m ≠ f.cell? i name → g.read? j m = f.read? j m

/-- A new cell is added under a name of a scope; no other name leads to it, and none ever will but that name in tables that
come from that of the scope. -/
structure Adds (f g : Family) (i : Nat) (name : String) (v : Value) : Prop where
  cell : g.cell? i name = some f.stash.size
  seen : g.read? i name = some v
  fresh : ∀ h t m, f.table? h = some t → t.find? m ≠ some f.stash.size
  others : ∀ j m, j ≠ i ∨ m ≠ name → f.Unchanged g j m
  later : ∀ ops h t m, (g.run ops).table? h = some t → t.find? m = some f.stash.size → g.Inherits i ops h ∧ m = name

/-- A new scope is made, with a table that was there. -/
structure Copies (f g : Family) (table : Pointers) : Prop where
  cells : ∀ m, g.cell? f.tables.length m = table.find? m
  reads : ∀ m, g.read? f.tables.length m = (Scope.mk f.stash table).get? m
  others : ∀ j m, j ≠ f.tables.length → f.Unchanged g j m

theorem unchanged_of (stash : ∀ c, f.cell? j m = some c → g.stash[c]? = f.stash[c]?) (cell : g.cell? j m = f.cell? j m) :
    f.Unchanged g j m := by
  refine ⟨cell, ?_⟩
  rw [read?_eq, read?_eq, cell]
  cases known : f.cell? j m with
  | none => rfl
  | some c => simp only [Option.map_some, stash c known]

theorem Sound.writes (sound : f.Sound) (bound : f.cell? i name = some c) (v : Value) :
    f.Writes (f.step (.set i name v)) i name v := by
  have there := sound.there bound
  obtain ⟨t, table, found⟩ := Option.bind_eq_some_iff.mp bound
  rw [step_set_of_bound table found there]
  constructor
  · exact fun j m => rfl
  · intro j m same
    have same : f.cell? j m = some c := same.trans bound
    have cell : cell? { f with stash := f.stash.setIfInBounds c v } j m = some c := same
    rw [read?_eq, cell, Option.map_some, Array.getElem?_setIfInBounds_self_of_lt there, Option.getD_some]
  · intro j m other
    refine (unchanged_of (f := f) (g := { f with stash := f.stash.setIfInBounds c v }) (fun d known => ?_) rfl).2
    have ne : c ≠ d := fun same => other (by rw [known, bound, same])
    exact Array.getElem?_setIfInBounds_ne ne

theorem Sound.adds (sound : f.Sound) (inside : i < f.tables.length) (name : String) (v : Value) :
    f.Adds (f.step (.declare i name v)) i name v := by
  have table := List.getElem?_eq_getElem inside
  generalize f.tables[i] = t at table
  have fresh : ∀ h t m, f.table? h = some t → t.find? m ≠ some f.stash.size := fun h t m table found =>
    absurd ((sound h t table).there m _ found) (Nat.lt_irrefl _)
  have cell : (f.step (.declare i name v)).cell? i name = some f.stash.size := by
    simp [step_declare table, cell?, inside, Pointers.find?_insert_same]
  refine ⟨cell, ?_, fresh, fun j m other => unchanged_of (fun c known => ?_) ?_, ?_⟩
  · rw [read?_eq, cell, step_declare table]
    simp
  · rw [step_declare table]
    rw [Array.getElem?_push, if_neg (Nat.ne_of_lt (sound.there known))]
  · rw [step_declare table]
    by_cases here : i = j
    · have ne : m ≠ name := other.resolve_left (not_not.mpr here.symm)
      subst here
      simp only [cell?, List.getElem?_set_self inside, table, Option.bind_some, Pointers.find?_insert_other ne]
    · simp [cell?, here]
  · refine inherits_of_find? (by simp [step_declare table]) fun h t' m there found => ?_
    rw [step_declare table] at there
    cases h with
    | saved k => exact absurd found (fresh (.saved k) t' m there)
    | live j =>
      by_cases here : i = j
      · subst here
        obtain rfl : t.insert name f.stash.size = t' := by simpa [table?, inside] using there
        refine ⟨rfl, ?_⟩
        by_contra ne
        rw [Pointers.find?_insert_other ne] at found
        exact fresh (.live i) t m table found
      · exact absurd found (fresh (.live j) t' m (by simpa [table?, here] using there))

theorem copies (f : Family) (table : Pointers) : f.Copies { f with tables := f.tables ++ [table] } table := by
  refine ⟨fun m => by simp [cell?], fun m => by simp [read?, scope?], fun j m other => unchanged_of (fun _ _ => rfl) ?_⟩
  have same : (f.tables ++ [table])[j]? = f.tables[j]? := by
    rcases Nat.lt_or_ge j f.tables.length with earlier | later
    · exact List.getElem?_append_left earlier
    · rw [List.getElem?_eq_none later, List.getElem?_eq_none (by rw [List.length_append, List.length_singleton]; omega)]
  simp only [cell?, same]

/-- The scopes of a family are views of cells whose history is given. -/
structure Shares (f : Family) (log : List (Nat × Value)) : Prop where
  reads : ∀ i name c, f.cell? i name = some c → ∃ v, lastWritten log c = some v ∧ f.read? i name = some v
  apart : ∀ i name other c, f.cell? i name = some c → f.cell? i other = some c → name = other
  grows : ∀ ops, f.stash.size ≤ (f.run ops).stash.size
  sets : ∀ i name c v, f.cell? i name = some c → f.Writes (f.step (.set i name v)) i name v
  setsNew : ∀ i name v, i < f.tables.length → f.cell? i name = none → f.Adds (f.step (.set i name v)) i name v
  declares : ∀ i name v, i < f.tables.length → f.Adds (f.step (.declare i name v)) i name v
  copies : ∀ i table, f.tables[i]? = some table → f.Copies (f.step (.copy i none)) table
  restores : ∀ i k table, i < f.tables.length → f.saved[k]? = some table → f.Copies (f.step (.copy i (some k))) table
  saves : ∀ i table, f.tables[i]? = some table → (f.step (.save i)).saved = f.saved ++ [table] ∧
    ∀ j m, f.Unchanged (f.step (.save i)) j m

theorem Sound.shares {log : List (Nat × Value)} (sound : f.Sound) (history : ∀ c, f.stash[c]? = lastWritten log c) :
    f.Shares log where
  reads i name c bound := by
    have there := sound.there bound
    refine ⟨f.stash[c], by rw [← history, Array.getElem?_eq_getElem there], ?_⟩
    rw [read?_eq, bound, Option.map_some, Array.getElem?_eq_getElem there, Option.getD_some]
  apart i name other c bound bound' := sound.apart bound bound'
  grows := f.size_le_size_run
  sets i name c v bound := sound.writes bound v
  setsNew i name v inside unbound := by
    have table := List.getElem?_eq_getElem inside
    rw [cell?, table, Option.bind_some] at unbound
    rw [step_set_of_unbound table (by simp [unbound])]
    exact sound.adds inside name v
  declares i name v inside := sound.adds inside name v
  copies i table there := by
    have same : f.step (.copy i none) = { f with tables := f.tables ++ [table] } := by simp [Family.step, there]
    exact same ▸ f.copies table
  restores i k table inside there := by
    have same : f.step (.copy i (some k)) = { f with tables := f.tables ++ [table] } := by
      simp [Family.step, there, List.getElem?_eq_getElem inside]
    exact same ▸ f.copies table
  saves i table there := by simp [Family.step, there, Unchanged, cell?, read?, scope?]

/-! ## From one fresh scope on -/

theorem run_alone (scope : Scope) (entries : List (String × Value)) :
    (alone scope).run (entries.map fun e => .set 0 e.1 e.2) =
      alone (entries.foldl (fun scope e => scope.set e.1 e.2) scope) := by
  induction entries generalizing scope with
  | nil => rfl
  | cons e r ih => exact ih (scope.set e.1 e.2)

/-- All that is written from before there is anything: what is given to the one scope at first, and what is done then. -/
def history (entries : List (String × Value)) (ops : List Op) : List (Nat × Value) :=
  (alone .empty).log ((entries.map fun e => .set 0 e.1 e.2) ++ ops)

/-- Whatever is done with scopes that come from one fresh scope, they are views of shared cells. -/
theorem scopes_share_cells (entries : List (String × Value)) (ops : List Op) :
    ((alone (.ofList entries)).run ops).Shares (history entries ops) := by
  have sound : (alone .empty).Sound := sound_alone Scope.sound_empty
  have none : ∀ c, (alone .empty).stash[c]? = lastWritten [] c := fun _ => rfl
  have first : (alone .empty).run (entries.map fun e => .set 0 e.1 e.2) = alone (.ofList entries) := run_alone ..
  rw [← first, ← run_append]
  exact (sound.run _).shares (sound.stash_run none _)

/-- A scope restored from a table that was saved before a name was set: what it sets under the older name is seen where the
table was saved, and what it sets under the newer one is its own. -/
theorem scopes_share_cells_restored :
    let entries := [("x", Value.bool true)]
    let ops := [Op.copy 0 none, .declare 1 "x" .null, .save 0, .set 0 "y" .null, .copy 1 (some 0)]
    let f := (alone (.ofList entries)).run ops
    (f.cell? 0 "x" = some 0 ∧ f.cell? 1 "x" = some 1 ∧ f.cell? 2 "x" = some 0 ∧ f.cell? 0 "y" = some 2) ∧
      (f.step (.set 2 "x" .null)).read? 0 "x" = some .null ∧
      (f.step (.set 2 "x" .null)).read? 1 "x" = f.read? 1 "x" ∧ f.Adds (f.step (.set 2 "y" .null)) 2 "y" .null := by
  intro entries ops f
  have shares : f.Shares (history entries ops) := scopes_share_cells entries ops
  have cells : f.cell? 0 "x" = some 0 ∧ f.cell? 1 "x" = some 1 ∧ f.cell? 2 "x" = some 0 ∧ f.cell? 0 "y" = some 2 := by
    decide +kernel
  have ⟨first, second, third, _⟩ := cells
  have writes := shares.sets 2 "x" 0 .null third
  exact ⟨cells, writes.seen 0 "x" (by rw [first, third]), writes.unseen 1 "x" (by rw [second, third]; decide),
    shares.setsNew 2 "y" .null (by decide +kernel) (by decide +kernel)⟩

end Family
end PromptScript
