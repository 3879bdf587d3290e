import PromptScript.Fields

/-! # Sorted names

Sets of names, and tables from names, kept in alphabetical order so that what they list is listed the same
way whatever the order of insertion. -/
namespace PromptScript

/-- Names in alphabetical order, none twice. -/
abbrev Names := List String

namespace Names

/-- The set with one more name. -/
def insert (name : String) : Names → Names
  | [] => [name]
  | n :: r => if n = name then n :: r else if name < n then name :: n :: r else n :: insert name r

/-- The set of the names in a list. -/
def ofList (names : List String) : Names := names.foldl (fun acc n => insert n acc) []

/-- The names of either set. -/
def union (a b : Names) : Names := b.foldl (fun acc n => insert n acc) a

theorem mem_insert {name other : String} {names : Names} :
    other ∈ insert name names ↔ other = name ∨ other ∈ names := by
  induction names with
  | nil => simp [insert]
  | cons n r ih =>
    unfold insert
    split
    · next h => subst h; simp
    · split
      · simp
      · simp only [List.mem_cons, ih]
        constructor
        · rintro (h | h | h) <;> simp [h]
        · rintro (h | h | h) <;> simp [h]

theorem mem_union {other : String} {a b : Names} : other ∈ union a b ↔ other ∈ a ∨ other ∈ b := by
  unfold union
  induction b generalizing a with
  | nil => simp
  | cons n r ih =>
    rw [List.foldl_cons, ih, mem_insert, List.mem_cons]
    constructor
    · rintro ((h | h) | h) <;> simp [h]
    · rintro (h | h | h) <;> simp [h]

theorem mem_ofList {other : String} {names : List String} : other ∈ ofList names ↔ other ∈ names := by
  have h := @mem_union other [] names
  simpa [union, ofList] using h

end Names

/-- Where the cell of each name lies: names in alphabetical order, none twice. -/
structure Pointers where
  entries : List (String × Nat)
  ordered : entries.Pairwise (·.1 < ·.1)
  deriving Repr

namespace Pointers

/-- The table without names. -/
def empty : Pointers := ⟨[], .nil⟩

instance : Inhabited Pointers := ⟨empty⟩

@[ext] theorem ext {a b : Pointers} (h : a.entries = b.entries) : a = b := by
  cases a
  cases b
  cases h
  rfl

/-- The cell of a name. -/
def find? (name : String) (table : Pointers) : Option Nat := Fields.get? name table.entries

/-- Entries with the cell of a name set. -/
def insertEntry (name : String) (cell : Nat) : List (String × Nat) → List (String × Nat)
  | [] => [(name, cell)]
  | (n, i) :: r =>
    if n = name then (name, cell) :: r
    else if name < n then (name, cell) :: (n, i) :: r
    else (n, i) :: insertEntry name cell r

theorem mem_insertEntry {name : String} {cell : Nat} {entries : List (String × Nat)} {e : String × Nat}
    (h : e ∈ insertEntry name cell entries) : e = (name, cell) ∨ e ∈ entries := by
  induction entries with
  | nil => simpa [insertEntry] using h
  | cons x r ih =>
    unfold insertEntry at h
    split at h
    · rcases List.mem_cons.mp h with rfl | h
      · exact .inl rfl
      · exact .inr (List.mem_cons_of_mem _ h)
    · split at h
      · exact List.mem_cons.mp h
      · rcases List.mem_cons.mp h with rfl | h
        · exact .inr (List.mem_cons_self ..)
        · exact (ih h).imp_right (List.mem_cons_of_mem _)

theorem ordered_insertEntry (name : String) (cell : Nat) {entries : List (String × Nat)}
    (h : entries.Pairwise (·.1 < ·.1)) : (insertEntry name cell entries).Pairwise (·.1 < ·.1) := by
  induction entries with
  | nil => simp [insertEntry]
  | cons x r ih =>
    obtain ⟨first, rest⟩ := List.pairwise_cons.mp h
    unfold insertEntry
    split
    · next same => exact List.pairwise_cons.mpr ⟨fun e he => same ▸ first e he, rest⟩
    · next other =>
      split
      · next before =>
        refine List.pairwise_cons.mpr ⟨fun e he => ?_, h⟩
        rcases List.mem_cons.mp he with rfl | he
        · exact before
        · exact String.lt_trans before (first e he)
      · next after =>
        have later : x.1 < name :=
          String.not_le.mp fun le => other (String.le_antisymm (String.not_lt.mp after) le)
        refine List.pairwise_cons.mpr ⟨fun e he => ?_, ih rest⟩
        rcases mem_insertEntry he with rfl | he
        · exact later
        · exact first e he

/-- The table with the cell of a name set. -/
def insert (name : String) (cell : Nat) (table : Pointers) : Pointers :=
  ⟨insertEntry name cell table.entries, ordered_insertEntry name cell table.ordered⟩

/-- The table of the entries in a list; of two entries for one name the last counts. -/
def ofList (entries : List (String × Nat)) : Pointers :=
  entries.foldl (fun acc e => insert e.1 e.2 acc) empty

theorem find?_insert_same (name : String) (cell : Nat) (table : Pointers) :
    find? name (insert name cell table) = some cell := by
  show Fields.get? name (insertEntry name cell table.entries) = some cell
  induction table.entries with
  | nil => simp [insertEntry, Fields.get?]
  | cons e r ih =>
    unfold insertEntry
    split
    · simp [Fields.get?]
    · split <;> simp_all [Fields.get?]

theorem find?_insert_other {name other : String} (h : other ≠ name) (cell : Nat) (table : Pointers) :
    find? other (insert name cell table) = find? other table := by
  show Fields.get? other (insertEntry name cell table.entries) = Fields.get? other table.entries
  induction table.entries with
  | nil => simp [insertEntry, Fields.get?, h.symm]
  | cons e r ih =>
    unfold insertEntry
    split
    · next hk => simp [Fields.get?, hk, h.symm]
    · split
      · simp [Fields.get?, h.symm]
      · simp only [Fields.get?, ih]

end Pointers
end PromptScript
