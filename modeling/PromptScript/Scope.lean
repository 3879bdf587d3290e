import PromptScript.Json.Record
import PromptScript.Names
import PromptScript.Value.Persisted

/-! # Scopes

A scope is a view of cells that it may share with others: a table leads from each name it knows to a cell
of the stash. Writing a known name writes its cell, so that every scope with a name for that cell sees it;
declaring a name makes a new cell, which only this scope and later copies of its table know. -/
namespace PromptScript

/-- The cells shared by a family of scopes, in the order in which they were made. -/
abbrev Stash := Array Value

structure Scope where
  stash : Stash
  pointers : Pointers
  deriving Inhabited, Repr

namespace Scope

/-- No cells and no names. -/
def empty : Scope := ⟨#[], .empty⟩

/-- Whether a name is known. -/
def has (scope : Scope) (name : String) : Bool := (scope.pointers.find? name).isSome

/-- The value of a known name. A cell that is not there reads as undefined. -/
def get? (scope : Scope) (name : String) : Option Value :=
  (scope.pointers.find? name).map fun i => (scope.stash[i]?).getD .undefined

/-- Makes a new cell for a name, whether or not the name is known already. -/
def declare (scope : Scope) (name : String) (value : Value) : Scope :=
  ⟨scope.stash.push value, scope.pointers.insert name scope.stash.size⟩

/-- Writes the cell of a known name, and declares an unknown one. -/
def set (scope : Scope) (name : String) (value : Value) : Scope :=
  match scope.pointers.find? name with
  | some i =>
    if i < scope.stash.size then { scope with stash := scope.stash.setIfInBounds i value }
    else scope.declare name value
  | none => scope.declare name value

/-- A scope of its own cells with the given names, each set in turn. -/
def ofList (entries : List (String × Value)) : Scope :=
  entries.foldl (fun scope e => scope.set e.1 e.2) empty

/-- The known names. -/
def names (scope : Scope) : Names := scope.pointers.entries.map Prod.fst

theorem get?_declare_same (scope : Scope) (name : String) (value : Value) :
    (scope.declare name value).get? name = some value := by
  simp [get?, declare, Pointers.find?_insert_same]

/-- A declaration leaves other names alone whose cells are there. -/
theorem get?_declare_other {scope : Scope} {name other : String} (h : other ≠ name)
    (there : ∀ i, scope.pointers.find? other = some i → i < scope.stash.size) (value : Value) :
    (scope.declare name value).get? other = scope.get? other := by
  simp only [get?, declare, Pointers.find?_insert_other h]
  cases hf : scope.pointers.find? other with
  | none => rfl
  | some i => simp [Array.getElem?_push, Nat.ne_of_lt (there i hf)]

theorem get?_set_same (scope : Scope) (name : String) (value : Value) :
    (scope.set name value).get? name = some value := by
  unfold set
  split
  · next i h =>
    split
    · next hi => simp [get?, h, hi]
    · exact get?_declare_same scope name value
  · exact get?_declare_same scope name value

/-- Cells are never given up. -/
theorem size_le_size_set (scope : Scope) (name : String) (value : Value) :
    scope.stash.size ≤ (scope.set name value).stash.size := by
  unfold set declare
  split
  · split <;> simp
  · simp

end Scope

/-- The table as JSON. -/
def Pointers.toJson (table : Pointers) : Json := .obj (table.entries.map fun (n, i) => (n, .int i))

/-- The cells in their stored form. -/
def Stash.toStored (stash : Stash) : Json := .arr (Value.itemsToStored stash.toList)

/-- The stored form of a scope. -/
def Scope.toStored (scope : Scope) : Json :=
  .obj [("stash", Stash.toStored scope.stash), ("pointers", Pointers.toJson scope.pointers)]

/-- Reads a table. -/
def Pointers.ofJson? (j : Json) : Option Pointers := do
  let fields ← j.obj?
  let entries ← fields.mapM fun (n, v) => v.index?.map (n, ·)
  return ofList entries

/-- Reads stored cells. -/
def Stash.ofStored? (j : Json) : Option Stash :=
  j.arr?.map fun items => (Value.itemsOfStored items).toArray

/-- Reads a stored scope. -/
def Scope.ofStored? (j : Json) : Option Scope := do
  let fields ← j.record? ["stash", "pointers"]
  return ⟨← Json.need? "stash" Stash.ofStored? fields, ← Json.need? "pointers" Pointers.ofJson? fields⟩

end PromptScript
