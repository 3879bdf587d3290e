import PromptScript.Proofs.Resuming

/-! # Tables and their cells

A table is sound for a stash if each name leads to a cell that is there, and no two names to the same one. Whatever is
done with the names of a sound scope leaves it sound, and never comes to a cell that is not there: with anything else
put in the place of what is done then, it does the same. The tables in the marks of a document belong to the cells that
are saved at the closed part around them, or to those of the pass. -/
namespace PromptScript

/-- A table leads to cells that are there, to each of them from one name. -/
structure Pointers.Sound (size : Nat) (table : Pointers) : Prop where
  there : ∀ name cell, table.find? name = some cell → cell < size
  apart : ∀ name other cell, table.find? name = some cell → table.find? other = some cell → name = other

theorem Pointers.sound_empty (size : Nat) : Pointers.empty.Sound size where
  there _ _ := by rintro ⟨⟩
  apart _ _ _ := by rintro ⟨⟩

/-- Cells are added, never taken away. -/
theorem Pointers.Sound.mono {size more : Nat} {table : Pointers} (h : table.Sound size) (le : size ≤ more) :
    table.Sound more :=
  ⟨fun name cell found => Nat.lt_of_lt_of_le (h.there name cell found) le, h.apart⟩

/-- The table of a scope is sound for its cells. -/
def Scope.Sound (scope : Scope) : Prop := scope.pointers.Sound scope.stash.size

/-- What is done with a name whose cell is not there. -/
structure Fallback where
  get : Scope → String → Except Fault (Option Value)
  set : Scope → String → Value → Except Fault Scope

namespace Scope

variable (other : Fallback)

/-- The value of a known name, with something else in the place of what is done without its cell. -/
def getOr (scope : Scope) (name : String) : Except Fault (Option Value) :=
  match scope.pointers.find? name with
  | none => .ok none
  | some i =>
    match scope.stash[i]? with
    | some v => .ok (some v)
    | none => other.get scope name

/-- Writes the cell of a known name or declares an unknown one, with something else in the place of what is done
without the cell. -/
def setOr (scope : Scope) (name : String) (value : Value) : Except Fault Scope :=
  match scope.pointers.find? name with
  | none => .ok (scope.declare name value)
  | some i =>
    if i < scope.stash.size then .ok { scope with stash := scope.stash.setIfInBounds i value }
    else other.set scope name value

/-- A scope of its own cells with the given names, each set in turn. -/
def ofListOr (entries : List (String × Value)) : Except Fault Scope :=
  entries.foldlM (fun scope e => scope.setOr other e.1 e.2) empty

section Sound

variable {scope : Scope} (sound : scope.Sound)
include sound

theorem Sound.getOr_eq (name : String) : scope.getOr other name = .ok (scope.get? name) := by
  unfold getOr get?
  cases found : scope.pointers.find? name with
  | none => rfl
  | some i =>
    obtain ⟨v, there⟩ : ∃ v, scope.stash[i]? = some v := ⟨_, Array.getElem?_eq_getElem (sound.there name i found)⟩
    simp only [Option.map_some, there, Option.getD_some]

theorem Sound.setOr_eq (name : String) (v : Value) : scope.setOr other name v = .ok (scope.set name v) := by
  unfold setOr set
  cases found : scope.pointers.find? name with
  | none => rfl
  | some i =>
    dsimp only
    rw [if_pos (sound.there name i found), if_pos (sound.there name i found)]

theorem Sound.declare (name : String) (v : Value) : (scope.declare name v).Sound := by
  have size : (scope.declare name v).stash.size = scope.stash.size + 1 := Array.size_push _
  have old : ∀ n cell, n ≠ name → (scope.declare name v).pointers.find? n = some cell →
      scope.pointers.find? n = some cell := by
    intro n cell ne found
    rwa [show (scope.declare name v).pointers = scope.pointers.insert name scope.stash.size from rfl,
      Pointers.find?_insert_other ne] at found
  have new : ∀ cell, (scope.declare name v).pointers.find? name = some cell → cell = scope.stash.size := by
    intro cell found
    rw [show (scope.declare name v).pointers = scope.pointers.insert name scope.stash.size from rfl,
      Pointers.find?_insert_same] at found
    exact (Option.some.inj found).symm
  refine ⟨fun n cell found => ?_, fun n m cell found found' => ?_⟩
  · rw [size]
    by_cases same : n = name
    · subst same
      exact Nat.lt_succ_of_le (Nat.le_of_eq (new cell found))
    · exact Nat.lt_succ_of_lt (sound.there n cell (old n cell same found))
  · by_cases same : n = name
    · subst same
      by_cases same' : m = n
      · exact same'.symm
      · have there := sound.there m cell (old m cell same' found')
        rw [new cell found] at there
        exact absurd there (Nat.lt_irrefl _)
    · by_cases same' : m = name
      · subst same'
        have there := sound.there n cell (old n cell same found)
        rw [new cell found'] at there
        exact absurd there (Nat.lt_irrefl _)
      · exact sound.apart n m cell (old n cell same found) (old m cell same' found')

theorem Sound.set (name : String) (v : Value) : (scope.set name v).Sound := by
  unfold Scope.set
  cases found : scope.pointers.find? name with
  | none => exact sound.declare name v
  | some i =>
    dsimp only
    rw [if_pos (sound.there name i found)]
    show scope.pointers.Sound (scope.stash.setIfInBounds i v).size
    rw [Array.size_setIfInBounds]
    exact sound

end Sound

theorem sound_empty : empty.Sound := Pointers.sound_empty 0

/-- The scopes of parameters and attributes are sound, and are made without coming to a cell that is not there. -/
theorem ofListOr_eq (entries : List (String × Value)) :
    ofListOr other entries = .ok (ofList entries) ∧ (ofList entries).Sound := by
  unfold ofListOr ofList
  generalize empty = scope, sound_empty = sound
  induction entries generalizing scope with
  | nil => exact ⟨rfl, sound⟩
  | cons e r ih =>
    rw [List.foldlM_cons, Sound.setOr_eq other sound]
    exact ih _ (sound.set e.1 e.2)

end Scope

/-! ## Tables in marks -/

namespace Node

/-- The table in marks, with the number of cells that it belongs to. -/
def tableOf (size : Nat) (p : Option Progress) : List (Pointers × Nat) :=
  (p.bind Progress.pointers).toList.map (·, size)

/-- The number of the cells that the tables in a tag belong to: those that a closed part has saved, or those around
it. -/
def cellsIn (size : Nat) (tag : Tag) (p : Option Progress) : Nat :=
  match tag with
  | .scope => (p.bind Progress.stash).elim size Array.size
  | _ => size

mutual

/-- The tables in the marks of a node and of all nodes in it, each with the number of cells that it belongs to. -/
def tables (size : Nat) : Node → List (Pointers × Nat)
  | text _ _ p | comment _ _ p | config _ _ p | interpolation _ _ p => tableOf size p
  | choice _ _ body none p => tableOf size p ++ tablesAll size body
  | choice _ _ body (some other) p => tableOf size p ++ (tablesAll size body ++ tablesAll size other)
  | loop _ _ _ _ body none p => tableOf size p ++ tablesAll size body
  | loop _ _ _ _ body (some other) p => tableOf size p ++ (tablesAll size body ++ tablesAll size other)
  | element _ tag attributes body p =>
    tableOf (cellsIn size tag p) p ++ (tablesOfAttributes size attributes ++ tablesAll (cellsIn size tag p) body)
  | group _ body p => tableOf size p ++ tablesAll size body

def tablesAll (size : Nat) : List Node → List (Pointers × Nat)
  | [] => []
  | n :: r => tables size n ++ tablesAll size r

def tablesOfAttributes (size : Nat) : List Attribute → List (Pointers × Nat)
  | [] => []
  | .mk _ _ .flag :: r => tablesOfAttributes size r
  | .mk _ _ (.nodes parts) :: r => tablesAll size parts ++ tablesOfAttributes size r

end

/-- Marks without a table. -/
def Tableless (p : Option Progress) : Prop := p.bind Progress.pointers = none

/-- No table is in the marks of a node, or in it. -/
def Untabled (n : Node) : Prop := ∀ size, n.tables size = []

def UntabledAll (nodes : List Node) : Prop := ∀ size, tablesAll size nodes = []

/-- No table is in the parts of attributes. -/
def UntabledAttributes (attributes : List Attribute) : Prop := ∀ size, tablesOfAttributes size attributes = []

section Untabled

variable {span : Span} {body r : List Node} {other : Option (List Node)} {p : Option Progress} {n : Node}

theorem tableOf_eq_nil_iff {size : Nat} : tableOf size p = [] ↔ Tableless p := by
  unfold tableOf Tableless
  cases p.bind Progress.pointers with
  | none => exact ⟨fun _ => rfl, fun _ => rfl⟩
  | some table => exact ⟨by rintro ⟨⟩, by rintro ⟨⟩⟩

mutual

/-- Which tables there are does not depend on the cells. -/
theorem tables_eq_nil (a b : Nat) : ∀ n : Node, n.tables a = [] → n.tables b = []
  | .text _ _ _ | .comment _ _ _ | .config _ _ _ | .interpolation _ _ _ => fun none_ =>
    tableOf_eq_nil_iff.mpr (tableOf_eq_nil_iff.mp none_)
  | .choice _ _ body none _ | .loop _ _ _ _ body none _ | .group _ body _ => fun none_ => by
    obtain ⟨own, inside⟩ := List.append_eq_nil_iff.mp none_
    exact List.append_eq_nil_iff.mpr
      ⟨tableOf_eq_nil_iff.mpr (tableOf_eq_nil_iff.mp own), tablesAll_eq_nil a b body inside⟩
  | .choice _ _ body (some other) _ | .loop _ _ _ _ body (some other) _ => fun none_ => by
    obtain ⟨own, inside⟩ := List.append_eq_nil_iff.mp none_
    obtain ⟨inside, beside⟩ := List.append_eq_nil_iff.mp inside
    exact List.append_eq_nil_iff.mpr ⟨tableOf_eq_nil_iff.mpr (tableOf_eq_nil_iff.mp own),
      List.append_eq_nil_iff.mpr ⟨tablesAll_eq_nil a b body inside, tablesAll_eq_nil a b other beside⟩⟩
  | .element _ _ attributes body _ => fun none_ => by
    obtain ⟨own, inside⟩ := List.append_eq_nil_iff.mp none_
    obtain ⟨parts, inside⟩ := List.append_eq_nil_iff.mp inside
    exact List.append_eq_nil_iff.mpr ⟨tableOf_eq_nil_iff.mpr (tableOf_eq_nil_iff.mp own),
      List.append_eq_nil_iff.mpr ⟨tablesOfAttributes_eq_nil a b attributes parts, tablesAll_eq_nil _ _ body inside⟩⟩

theorem tablesAll_eq_nil (a b : Nat) : ∀ nodes : List Node, tablesAll a nodes = [] → tablesAll b nodes = []
  | [] => fun _ => rfl
  | n :: r => fun none_ => by
    obtain ⟨first, rest⟩ := List.append_eq_nil_iff.mp none_
    exact List.append_eq_nil_iff.mpr ⟨tables_eq_nil a b n first, tablesAll_eq_nil a b r rest⟩

theorem tablesOfAttributes_eq_nil (a b : Nat) : ∀ attributes : List Attribute,
    tablesOfAttributes a attributes = [] → tablesOfAttributes b attributes = []
  | [] => fun _ => rfl
  | .mk _ _ .flag :: r => tablesOfAttributes_eq_nil a b r
  | .mk _ _ (.nodes parts) :: r => fun none_ => by
    obtain ⟨first, rest⟩ := List.append_eq_nil_iff.mp none_
    exact List.append_eq_nil_iff.mpr ⟨tablesAll_eq_nil a b parts first, tablesOfAttributes_eq_nil a b r rest⟩

end

theorem untabledAll_nil : UntabledAll [] := fun _ => rfl

theorem untabledAll_cons : UntabledAll (n :: r) ↔ n.Untabled ∧ UntabledAll r := by
  unfold UntabledAll Untabled
  simp only [tablesAll, List.append_eq_nil_iff, forall_and]

theorem untabled_group : (group span body p).Untabled ↔ Tableless p ∧ UntabledAll body := by
  unfold UntabledAll Untabled
  simp only [tables, List.append_eq_nil_iff, forall_and, tableOf_eq_nil_iff, forall_const]

theorem untabled_choice {test : Expr} : (choice span test body other p).Untabled ↔
    Tableless p ∧ UntabledAll body ∧ ∀ nodes, other = some nodes → UntabledAll nodes := by
  unfold UntabledAll Untabled
  cases other <;> simp [tables, List.append_eq_nil_iff, forall_and, tableOf_eq_nil_iff]

theorem untabled_loop {items : Expr} {item : Binding} {index : Option Binding} :
    (loop span items item index body other p).Untabled ↔
      Tableless p ∧ UntabledAll body ∧ ∀ nodes, other = some nodes → UntabledAll nodes := by
  unfold UntabledAll Untabled
  cases other <;> simp [tables, List.append_eq_nil_iff, forall_and, tableOf_eq_nil_iff]

theorem untabled_element {tag : Tag} {attributes : List Attribute} : (element span tag attributes body p).Untabled ↔
    Tableless p ∧ UntabledAttributes attributes ∧ UntabledAll body := by
  unfold UntabledAll Untabled UntabledAttributes
  simp only [tables, List.append_eq_nil_iff, forall_and, tableOf_eq_nil_iff, forall_const]
  constructor
  · rintro ⟨own, parts, inside⟩
    exact ⟨own, parts, fun size => tablesAll_eq_nil _ size body (inside 0)⟩
  · rintro ⟨own, parts, inside⟩
    exact ⟨own, parts, fun size => inside _⟩

theorem Tableless.finished (h : Tableless p) : Tableless (some { p.getD {} with done := true }) := by
  cases p with
  | none => rfl
  | some q => exact h

/-- That a node is done makes no difference. -/
theorem Untabled.finished (h : n.Untabled) : n.finished.Untabled := by
  cases n with
  | text | comment | config | interpolation =>
    exact fun _ => tableOf_eq_nil_iff.mpr (Tableless.finished (tableOf_eq_nil_iff.mp (h 0)))
  | choice =>
    obtain ⟨own, inside⟩ := untabled_choice.mp h
    exact untabled_choice.mpr ⟨own.finished, inside⟩
  | loop =>
    obtain ⟨own, inside⟩ := untabled_loop.mp h
    exact untabled_loop.mpr ⟨own.finished, inside⟩
  | element =>
    obtain ⟨own, inside⟩ := untabled_element.mp h
    exact untabled_element.mpr ⟨own.finished, inside⟩
  | group =>
    obtain ⟨own, inside⟩ := untabled_group.mp h
    exact untabled_group.mpr ⟨own.finished, inside⟩

mutual

/-- Nor do marks that are taken away. -/
theorem Untabled.cleared : ∀ {n : Node}, n.Untabled → n.cleared.Untabled
  | .text _ _ _ | .comment _ _ _ | .config _ _ _ | .interpolation _ _ _ => fun _ _ => rfl
  | .group _ body _ => fun h => by
    obtain ⟨-, inside⟩ := untabled_group.mp h
    exact untabled_group.mpr ⟨rfl, inside.clearedAll⟩
  | .choice _ _ body none _ => fun h => by
    obtain ⟨-, inside, -⟩ := untabled_choice.mp h
    exact untabled_choice.mpr ⟨rfl, inside.clearedAll, by rintro _ ⟨⟩⟩
  | .choice _ _ body (some other) _ => fun h => by
    obtain ⟨-, inside, beside⟩ := untabled_choice.mp h
    exact untabled_choice.mpr ⟨rfl, inside.clearedAll, by rintro _ ⟨⟩; exact (beside other rfl).clearedAll⟩
  | .loop _ _ _ _ body none _ => fun h => by
    obtain ⟨-, inside, -⟩ := untabled_loop.mp h
    exact untabled_loop.mpr ⟨rfl, inside.clearedAll, by rintro _ ⟨⟩⟩
  | .loop _ _ _ _ body (some other) _ => fun h => by
    obtain ⟨-, inside, beside⟩ := untabled_loop.mp h
    exact untabled_loop.mpr ⟨rfl, inside.clearedAll, by rintro _ ⟨⟩; exact (beside other rfl).clearedAll⟩
  | .element _ _ attributes body _ => fun h => by
    obtain ⟨-, parts, inside⟩ := untabled_element.mp h
    exact untabled_element.mpr ⟨rfl, parts, inside.clearedAll⟩

theorem UntabledAll.clearedAll : ∀ {nodes : List Node}, UntabledAll nodes → UntabledAll (clearedAll nodes)
  | [] => fun h => h
  | n :: r => fun h => by
    obtain ⟨first, rest⟩ := untabledAll_cons.mp h
    exact untabledAll_cons.mpr ⟨first.cleared, rest.clearedAll⟩

end

end Untabled

end Node

/-- All tables in the marks of a document. -/
def Document.tables (size : Nat) (d : Document) : List (Pointers × Nat) :=
  Node.tableOf size d.progress ++ Node.tablesAll size d.body

end PromptScript
