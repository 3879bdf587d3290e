import PromptScript.Json.Basic

/-! # Records in JSON

Reading JSON into types: a record is an object whose fields are looked up by name, or an array that lists
them in a fixed order; fields beyond those that are asked for do not count. -/
namespace PromptScript.Json

/-- A natural number. -/
def index? : Json → Option Nat
  | .int n => if 0 ≤ n then some n.toNat else none
  | _ => none

/-- A boolean. -/
def bool? : Json → Option Bool
  | .bool b => some b
  | _ => none

/-- Reads a list, given how its items are read. -/
def list? {α : Type} (read : Json → Option α) (j : Json) : Option (List α) :=
  j.arr?.bind fun items => items.mapM read

/-- The fields of a record; an array gives them in the order of `names`. -/
def record? (names : List String) : Json → Option (List (String × Json))
  | .obj fields => some fields
  | .arr items => if items.length ≤ names.length then some (names.zip items) else none
  | _ => none

/-- The kinds that records may have, in order, and whether a kind may be given by its number, too. -/
structure Kinds where
  names : List String
  numbered : Bool

/-- A kind by its name or number. -/
def kind? (kinds : Kinds) : Json → Option String
  | .str s => some s
  | .int n => if kinds.numbered && 0 ≤ n then kinds.names[n.toNat]? else none
  | _ => none

/-- A record of one of several kinds: its kind, and the rest of it. An object gives the kind in the field
`type`, an array in its first item. -/
def tagged? (kinds : Kinds) : Json → Option (String × Json)
  | .obj fields => (Fields.get? "type" fields).bind fun kind =>
      (kind? kinds kind).map (·, .obj (Fields.erase "type" fields))
  | .arr (kind :: items) => (kind? kinds kind).map (·, .arr items)
  | _ => none

/-- A field that has to be there. -/
def need? {α : Type} (name : String) (read : Json → Option α) (fields : List (String × Json)) : Option α :=
  (Fields.get? name fields).bind read

/-- A field that may be missing or null. -/
def allow? {α : Type} (name : String) (read : Json → Option α) (fields : List (String × Json)) :
    Option (Option α) :=
  match Fields.get? name fields with
  | none => some none
  | some .null => some none
  | some j => (read j).map some

/-- A field that may be missing, but is read when it is there. -/
def given? {α : Type} (name : String) (read : Json → Option α) (fields : List (String × Json)) :
    Option (Option α) :=
  match Fields.get? name fields with
  | none => some none
  | some j => (read j).map some

/-- A word that stands for itself: a string, or an object with that word as its only field and nothing in
it. -/
def word? : Json → Option String
  | .str s => some s
  | .obj [(s, .null)] => some s
  | .obj [(s, .obj [])] => some s
  | _ => none

/-- The fields without those that have no value. -/
def present (fields : List (String × Option Json)) : List (String × Json) :=
  fields.filterMap fun (k, j) => j.map (k, ·)

end PromptScript.Json
