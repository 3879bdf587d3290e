import PromptScript.Fields
import PromptScript.Number.Binary64

/-! # JSON values

Plain data. Objects keep their fields in order, and whole numbers are kept apart from floating ones: a
number that is read as `1.0` is written as `1.0`. -/
namespace PromptScript

inductive Json where
  | null
  | bool (b : Bool)
  /-- A whole number, of at most 64 bits. -/
  | int (n : Int)
  /-- A finite double. -/
  | float (x : Float)
  | str (s : String)
  | arr (items : List Json)
  | obj (fields : List (String × Json))
  deriving Inhabited, Repr, BEq

namespace Json

/-- A double as JSON: a whole number that doubles hold one by one loses its point, and what JSON has no
number for becomes null. -/
def ofFloat (x : Float) : Json :=
  match Real64.ofFloat x with
  | .finite negative m e =>
    let n := Real64.scale m e
    if Real64.isWhole m e ∧ n ≤ Number.maxSafeInteger then .int (if negative then -(n : Int) else n)
    else .float x
  | _ => .null

/-- The double nearest to a number. -/
def toFloat? : Json → Option Float
  | .int n => some (Number.ofInt n)
  | .float x => some x
  | _ => none

/-- The text of a string. -/
def str? : Json → Option String
  | .str s => some s
  | _ => none

/-- The items of an array. -/
def arr? : Json → Option (List Json)
  | .arr items => some items
  | _ => none

/-- The fields of an object. -/
def obj? : Json → Option (List (String × Json))
  | .obj fields => some fields
  | _ => none

/-- A field of an object. -/
def field? (name : String) : Json → Option Json
  | .obj fields => Fields.get? name fields
  | _ => none

mutual

/-- How many arrays and objects lie within each other. -/
def depth : Json → Nat
  | .arr items => 1 + depthItems items
  | .obj fields => 1 + depthFields fields
  | _ => 0

def depthItems : List Json → Nat
  | [] => 0
  | j :: r => max (depth j) (depthItems r)

def depthFields : List (String × Json) → Nat
  | [] => 0
  | (_, j) :: r => max (depth j) (depthFields r)

end

end Json
end PromptScript
