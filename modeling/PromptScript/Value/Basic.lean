import PromptScript.Fields

/-! # Values

What expressions work on: the dynamic values of the template language. -/
namespace PromptScript

/-- The members that strings, numbers, arrays and dates have of their own and that can be called. -/
inductive Builtin where
  | join | includes | indexOf
  | toUpperCase | toLowerCase | trim | startsWith | split
  | toString | toFixed
  | getTime | toISOString
  deriving DecidableEq, Repr, Inhabited

inductive Value where
  | undefined
  | null
  | bool (b : Bool)
  | number (x : Float)
  | string (s : String)
  | array (items : List Value)
  /-- Named values in the order of first insertion; no name occurs twice. -/
  | object (fields : List (String × Value))
  /-- A point in time, in milliseconds since the start of 1970. -/
  | date (millis : Int)
  /-- A function that the caller supplied, known by its identity. -/
  | callable (identity : Nat)
  /-- A built-in member bound to the value it was read from. Each read makes a new identity. -/
  | method (identity : Nat) (receiver : Value) (builtin : Builtin)
  deriving Inhabited, Repr

namespace Value

/-- Null and undefined. -/
def isNullish : Value → Bool
  | undefined => true
  | null => true
  | _ => false

/-- Whether a value counts as true in a condition. -/
def isTruthy : Value → Bool
  | undefined => false
  | null => false
  | bool b => b
  | number x => x != 0 && !x.isNaN
  | string s => s ≠ ""
  | _ => true

/-- The name that `typeof` gives. -/
def typeName : Value → String
  | undefined => "undefined"
  | bool _ => "boolean"
  | number _ => "number"
  | string _ => "string"
  | callable _ => "function"
  | method _ _ _ => "function"
  | _ => "object"

/-- Whether a value can be called. -/
def isFunction : Value → Bool
  | callable _ => true
  | method _ _ _ => true
  | _ => false

/-- The text of a string. -/
def string? : Value → Option String
  | string s => some s
  | _ => none

/-- The fields of an object. -/
def object? : Value → Option (List (String × Value))
  | object fields => some fields
  | _ => none

/-- The object with the given entries. -/
def ofEntries (entries : List (String × Value)) : Value := object (Fields.ofList entries)

end Value
end PromptScript
