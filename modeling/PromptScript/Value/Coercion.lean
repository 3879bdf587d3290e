import PromptScript.Json.Writer
import PromptScript.Number.Reading
import PromptScript.Value.Basic
import PromptScript.Value.Calendar

/-! # Coercions

Every value as a string, as JSON, as the text it renders to, and as a number. -/
namespace PromptScript.Value

mutual

/-- A value as a string. -/
def toText : Value → String
  | undefined => "undefined"
  | null => "null"
  | bool b => if b then "true" else "false"
  | number x => Number.format x
  | string s => s
  | array items => ",".intercalate (itemTexts items)
  | object _ => "[object Object]"
  | date millis => Calendar.isoText millis
  | callable _ => "[Function]"
  | method _ _ _ => "[Function]"

/-- The items of an array as strings; null and undefined are empty. -/
def itemTexts : List Value → List String
  | [] => []
  | v :: r => (if v.isNullish then "" else toText v) :: itemTexts r

end

mutual

/-- A value as JSON. Undefined and functions have no JSON of their own and become null. -/
def toJson : Value → Json
  | undefined => .null
  | null => .null
  | bool b => .bool b
  | number x => Json.ofFloat x
  | string s => .str s
  | array items => .arr (itemsToJson items)
  | object fields => .obj (fieldsToJson fields)
  | date millis => .str (Calendar.isoText millis)
  | callable _ => .null
  | method _ _ _ => .null

def itemsToJson : List Value → List Json
  | [] => []
  | v :: r => toJson v :: itemsToJson r

def fieldsToJson : List (String × Value) → List (String × Json)
  | [] => []
  | (k, v) :: r => (k, toJson v) :: fieldsToJson r

end

mutual

/-- The value that JSON stands for; every number is a double. -/
def ofJson : Json → Value
  | .null => null
  | .bool b => bool b
  | .int n => number (Number.ofInt n)
  | .float x => number x
  | .str s => string s
  | .arr items => array (itemsOfJson items)
  | .obj fields => object (fieldsOfJson fields)

def itemsOfJson : List Json → List Value
  | [] => []
  | j :: r => ofJson j :: itemsOfJson r

def fieldsOfJson : List (String × Json) → List (String × Value)
  | [] => []
  | (k, j) :: r => (k, ofJson j) :: fieldsOfJson r

end

/-- The text of a value in a rendered document: null, arrays, objects and dates are written as JSON,
everything else as a string. -/
def toRendered (v : Value) : String :=
  match v with
  | null | array _ | object _ | date _ => v.toJson.toText
  | v => v.toText

/-- The number a text stands for, or NaN. -/
def numberOfText (s : String) : Float := (Number.ofText? s.toList).getD (0.0 / 0.0)

/-- A value as a number. -/
def toNumber : Value → Float
  | undefined => 0.0 / 0.0
  | null => 0
  | bool b => if b then 1 else 0
  | number x => x
  | string s => numberOfText s
  | array [] => 0
  | array [v] => numberOfText v.toText
  | array _ => 0.0 / 0.0
  | object _ => 0.0 / 0.0
  | date millis => Number.ofInt millis
  | callable _ => 0.0 / 0.0
  | method _ _ _ => 0.0 / 0.0

end PromptScript.Value
