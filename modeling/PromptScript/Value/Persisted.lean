import PromptScript.Value.Coercion

/-! # Stored values

State that has to come back exactly is written as JSON in which undefined has a mark of its own, an object
with the single field `__promptlType`, so that it is told apart from null. -/
namespace PromptScript.Value

/-- The field that marks an object as standing for something else. -/
def typeField : String := "__promptlType"

/-- The mark that stands for undefined. -/
def undefinedMark : Json := .obj [(typeField, .str "undefined")]

mutual

/-- The stored form of a value. -/
def toStored : Value → Json
  | undefined => undefinedMark
  | array items => .arr (itemsToStored items)
  | object fields => .obj (fieldsToStored fields)
  | v => v.toJson

def itemsToStored : List Value → List Json
  | [] => []
  | v :: r => toStored v :: itemsToStored r

def fieldsToStored : List (String × Value) → List (String × Json)
  | [] => []
  | (k, v) :: r => (k, toStored v) :: fieldsToStored r

end

/-- Whether fields are the mark of undefined. -/
def isUndefinedMark : List (String × Json) → Bool
  | [(k, .str s)] => k == typeField && s == "undefined"
  | _ => false

mutual

/-- The value that a stored form stands for. -/
def ofStored : Json → Value
  | .obj fields => if isUndefinedMark fields then undefined else object (fieldsOfStored fields)
  | .arr items => array (itemsOfStored items)
  | .null => null
  | .bool b => bool b
  | .int n => number (Number.ofInt n)
  | .float x => number x
  | .str s => string s

def itemsOfStored : List Json → List Value
  | [] => []
  | j :: r => ofStored j :: itemsOfStored r

def fieldsOfStored : List (String × Json) → List (String × Value)
  | [] => []
  | (k, j) :: r => (k, ofStored j) :: fieldsOfStored r

end

end PromptScript.Value
