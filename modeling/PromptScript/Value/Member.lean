import PromptScript.Text.Case
import PromptScript.Value.Equality

/-! # Members

Reading a member of a value, calling the built-in ones, and writing a member that is there. -/
namespace PromptScript.Value

/-- The index that a key names. -/
def indexOfKey? (key : String) : Option Nat := Number.readIndex? key.toList

/-- A member of an array: an item, the length, or a built-in. -/
def arrayMember (identity : Nat) (items : List Value) (name : String) : Value :=
  match indexOfKey? name with
  | some i => (items[i]?).getD undefined
  | none =>
    match name with
    | "length" => number (Float.ofNat items.length)
    | "join" => method identity (array items) .join
    | "includes" => method identity (array items) .includes
    | "indexOf" => method identity (array items) .indexOf
    | _ => undefined

/-- A member of a string: a character, the length in characters, or a built-in. -/
def stringMember (identity : Nat) (s : String) (name : String) : Value :=
  match indexOfKey? name with
  | some i => ((s.toList[i]?).map fun c => string (String.ofList [c])).getD undefined
  | none =>
    match name with
    | "length" => number (Float.ofNat s.toList.length)
    | "toUpperCase" => method identity (string s) .toUpperCase
    | "toLowerCase" => method identity (string s) .toLowerCase
    | "trim" => method identity (string s) .trim
    | "includes" => method identity (string s) .includes
    | "startsWith" => method identity (string s) .startsWith
    | "split" => method identity (string s) .split
    | _ => undefined

/-- A member of a value, or undefined if it has no such member; `none` for null and undefined, which have no
members at all. A built-in gets the given identity. -/
def getMember? (identity : Nat) (object : Value) (key : Value) : Option Value :=
  let name := key.toText
  match object with
  | undefined => none
  | null => none
  | .object fields => some ((Fields.get? name fields).getD undefined)
  | array items => some (arrayMember identity items name)
  | string s => some (stringMember identity s name)
  | date millis =>
    match name with
    | "getTime" => some (method identity (date millis) .getTime)
    | "toISOString" => some (method identity (date millis) .toISOString)
    | _ => some undefined
  | number x =>
    match name with
    | "toString" => some (method identity (number x) .toString)
    | "toFixed" => some (method identity (number x) .toFixed)
    | _ => some undefined
  | _ => some undefined

/-- The first argument as a string; without one, the empty string. -/
def firstText : List Value → String
  | [] => ""
  | v :: _ => v.toText

/-- The first argument, or undefined. -/
def first : List Value → Value
  | [] => undefined
  | v :: _ => v

/-- The number of decimal places an argument asks for, held between none and a hundred. -/
def placesOf (args : List Value) : Nat :=
  match args with
  | [] => 0
  | v :: _ =>
    let x := v.toNumber
    if x.isNaN then 0
    else match Number.truncate? x with
      | some n => min n.toNat 100
      | none => if x < 0 then 0 else 100

/-- The parts of a string between separators. Without a separator it is one part, with an empty one every
character is a part. -/
def splitText (s : String) : List Value → List Value
  | [] => [string s]
  | undefined :: _ => [string s]
  | sep :: _ =>
    let sep := sep.toText.toList
    if sep = [] then s.toList.map fun c => string (String.ofList [c])
    else (Text.splitOn sep 0 s.toList).map fun part => string (String.ofList part)

/-- The result of calling a built-in member on the value it was read from. -/
def callBuiltin (receiver : Value) (builtin : Builtin) (args : List Value) : Value :=
  match receiver, builtin with
  | array items, .join =>
    let sep := match args with
      | [] => ","
      | undefined :: _ => ","
      | v :: _ => v.toText
    string (sep.intercalate (itemTexts items))
  | array items, .includes => bool (items.any (·.strictEquals (first args)))
  | array items, .indexOf =>
    match items.findIdx? (·.strictEquals (first args)) with
    | some i => number (Float.ofNat i)
    | none => number (-1)
  | string s, .toUpperCase => string (String.ofList (Text.toUpper s.toList))
  | string s, .toLowerCase => string (String.ofList (Text.toLower s.toList))
  | string s, .trim => string (String.ofList (Text.trim s.toList))
  | string s, .includes => bool (Text.contains (firstText args).toList s.toList)
  | string s, .startsWith => bool (Text.startsWith (firstText args).toList s.toList)
  | string s, .split => array (splitText s args)
  | number x, .toString => string (Number.format x)
  | number x, .toFixed => string (Number.fixed x (placesOf args))
  | date millis, .getTime => number (Number.ofInt millis)
  | date millis, .toISOString => string (Calendar.isoText millis)
  | _, _ => undefined

/-- Whether a number is an index below `n`. -/
def isIndexBelow (n : Nat) (x : Float) : Bool :=
  Number.isWhole x && x ≥ 0 && (match Number.truncate? x with
    | some i => i.toNat < n
    | none => false)

/-- Whether a value has a member of its own that can be written: a field of an object, or an item of an
array, named by a number or by the text of one. -/
def hasOwn (object key : Value) : Bool :=
  match object, key with
  | .object fields, key => Fields.has key.toText fields
  | array items, number x => isIndexBelow items.length x
  | array items, string s => (indexOfKey? s).any (· < items.length)
  | _, _ => false

/-- The value with a member of its own written anew; `none` if it has no such member. -/
def setOwn? (object key value : Value) : Option Value :=
  match object with
  | .object fields =>
    if Fields.has key.toText fields then some (.object (Fields.set key.toText value fields)) else none
  | array items =>
    match indexOfKey? key.toText with
    | some i => if i < items.length then some (array (items.set i value)) else none
    | none => none
  | _ => none

end PromptScript.Value
