import PromptScript.Value.Member

/-! # Operators

The unary and binary operators on values. None of them fails: an operand of the wrong kind is coerced. -/
namespace PromptScript

inductive UnaryOp where
  | not | minus | plus | bitNot | typeOf | void
  deriving DecidableEq, Repr, Inhabited

/-- The binary operators that evaluate both operands. -/
inductive BinaryOp where
  | add | sub | mul | div | rem | pow
  | looseEq | looseNe | strictEq | strictNe
  | lt | le | gt | ge
  | bitAnd | bitOr | bitXor | shl | shr | ushr
  | member
  deriving DecidableEq, Repr, Inhabited

/-- The binary operators that may leave the right operand alone. -/
inductive LogicalOp where
  | and | or | nullish
  deriving DecidableEq, Repr, Inhabited

namespace UnaryOp

/-- The operator as written. -/
def symbol : UnaryOp → String
  | not => "!"
  | minus => "-"
  | plus => "+"
  | bitNot => "~"
  | typeOf => "typeof"
  | void => "void"

def all : List UnaryOp := [not, minus, plus, bitNot, typeOf, void]

/-- The operator with a given symbol. -/
def ofSymbol? (s : String) : Option UnaryOp := all.find? (·.symbol == s)

end UnaryOp

namespace BinaryOp

/-- The operator as written. -/
def symbol : BinaryOp → String
  | add => "+"
  | sub => "-"
  | mul => "*"
  | div => "/"
  | rem => "%"
  | pow => "**"
  | looseEq => "=="
  | looseNe => "!="
  | strictEq => "==="
  | strictNe => "!=="
  | lt => "<"
  | le => "<="
  | gt => ">"
  | ge => ">="
  | bitAnd => "&"
  | bitOr => "|"
  | bitXor => "^"
  | shl => "<<"
  | shr => ">>"
  | ushr => ">>>"
  | member => "in"

def all : List BinaryOp :=
  [add, sub, mul, div, rem, pow, looseEq, looseNe, strictEq, strictNe, lt, le, gt, ge,
    bitAnd, bitOr, bitXor, shl, shr, ushr, member]

/-- The operator with a given symbol. -/
def ofSymbol? (s : String) : Option BinaryOp := all.find? (·.symbol == s)

end BinaryOp

namespace LogicalOp

/-- The operator as written. -/
def symbol : LogicalOp → String
  | and => "&&"
  | or => "||"
  | nullish => "??"

def all : List LogicalOp := [and, or, nullish]

/-- The operator with a given symbol. -/
def ofSymbol? (s : String) : Option LogicalOp := all.find? (·.symbol == s)

/-- Whether a left operand decides the result, so that the right one is not evaluated. -/
def decidedBy : LogicalOp → Value → Bool
  | and, v => !v.isTruthy
  | or, v => v.isTruthy
  | nullish, v => !v.isNullish

end LogicalOp

namespace Value

/-- Applies a unary operator. -/
def unary (op : UnaryOp) (v : Value) : Value :=
  match op with
  | .not => bool (!v.isTruthy)
  | .minus => number (-v.toNumber)
  | .plus => number v.toNumber
  | .bitNot => number (Number.ofInt32 (~~~ Number.toInt32 v.toNumber))
  | .typeOf => string v.typeName
  | .void => undefined

/-- Whether an operand turns an addition into a joining of texts. -/
def joinsAsText : Value → Bool
  | undefined => false
  | null => false
  | bool _ => false
  | number _ => false
  | _ => true

/-- Addition of numbers, or joining of texts if an operand is not a plain number, boolean or nullish. -/
def plus (a b : Value) : Value :=
  if a.joinsAsText || b.joinsAsText then string (a.toText ++ b.toText)
  else number (a.toNumber + b.toNumber)

/-- An order test: two strings by their characters, anything else as numbers. -/
def compareBy (texts : String → String → Bool) (numbers : Float → Float → Bool) (a b : Value) : Value :=
  match a, b with
  | string s, string t => bool (texts s t)
  | a, b => bool (numbers a.toNumber b.toNumber)

/-- An operation on 32-bit integers. -/
def onInt32 (f : Int32 → Int32 → Int32) (a b : Value) : Value :=
  number (Number.ofInt32 (f (Number.toInt32 a.toNumber) (Number.toInt32 b.toNumber)))

/-- The test of `in`: a field of an object, or an index or the length of an array. -/
def holdsKey (object : Value) (key : String) : Bool :=
  match object with
  | .object fields => Fields.has key fields
  | array items => key == "length" || (indexOfKey? key).any (· < items.length)
  | _ => false

/-- Applies a binary operator. -/
def binary (op : BinaryOp) (a b : Value) : Value :=
  match op with
  | .add => plus a b
  | .sub => number (a.toNumber - b.toNumber)
  | .mul => number (a.toNumber * b.toNumber)
  | .div => number (a.toNumber / b.toNumber)
  | .rem => number (Number.remainder a.toNumber b.toNumber)
  | .pow => number (Float.pow a.toNumber b.toNumber)
  | .looseEq => bool (a.looseEquals b)
  | .looseNe => bool (!a.looseEquals b)
  | .strictEq => bool (a.strictEquals b)
  | .strictNe => bool (!a.strictEquals b)
  | .lt => compareBy (fun s t => s < t) (fun x y => x < y) a b
  | .le => compareBy (fun s t => s ≤ t) (fun x y => x ≤ y) a b
  | .gt => compareBy (fun s t => t < s) (fun x y => y < x) a b
  | .ge => compareBy (fun s t => t ≤ s) (fun x y => y ≤ x) a b
  | .bitAnd => onInt32 (· &&& ·) a b
  | .bitOr => onInt32 (· ||| ·) a b
  | .bitXor => onInt32 (· ^^^ ·) a b
  | .shl => onInt32 (fun x y => x <<< (y &&& 31)) a b
  | .shr => onInt32 (fun x y => x >>> (y &&& 31)) a b
  | .ushr =>
    let places := (Number.toInt32 b.toNumber).toUInt32 &&& 31
    number (Float.ofNat ((Number.toInt32 a.toNumber).toUInt32 >>> places).toNat)
  | .member => bool (holdsKey b a.toText)

end Value
end PromptScript
