import PromptScript.Json.Basic
import PromptScript.Number.Reading

/-! # Bare scalars

What a scalar stands for that is written without quotes: null, a boolean, a number, or else its own text. -/
namespace PromptScript.Yaml

/-- Whether a bare scalar stands for null. -/
def isNull (s : String) : Bool := s == "~" || s == "null" || s == "Null" || s == "NULL"

/-- The boolean that a bare scalar stands for. -/
def boolean? (s : String) : Option Bool :=
  if s = "true" ∨ s = "True" ∨ s = "TRUE" then some true
  else if s = "false" ∨ s = "False" ∨ s = "FALSE" then some false
  else none

/-- The number that digits of a base below seventeen write; `none` without digits. -/
def digits? (base : Nat) (ds : List Char) : Option Nat :=
  if ds = [] then none
  else ds.foldl (fun acc c => acc.bind fun n => (Number.hexValue? c).bind fun d =>
    if d < base then some (n * base + d) else none) (some 0)

/-- Whether a scalar is digits after a leading zero, which are no number. -/
def isPadded (cs : List Char) : Bool :=
  match (Number.takeSign cs).2 with
  | '0' :: r => r ≠ [] && r.all Char.isDigit
  | _ => false

/-- The digits of a whole number: after `0x`, `0o` or `0b` those of base sixteen, eight or two, otherwise
decimal ones. -/
def magnitude? (cs : List Char) : Option Nat :=
  match cs with
  | '0' :: 'x' :: r => digits? 16 r
  | '0' :: 'o' :: r => digits? 8 r
  | '0' :: 'b' :: r => digits? 2 r
  | cs => if isPadded cs then none else digits? 10 cs

/-- The whole number of a bare scalar. -/
def integer? (cs : List Char) : Option Int :=
  match cs with
  | '-' :: r => (magnitude? r).map fun n => -(n : Int)
  | '+' :: r => (magnitude? r).map fun n => (n : Int)
  | r => (magnitude? r).map fun n => (n : Int)

/-- The floating number of a bare scalar; infinities and NaN have names of their own, and a decimal beyond
the doubles is no number. -/
def float? (cs : List Char) : Option Float :=
  let (negative, r) := Number.takeSign cs
  let named := fun (names : List String) (r : List Char) => names.any fun n => n.toList = r
  if named [".inf", ".Inf", ".INF"] r then some (if negative then -1.0 / 0.0 else 1.0 / 0.0)
  else if named [".nan", ".NaN", ".NAN"] cs then some (0.0 / 0.0)
  else (Number.readDecimal? cs).filter fun x => x.isFinite

/-- How large a whole number is: it fits 64 bits, or only 128, or neither. -/
inductive Width where
  | word | wide | beyond
  deriving DecidableEq, Repr, Inhabited

/-- The width of a whole number. -/
def width (n : Int) : Width :=
  if -(Nat.pow 2 63 : Nat) ≤ n ∧ n < (Nat.pow 2 64 : Nat) then .word
  else if -(Nat.pow 2 127 : Nat) ≤ n ∧ n < (Nat.pow 2 128 : Nat) then .wide
  else .beyond

/-- What a bare scalar stands for. -/
inductive Meaning where
  | null
  | bool (b : Bool)
  | int (n : Int)
  /-- A whole number that nothing has room for. -/
  | oversized
  | float (x : Float)
  | text

/-- The whole number of a scalar as a meaning; one beyond 128 bits is left to the floating numbers. -/
def integerMeaning? (cs : List Char) : Option Meaning :=
  (integer? cs).bind fun n => match width n with
    | .word => some (.int n)
    | .wide => some .oversized
    | .beyond => none

/-- What a bare scalar stands for. -/
def meaning (s : String) : Meaning :=
  let cs := s.toList
  if s = "" ∨ isNull s then .null
  else match boolean? s with
    | some b => .bool b
    | none =>
      match integerMeaning? cs with
      | some m => m
      | none =>
        if isPadded cs then .text
        else match float? cs with
          | some x => .float x
          | none => .text

/-- A meaning as JSON, for a scalar with the given text. Numbers that JSON does not have become null. -/
def Meaning.toJson? (s : String) : Meaning → Option Json
  | null => some .null
  | bool b => some (.bool b)
  | int n => some (.int n)
  | oversized => none
  | float x => some (if x.isFinite then .float x else .null)
  | text => some (.str s)

end PromptScript.Yaml
