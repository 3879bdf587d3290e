import PromptScript.Number.Binary64
import PromptScript.Text.Blank

/-! # Reading numbers

The decimal grammar shared by expressions, coercions and headers: a sign, digits with an optional point,
and an optional exponent, read as the nearest double. -/
namespace PromptScript.Number

/-- The value of a decimal digit. -/
def digitValue (c : Char) : Nat := c.toNat - '0'.toNat

/-- The number that a list of decimal digits writes. -/
def ofDigits (ds : List Char) : Nat := ds.foldl (fun n c => n * 10 + digitValue c) 0

/-- The double nearest to `digits · 10 ^ exponent`. Exponents far out of range are cut short: no double
lies there. -/
def nearest (digits : Nat) (exponent : Int) : Float :=
  if digits = 0 then 0
  else
    let magnitude := exponent + (Nat.log2 digits * 3 / 10 : Nat)
    if 400 < magnitude then 1.0 / 0.0
    else if magnitude < -800 then 0
    else Real64.toFloat (Real64.nearestBits (digits * Nat.pow 10 exponent.toNat) (Nat.pow 10 (-exponent).toNat))

/-- An optional sign, and what follows it. -/
def takeSign : List Char → Bool × List Char
  | '-' :: r => (true, r)
  | '+' :: r => (false, r)
  | cs => (false, cs)

/-- An exponent that ends the text: `e`, an optional sign, and digits. -/
def readExponent? : List Char → Option Int
  | [] => some 0
  | c :: r =>
    if c = 'e' ∨ c = 'E' then
      let (negative, ds) := takeSign r
      if ds ≠ [] ∧ ds.all Char.isDigit then
        some (if negative then -(ofDigits ds : Int) else (ofDigits ds : Int))
      else none
    else none

/-- Reads an unsigned decimal: digits on at least one side of an optional point, then an optional
exponent. -/
def readUnsigned? (cs : List Char) : Option Float :=
  let (whole, r) := Text.spanWhile Char.isDigit cs
  let (places, r) := match r with
    | '.' :: r => Text.spanWhile Char.isDigit r
    | r => ([], r)
  if whole = [] ∧ places = [] then none
  else (readExponent? r).map fun e => nearest (ofDigits (whole ++ places)) (e - places.length)

/-- Reads a decimal with an optional sign. -/
def readDecimal? (cs : List Char) : Option Float :=
  let (negative, r) := takeSign cs
  (readUnsigned? r).map fun x => if negative then -x else x

/-- The value of a hexadecimal digit. -/
def hexValue? (c : Char) : Option Nat :=
  if c.isDigit then some (c.toNat - '0'.toNat)
  else if 'a' ≤ c ∧ c ≤ 'f' then some (c.toNat - 'a'.toNat + 10)
  else if 'A' ≤ c ∧ c ≤ 'F' then some (c.toNat - 'A'.toNat + 10)
  else none

/-- The number that hexadecimal digits write; `none` without digits or with another character. -/
def readHex? : List Char → Option Nat
  | [] => none
  | cs => cs.foldl (fun n? c => n?.bind fun n => (hexValue? c).map (n * 16 + ·)) (some 0)

/-- Reads an index: decimal digits after an optional plus sign, below `2 ^ 64`. -/
def readIndex? (cs : List Char) : Option Nat :=
  let ds := match cs with
    | '+' :: r => r
    | r => r
  if ds ≠ [] ∧ ds.all Char.isDigit ∧ ofDigits ds < Nat.pow 2 64 then some (ofDigits ds) else none

/-- The number that a text stands for when a number is wanted: blanks around it do not count, an empty
text is zero, infinity is spelt out, a `0x` announces hexadecimal digits (with an optional sign, within
64 bits), anything else is a decimal; `none` if it is none of these. -/
def ofText? (text : List Char) : Option Float :=
  let t := Text.trim text
  if t = [] then some 0
  else if t = "Infinity".toList ∨ t = "+Infinity".toList then some (1.0 / 0.0)
  else if t = "-Infinity".toList then some (-1.0 / 0.0)
  else match (Text.dropLead? ['0', 'x'] t).or (Text.dropLead? ['0', 'X'] t) with
    | some r =>
      let (negative, ds) := takeSign r
      (readHex? ds).bind fun n =>
        if negative then (if n ≤ Nat.pow 2 63 then some (ofInt (-n)) else none)
        else if n < Nat.pow 2 63 then some (ofInt n) else none
    | none =>
      if t.any (fun c => c.isAlpha && c != 'e' && c != 'E') then none else readDecimal? t

end PromptScript.Number
