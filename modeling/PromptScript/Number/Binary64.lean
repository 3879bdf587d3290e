/-! # Doubles as exact numbers

A finite double is `± m · 2 ^ e` for naturals `m < 2 ^ 53`. This module reads that form off the bits
and writes it back, so that what the library does with a double beyond the four basic operations
(truncation, remainder, the choice of decimal digits) is done in exact integer arithmetic. -/
namespace PromptScript

/-- What the bits of a double stand for. -/
inductive Real64 where
  | nan
  | infinite (negative : Bool)
  /-- The number `m · 2 ^ e`, negated if `negative`. -/
  | finite (negative : Bool) (m : Nat) (e : Int)
  deriving DecidableEq, Repr

namespace Real64

/-- Reads a bit pattern: one sign bit, eleven exponent bits, fifty-two fraction bits. -/
def ofBits (bits : Nat) : Real64 :=
  let negative := bits / Nat.pow 2 63 % 2 == 1
  let exponent : Nat := bits / Nat.pow 2 52 % Nat.pow 2 11
  let fraction : Nat := bits % Nat.pow 2 52
  if exponent = 2047 then (if fraction = 0 then .infinite negative else .nan)
  else if exponent = 0 then .finite negative fraction (-1074)
  else .finite negative (Nat.pow 2 52 + fraction) ((exponent : Int) - 1075)

/-- What a double stands for. -/
def ofFloat (x : Float) : Real64 := ofBits x.toBits.toNat

/-- `m · 2 ^ e` cut down to a natural number. -/
def scale (m : Nat) (e : Int) : Nat :=
  if 0 ≤ e then m * Nat.pow 2 e.toNat else m / Nat.pow 2 (-e).toNat

/-- Whether `m · 2 ^ e` is a whole number. -/
def isWhole (m : Nat) (e : Int) : Bool := 0 ≤ e || m % Nat.pow 2 (-e).toNat == 0

/-- The bits of `± m · 2 ^ e`, for a number that a double can hold. -/
def encode (negative : Bool) (m : Nat) (e : Int) : Nat :=
  let sign := if negative then Nat.pow 2 63 else 0
  if m = 0 then sign
  else
    let top := e + (Nat.log2 m : Int)
    if top < -1022 then sign + scale m (e + 1074)
    else sign + (top + 1023).toNat * Nat.pow 2 52 + (scale m (52 - (Nat.log2 m : Int)) - Nat.pow 2 52)

/-- `num / den` rounded to a natural number, a half going to the even neighbour. -/
def roundDiv (num den : Nat) : Nat :=
  let q := num / den
  let r := num % den
  if den < 2 * r ∨ (2 * r = den ∧ q % 2 = 1) then q + 1 else q

/-- The greatest `l` with `2 ^ l ≤ num / den`, for naturals other than zero. -/
def binaryPlace (num den : Nat) : Int :=
  let l := (Nat.log2 num : Int) - Nat.log2 den
  if den * Nat.pow 2 l.toNat ≤ num * Nat.pow 2 (-l).toNat then l else l - 1

/-- The bits of the double nearest to `num / den`, a half going to the even neighbour; those of infinity
beyond the greatest double. -/
def nearestBits (num den : Nat) : Nat :=
  if num = 0 then 0
  else
    -- The last place of a double of this size; below the normal doubles it stays the same.
    let e := max (binaryPlace num den - 52) (-1074)
    let m := roundDiv (num * Nat.pow 2 (-e).toNat) (den * Nat.pow 2 e.toNat)
    min ((e + 1074).toNat * Nat.pow 2 52 + m) (2047 * Nat.pow 2 52)

/-- The double with the given bits. -/
def toFloat (bits : Nat) : Float := Float.ofBits (UInt64.ofNat bits)

end Real64

namespace Number

/-- Whether a double is a whole number; false of NaN and the infinities. -/
def isWhole (x : Float) : Bool :=
  match Real64.ofFloat x with
  | .finite _ m e => Real64.isWhole m e
  | _ => false

/-- A double cut down toward zero; `none` for NaN and the infinities. -/
def truncate? (x : Float) : Option Int :=
  match Real64.ofFloat x with
  | .finite negative m e =>
    some (if negative then -(Real64.scale m e : Int) else (Real64.scale m e : Int))
  | _ => none

/-- The double nearest to an integer. -/
def ofInt (n : Int) : Float := if n < 0 then -Float.ofNat n.natAbs else Float.ofNat n.natAbs

/-- The remainder of a division cut down toward zero, with the sign of the dividend. -/
def remainder (x y : Float) : Float :=
  match Real64.ofFloat x, Real64.ofFloat y with
  | .finite negative m e, .finite _ n f =>
    if n = 0 then 0.0 / 0.0
    else
      let low := min e f
      let rest := (m * Nat.pow 2 (e - low).toNat) % (n * Nat.pow 2 (f - low).toNat)
      Real64.toFloat (Real64.encode negative rest low)
  | .finite _ _ _, .infinite _ => x
  | _, _ => 0.0 / 0.0

/-- A number cut down to 32 bits, read as a signed integer: truncated toward zero, then taken modulo
`2 ^ 32`; zero for NaN and the infinities. -/
def toInt32 (x : Float) : Int32 :=
  match truncate? x with
  | some n => Int32.ofInt n
  | none => 0

/-- The double nearest to a 32-bit integer, which holds it exactly. -/
def ofInt32 (n : Int32) : Float := ofInt n.toInt

/-- The integers of 53 bits, which doubles hold one by one. -/
def maxSafeInteger : Nat := Nat.pow 2 53 - 1

end Number
end PromptScript
