import PromptScript.Number.Binary64

/-! # Decimal digits of a double

Two choices of digits for a number `m · 2 ^ e`: the fewest digits that read back to the same double, and
all digits up to a given place. Both are made in exact arithmetic on naturals. -/
namespace PromptScript.Number

/-- The decimal number `digits · 10 ^ exponent`. -/
structure Decimal where
  digits : Nat
  exponent : Int
  deriving DecidableEq, Repr

/-- The digits of a natural number, most significant first. -/
def digitsOf (n : Nat) : List Char := Nat.toDigits 10 n

/-- The place of the leading digit of `num / den`: the least `p` with `num / den < 10 ^ p`. -/
def leadingPlace (num den : Nat) : Int :=
  if den ≤ num then ((digitsOf (num / den)).length : Int) else -below 400 (num * 10) den
where
  /-- How often a number below one can be multiplied by ten and stay below one. -/
  below : Nat → Nat → Nat → Int
    | 0, _, _ => 0
    | fuel + 1, num, den => if den ≤ num then 0 else 1 + below fuel (num * 10) den

/-- Drops the zeros at the end. -/
def Decimal.normalize (d : Decimal) : Decimal :=
  strip 400 d.digits d.exponent
where
  /-- Divides by ten while that is exact. -/
  strip : Nat → Nat → Int → Decimal
    | 0, n, k => ⟨n, k⟩
    | fuel + 1, n, k => if n ≠ 0 ∧ n % 10 = 0 then strip fuel (n / 10) (k + 1) else ⟨n, k⟩

/-- A number between two bounds, all in one unit `num / den`: the reals that round to a double, the double
itself, and whether the bounds belong to it. -/
structure Interval where
  low : Nat
  value : Nat
  high : Nat
  closed : Bool

/-- The reals that round to the double `m · 2 ^ e`, in quarters of its last place. -/
def roundingInterval (m : Nat) (e : Int) : Interval where
  low := if m = Nat.pow 2 52 ∧ -1074 < e then 4 * m - 1 else 4 * m - 2
  value := 4 * m
  high := 4 * m + 2
  closed := m % 2 == 0

/-- Whether `d / 1` times `den` lies in the interval times `num`. -/
def Interval.holds (i : Interval) (num den d : Nat) : Bool :=
  if i.closed then i.low * num ≤ d * den && d * den ≤ i.high * num
  else i.low * num < d * den && d * den < i.high * num

/-- Which of two neighbours a half goes to. -/
inductive Tie where
  | up
  | even
  deriving DecidableEq, Repr, Inhabited

/-- Whether a part of a step is left out in favour of `down`. -/
def Tie.goesDown (tie : Tie) (down rest den : Nat) : Bool :=
  2 * rest < den || (tie = .even && 2 * rest = den && down % 2 = 0)

/-- The member of the interval on one decimal grid that is nearest to the value, where the unit of the
interval is `num / den` steps of the grid. -/
def Interval.onGrid? (tie : Tie) (i : Interval) (num den : Nat) : Option Nat :=
  let down := i.value * num / den
  let rest := i.value * num % den
  let up := if rest = 0 then down else down + 1
  -- Any other member of the grid is further from the value than one of these two.
  match i.holds num den down, i.holds num den up with
  | true, true => some (if tie.goesDown down rest den then down else up)
  | true, false => some down
  | false, true => some up
  | false, false => none

/-- The shortest decimal that rounds to the double `m · 2 ^ e`, for `m` other than zero. A double needs no
more than seventeen digits. -/
def shortest (tie : Tie) (m : Nat) (e : Int) : Decimal :=
  let i := roundingInterval m e
  let unitNum := Nat.pow 2 (e - 2).toNat
  let unitDen := Nat.pow 2 (2 - e).toNat
  let place := leadingPlace (i.value * unitNum) unitDen
  let tried := (List.range 17).findSome? fun n =>
    let k := place - (n + 1 : Nat)
    (i.onGrid? tie (unitNum * Nat.pow 10 (-k).toNat) (unitDen * Nat.pow 10 k.toNat)).map fun d => Decimal.mk d k
  (tried.getD ⟨m, 0⟩).normalize

/-- `m · 2 ^ e` in units of `10 ^ -places`, rounded to a whole number of them. -/
def roundToPlaces (m : Nat) (e : Int) (places : Nat) : Nat :=
  Real64.roundDiv (m * Nat.pow 2 e.toNat * Nat.pow 10 places) (Nat.pow 2 (-e).toNat)

end PromptScript.Number
