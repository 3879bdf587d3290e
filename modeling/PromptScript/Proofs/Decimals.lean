import Mathlib.Algebra.Order.Field.Power
import Mathlib.Algebra.Order.Field.Rat
import Mathlib.Data.Nat.Cast.Order.Field
import Mathlib.Data.Rat.Cast.Order
import Mathlib.Tactic.FieldSimp
import Mathlib.Tactic.Linarith
import Mathlib.Tactic.Positivity
import Mathlib.Tactic.Ring
import PromptScript.Number.Layout
import PromptScript.Proofs.Doubles

/-! # Shortest decimals

The digits that are written for a double are those of a decimal that rounds to it: one of seventeen digits always does, so
the search for fewer finds one. Hence a natural number that doubles hold exactly is written with its own digits, and no
other double is written with them. -/
namespace PromptScript.Number

/-- The number that a decimal stands for. -/
def Decimal.value (d : Decimal) : ℚ := d.digits * 10 ^ d.exponent

/-- A number lies within the bounds of an interval whose unit is given. -/
def Interval.Spans (i : Interval) (unit x : ℚ) : Prop := i.low * unit ≤ x ∧ x ≤ i.high * unit

/-- A mantissa and an exponent as doubles have them. -/
structure IsDouble (m : Nat) (e : Int) : Prop where
  pos : 0 < m
  few : m < 2 ^ 53
  least : -1074 ≤ e
  /-- Only with the least exponent are there fewer digits. -/
  full : m < 2 ^ 52 → e = -1074

/-- What the bits of a double other than zero stand for. -/
theorem isDouble_of_finite {x : Float} {negative : Bool} {m : Nat} {e : Int}
    (finite : Real64.ofFloat x = .finite negative m e) (some : m ≠ 0) : IsDouble m e := by
  have pos := Nat.pos_of_ne_zero some
  obtain ⟨sub, rfl, -⟩ | ⟨normal, few, least, -⟩ := bits_of_finite x.toBits.toNat_lt finite
  · have sub : m < 2 ^ 52 := sub
    exact ⟨pos, by omega, Int.le_refl _, fun _ => rfl⟩
  · have normal : 2 ^ 52 ≤ m := normal
    exact ⟨pos, few, least, fun sub => absurd normal (Nat.not_le.mpr sub)⟩

/-! ## Powers -/

/-- A power with an exponent of either sign as a quotient of naturals. -/
theorem zpow_eq_div (b : Nat) (z : Int) : (b : ℚ) ^ z = (b ^ z.toNat : Nat) / (b ^ (-z).toNat : Nat) := by
  obtain ⟨n, rfl | rfl⟩ := z.eq_nat_or_neg
  · simp
  · simp [zpow_neg]

/-- A unit of `2 ^ (e - 2)` in steps of `10 ^ k`. -/
theorem grid_eq (e k : Int) : ((2 ^ (e - 2).toNat * 10 ^ (-k).toNat : Nat) : ℚ) / (2 ^ (2 - e).toNat * 10 ^ k.toNat : Nat) =
    2 ^ (e - 2) / 10 ^ k := by
  have two := zpow_eq_div 2 (e - 2)
  have ten := zpow_eq_div 10 (-k)
  rw [Int.neg_sub] at two
  rw [Int.neg_neg] at ten
  push_cast at two ten ⊢
  rw [mul_div_mul_comm, ← two, ← ten, zpow_neg, div_eq_mul_inv]

/-! ## Digits -/

theorem digitsOf_ne_nil (n : Nat) : digitsOf n ≠ [] := List.ne_nil_of_length_pos Nat.length_toDigits_pos

theorem pow_length_digitsOf_le {n : Nat} (pos : 0 < n) : 10 ^ ((digitsOf n).length - 1) ≤ n := by
  refine Nat.not_lt.mp fun less => ?_
  by_cases one : (digitsOf n).length - 1 = 0
  · rw [one] at less
    omega
  · have shorter : (digitsOf n).length ≤ (digitsOf n).length - 1 :=
      (Nat.length_toDigits_le_iff (by decide) (Nat.pos_of_ne_zero one)).mpr less
    omega

theorem length_digitsOf_le {n k : Nat} (pos : 0 < k) (less : n < 10 ^ k) : (digitsOf n).length ≤ k :=
  (Nat.length_toDigits_le_iff (by decide) pos).mpr less

/-! ## Leading places -/

/-- A number is as often multiplied by ten as it takes to be no longer below one. -/
theorem le_mul_pow_below {fuel num den : Nat} (enough : den ≤ num * 10 ^ fuel) :
    ∃ t : Nat, leadingPlace.below fuel num den = t ∧ den ≤ num * 10 ^ t := by
  induction fuel generalizing num with
  | zero => exact ⟨0, rfl, enough⟩
  | succ fuel ih =>
    unfold leadingPlace.below
    by_cases one : den ≤ num
    · exact ⟨0, if_pos one, by simpa using one⟩
    · rw [Nat.pow_succ', ← Nat.mul_assoc] at enough
      obtain ⟨t, same, le⟩ := ih enough
      refine ⟨t + 1, ?_, by rwa [Nat.pow_succ', ← Nat.mul_assoc]⟩
      rw [if_neg one, same]
      omega

/-- A number has a digit other than zero in its leading place. -/
theorem pow_leadingPlace_le {num den : Nat} (pos : 0 < den) (enough : den ≤ num * 10 * 10 ^ 400) :
    (10 : ℚ) ^ (leadingPlace num den - 1) ≤ num / den := by
  have pos' : (0 : ℚ) < den := by exact_mod_cast pos
  unfold leadingPlace
  by_cases one : den ≤ num
  · have whole : 0 < num / den := Nat.div_pos one pos
    have digits : (10 : ℚ) ^ ((digitsOf (num / den)).length - 1) ≤ (num / den : Nat) := by
      exact_mod_cast pow_length_digitsOf_le whole
    have length : 0 < (digitsOf (num / den)).length := List.length_pos_of_ne_nil (digitsOf_ne_nil _)
    rw [if_pos one, show ((digitsOf (num / den)).length : Int) - 1 = ((digitsOf (num / den)).length - 1 : Nat) by omega,
      zpow_natCast]
    exact digits.trans Nat.cast_div_le
  · obtain ⟨t, same, le⟩ := le_mul_pow_below enough
    have le : (den : ℚ) ≤ num * 10 ^ (t + 1) := by
      rw [Nat.mul_assoc, ← Nat.pow_succ'] at le
      exact_mod_cast le
    rw [if_neg one, same, show -(t : Int) - 1 = -((t + 1 : Nat) : Int) by omega, zpow_neg, zpow_natCast,
      le_div_iff₀ pos', inv_mul_le_iff₀ (by positivity), mul_comm]
    exact le

/-! ## Members of a grid -/

section Grid

variable {i : Interval} {num den d m : Nat} {e k : Int} {tie : Tie} {unit : ℚ}

/-- What an interval holds lies within its bounds. -/
theorem Interval.spans_of_holds (pos : 0 < den) (grid : (num : ℚ) / den = unit / 10 ^ k)
    (holds : i.holds num den d = true) : i.Spans unit (d * 10 ^ k) := by
  have bounds : i.low * num ≤ d * den ∧ d * den ≤ i.high * num := by
    unfold Interval.holds at holds
    split at holds
    · simpa using holds
    · simp only [Bool.and_eq_true, decide_eq_true_eq] at holds
      omega
  have pos' : (0 : ℚ) < den := by exact_mod_cast pos
  have ten : (0 : ℚ) < 10 ^ k := by positivity
  have low : (i.low : ℚ) * num ≤ d * den := by exact_mod_cast bounds.1
  have high : (d : ℚ) * den ≤ i.high * num := by exact_mod_cast bounds.2
  have steps : (num : ℚ) * 10 ^ k = unit * den := by
    rw [div_eq_div_iff pos'.ne' ten.ne'] at grid
    exact grid
  constructor
  · have scaled := mul_le_mul_of_nonneg_right low ten.le
    have : (i.low * unit) * den ≤ (d * 10 ^ k) * den := by linarith [congrArg ((i.low : ℚ) * ·) steps]
    exact le_of_mul_le_mul_right this pos'
  · have scaled := mul_le_mul_of_nonneg_right high ten.le
    have : (d * 10 ^ k) * den ≤ (i.high * unit) * den := by linarith [congrArg ((i.high : ℚ) * ·) steps]
    exact le_of_mul_le_mul_right this pos'

/-- What is found on a grid is held by the interval. -/
theorem Interval.holds_of_onGrid? (found : i.onGrid? tie num den = some d) : i.holds num den d = true := by
  unfold Interval.onGrid? at found
  dsimp only at found
  split at found
  · next down up =>
    obtain rfl := Option.some.inj found
    split
    · exact down
    · exact up
  · next down _ => exact Option.some.inj found ▸ down
  · next _ up => exact Option.some.inj found ▸ up
  · cases found

/-- Something is found on a grid if one of the two neighbours of the value is held. -/
theorem Interval.onGrid?_isSome (holds : i.holds num den (i.value * num / den) = true ∨
      i.value * num % den ≠ 0 ∧ i.holds num den (i.value * num / den + 1) = true) :
    (i.onGrid? tie num den).isSome = true := by
  unfold Interval.onGrid?
  dsimp only
  split
  · rfl
  · rfl
  · rfl
  · next down up =>
    rcases holds with held | ⟨part, held⟩
    · cases held.symm.trans down
    · rw [if_neg part] at up
      cases held.symm.trans up

/-- Two bounds that a number lies strictly between. -/
theorem Interval.holds_of_lt (low : i.low * num < d * den) (high : d * den < i.high * num) : i.holds num den d = true := by
  unfold Interval.holds
  split <;> simp only [Bool.and_eq_true, decide_eq_true_eq] <;> omega

/-- On a grid that is fine enough for seventeen digits, a neighbour of a double rounds to it. -/
theorem onGrid?_isSome_of_fine (pos : 0 < den) (few : m < 2 ^ 53) (fine : den * 10 ^ 16 ≤ 4 * m * num) :
    ((roundingInterval m e).onGrid? tie num den).isSome = true := by
  have parts := Nat.div_add_mod (4 * m * num) den
  have rest := Nat.mod_lt (4 * m * num) pos
  have top : m * num ≤ (2 ^ 53 - 1) * num := Nat.mul_le_mul_right num (by omega)
  have value : (roundingInterval m e).value = 4 * m := rfl
  have high : (roundingInterval m e).high * num = 4 * (m * num) + 2 * num := by
    show (4 * m + 2) * num = _
    rw [Nat.add_mul, Nat.mul_assoc]
  -- The lower neighbours of a power of two lie closer together.
  have low : (roundingInterval m e).low * num = 4 * (m * num) - num ∧ m = 2 ^ 52 ∨
      (roundingInterval m e).low * num = 4 * (m * num) - 2 * num := by
    unfold roundingInterval
    dsimp only
    split
    · next even => exact .inl ⟨by rw [Nat.sub_mul, Nat.mul_assoc, Nat.one_mul], even.1⟩
    · exact .inr (by rw [Nat.sub_mul, Nat.mul_assoc])
  have up : (4 * m * num / den + 1) * den = den * (4 * m * num / den) + den := by rw [Nat.add_mul, Nat.one_mul, Nat.mul_comm]
  have down : 4 * m * num / den * den = den * (4 * m * num / den) := Nat.mul_comm ..
  rw [Nat.mul_assoc 4 m num] at *
  by_cases near : 2 * (4 * (m * num) % den) ≤ den
  · refine Interval.onGrid?_isSome (.inl ?_)
    rw [value, Nat.mul_assoc 4 m num]
    refine Interval.holds_of_lt ?_ ?_
    · rcases low with ⟨low, rfl⟩ | low <;> rw [low] <;> omega
    · rw [high]
      omega
  · refine Interval.onGrid?_isSome (.inr ?_)
    rw [value, Nat.mul_assoc 4 m num]
    refine ⟨by omega, Interval.holds_of_lt ?_ ?_⟩
    · rcases low with ⟨low, rfl⟩ | low <;> rw [low] <;> omega
    · rw [high]
      omega

end Grid

/-! ## The search -/

/-- The place of the leading digit of a double. -/
def topPlace (m : Nat) (e : Int) : Int := leadingPlace (4 * m * 2 ^ (e - 2).toNat) (2 ^ (2 - e).toNat)

/-- The multiple of `10 ^ k` that is tried for a double. -/
def tried? (tie : Tie) (m : Nat) (e k : Int) : Option Nat :=
  (roundingInterval m e).onGrid? tie (2 ^ (e - 2).toNat * 10 ^ (-k).toNat) (2 ^ (2 - e).toNat * 10 ^ k.toNat)

variable {tie : Tie} {m : Nat} {e : Int}

theorem quarter_eq (m : Nat) (e : Int) : 4 * (m : ℚ) * 2 ^ (e - 2) = m * 2 ^ e := by
  rw [zpow_sub₀ two_ne_zero]
  norm_num
  ring

theorem spans_of_tried? {k : Int} {d : Nat} (found : tried? tie m e k = some d) :
    (roundingInterval m e).Spans (2 ^ (e - 2)) (d * 10 ^ k) :=
  Interval.spans_of_holds (Nat.mul_pos (Nat.two_pow_pos _) (Nat.pow_pos (by decide))) (grid_eq e k)
    (Interval.holds_of_onGrid? found)

/-- Seventeen digits are enough for any double. -/
theorem tried?_isSome_of_seventeen (tie : Tie) (double : IsDouble m e) :
    (tried? tie m e (topPlace m e - 17)).isSome = true := by
  refine onGrid?_isSome_of_fine (Nat.mul_pos (Nat.two_pow_pos _) (Nat.pow_pos (by decide))) double.few ?_
  have enough : 2 ^ (2 - e).toNat ≤ 4 * m * 2 ^ (e - 2).toNat * 10 * 10 ^ 400 := by
    have pos := double.pos
    have least := double.least
    have powers (n : Nat) : 2 ^ (3 * n) ≤ 10 ^ n := Nat.pow_mul 2 3 n ▸ Nat.pow_le_pow_left (by decide) n
    calc 2 ^ (2 - e).toNat ≤ 2 ^ (3 * 400) := Nat.pow_le_pow_right (by decide) (by omega)
      _ ≤ 10 ^ 400 := powers 400
      _ ≤ 4 * m * 2 ^ (e - 2).toNat * 10 * 10 ^ 400 := Nat.le_mul_of_pos_left _ (by positivity)
  have lead := pow_leadingPlace_le (Nat.two_pow_pos _) enough
  have top : (10 : ℚ) ^ (topPlace m e - 17) * 10 ^ 16 ≤ 4 * m * 2 ^ (e - 2) := by
    have unit := zpow_eq_div 2 (e - 2)
    rw [Int.neg_sub] at unit
    have same : (10 : ℚ) ^ (topPlace m e - 17) * 10 ^ 16 = 10 ^ (topPlace m e - 1) := by
      rw [← zpow_natCast, ← zpow_add₀ (by norm_num)]
      congr 1
      push_cast
      ring
    push_cast at lead unit
    rw [same, unit, ← mul_div_assoc]
    exact lead
  have ten : (0 : ℚ) < 10 ^ (topPlace m e - 17) := by positivity
  have pos : (0 : ℚ) < (2 ^ (2 - e).toNat * 10 ^ (topPlace m e - 17).toNat : Nat) := by positivity
  have steps := grid_eq e (topPlace m e - 17)
  rw [div_eq_div_iff pos.ne' ten.ne'] at steps
  generalize 2 ^ (2 - e).toNat * 10 ^ (topPlace m e - 17).toNat = den at steps pos ⊢
  generalize 2 ^ (e - 2).toNat * 10 ^ (-(topPlace m e - 17)).toNat = num at steps ⊢
  have scaled := mul_le_mul_of_nonneg_right top pos.le
  have fine : ((den : ℚ) * 10 ^ 16) * 10 ^ (topPlace m e - 17) ≤ (4 * m * num) * 10 ^ (topPlace m e - 17) := by
    linarith [congrArg ((4 * m : ℚ) * ·) steps]
  exact_mod_cast le_of_mul_le_mul_right fine ten

/-- A place in a range, and those before it. -/
theorem eq_range_of_append {n a : Nat} {l₁ l₂ : List Nat} (cut : List.range n = l₁ ++ a :: l₂) :
    a < n ∧ ∀ j < a, j ∈ l₁ := by
  have length : l₁.length < n := by
    have := congrArg List.length cut
    simp only [List.length_range, List.length_append, List.length_cons] at this
    omega
  have here : (List.range n)[l₁.length]? = some a := by simp [cut]
  rw [List.getElem?_range length] at here
  obtain rfl := Option.some.inj here
  refine ⟨length, fun j less => ?_⟩
  have there : (List.range n)[j]? = some j := List.getElem?_range (Nat.lt_trans less length)
  rw [cut, List.getElem?_append_left less] at there
  exact List.mem_of_getElem? there

/-- The search ends with the first grid on which something is found. -/
theorem shortest_eq (tie : Tie) (double : IsDouble m e) : ∃ n d : Nat, n < 17 ∧
    tried? tie m e (topPlace m e - (n + 1 : Nat)) = some d ∧
    (∀ j < n, tried? tie m e (topPlace m e - (j + 1 : Nat)) = none) ∧
    shortest tie m e = (Decimal.mk d (topPlace m e - (n + 1 : Nat))).normalize := by
  let search (n : Nat) : Option Decimal :=
    (tried? tie m e (topPlace m e - (n + 1 : Nat))).map fun d => Decimal.mk d (topPlace m e - (n + 1 : Nat))
  have ends : ((List.range 17).findSome? search).isSome = true := by
    refine List.findSome?_isSome_iff.mpr ⟨16, by decide, ?_⟩
    rw [Option.isSome_map]
    exact tried?_isSome_of_seventeen tie double
  obtain ⟨found, first⟩ := Option.isSome_iff_exists.mp ends
  have shown : shortest tie m e = (((List.range 17).findSome? search).getD ⟨m, 0⟩).normalize := rfl
  obtain ⟨l₁, n, l₂, cut, here, earlier⟩ := List.findSome?_eq_some_iff.mp first
  obtain ⟨few, before⟩ := eq_range_of_append cut
  obtain ⟨d, there, rfl⟩ := Option.map_eq_some_iff.mp here
  refine ⟨n, d, few, there, fun j less => Option.map_eq_none_iff.mp (earlier j (before j less)), ?_⟩
  rw [shown, first, Option.getD_some]

theorem strip_eq (fuel n : Nat) (k : Int) : ∃ t : Nat, (Decimal.normalize.strip fuel n k).exponent = k + t ∧
    (Decimal.normalize.strip fuel n k).digits * 10 ^ t = n := by
  induction fuel generalizing n k with
  | zero => exact ⟨0, by simp [Decimal.normalize.strip], by simp [Decimal.normalize.strip]⟩
  | succ fuel ih =>
    unfold Decimal.normalize.strip
    split
    · next zeros =>
      obtain ⟨t, exponent, digits⟩ := ih (n / 10) (k + 1)
      refine ⟨t + 1, by rw [exponent]; push_cast; ring, ?_⟩
      rw [Nat.pow_succ, ← Nat.mul_assoc, digits]
      omega
    · exact ⟨0, (add_zero k).symm, Nat.mul_one n⟩

/-- Zeros at the end move into the exponent. -/
theorem Decimal.normalize_eq (d : Decimal) :
    ∃ t : Nat, d.normalize.exponent = d.exponent + t ∧ d.normalize.digits * 10 ^ t = d.digits := strip_eq ..

theorem Decimal.value_normalize (d : Decimal) : d.normalize.value = d.value := by
  obtain ⟨t, exponent, digits⟩ := d.normalize_eq
  unfold Decimal.value
  rw [exponent, ← digits, zpow_add₀ (by norm_num), zpow_natCast]
  push_cast
  ring

/-- **The shortest decimal of a double rounds to it.** -/
theorem spans_shortest (tie : Tie) (double : IsDouble m e) :
    (roundingInterval m e).Spans (2 ^ (e - 2)) (shortest tie m e).value := by
  obtain ⟨n, d, -, found, -, same⟩ := shortest_eq tie double
  rw [same, Decimal.value_normalize]
  exact spans_of_tried? found

/-! ## Natural numbers -/

/-- Bounds of what rounds to a double, in quarters of its last place. -/
theorem bounds_roundingInterval (m : Nat) (e : Int) :
    4 * m - 2 ≤ (roundingInterval m e).low ∧ (roundingInterval m e).low ≤ 4 * m ∧
      (roundingInterval m e).high = 4 * m + 2 := by
  unfold roundingInterval
  dsimp only
  split <;> omega

/-- A natural number that rounds to a double, where doubles lie no further apart than the natural numbers, is that double. -/
theorem eq_of_spans {i : Nat} (pos : 0 < m) (low : e ≤ 0) (inside : (roundingInterval m e).Spans (2 ^ (e - 2)) i) :
    (m : ℚ) * 2 ^ e = i := by
  obtain ⟨f, rfl⟩ : ∃ f : Nat, e = -f := ⟨(-e).toNat, by omega⟩
  obtain ⟨least, -, high⟩ := bounds_roundingInterval m (-f)
  obtain ⟨below, above⟩ := inside
  have unit : (2 : ℚ) ^ (-(f : Int) - 2) = 1 / (4 * 2 ^ f) := by
    rw [zpow_sub₀ two_ne_zero, zpow_neg, zpow_natCast]
    field_simp
    norm_num
  have two : (0 : ℚ) < 4 * 2 ^ f := by positivity
  rw [unit, mul_one_div, div_le_iff₀ two] at below
  rw [unit, mul_one_div, le_div_iff₀ two, high] at above
  have below : (roundingInterval m (-f)).low ≤ i * (4 * 2 ^ f) := by exact_mod_cast below
  have above : i * (4 * 2 ^ f) ≤ 4 * m + 2 := by exact_mod_cast above
  rw [Nat.mul_left_comm] at below above
  -- Both are multiples of four, less than four apart.
  have same : m = i * 2 ^ f := by omega
  rw [zpow_neg, zpow_natCast, same]
  push_cast
  field_simp

/-- A double that such a number rounds to is small, so that doubles lie close. -/
theorem nonpos_of_spans {i : Nat} (double : IsDouble m e) (small : i < 2 ^ 53)
    (inside : (roundingInterval m e).Spans (2 ^ (e - 2)) i) : e ≤ 0 := by
  by_contra high
  have full : 2 ^ 52 ≤ m := Nat.not_lt.mp fun sub => by have := double.full sub; omega
  have low : 2 ^ 54 - 1 ≤ (roundingInterval m e).low := by
    have power : Nat.pow 2 52 = 2 ^ 52 := rfl
    unfold roundingInterval
    dsimp only
    split <;> omega
  have half : (1 : ℚ) / 2 ≤ 2 ^ (e - 2) := by
    have : (2 : ℚ) ^ (-1 : Int) ≤ 2 ^ (e - 2) := zpow_le_zpow_right₀ (by norm_num) (by omega)
    simpa using this
  have bound : ((2 ^ 54 - 1 : Nat) : ℚ) ≤ (roundingInterval m e).low := by exact_mod_cast low
  have under : (i : ℚ) ≤ 9007199254740991 := by exact_mod_cast Nat.le_of_lt_succ small
  have product := mul_le_mul bound half (by norm_num) (Nat.cast_nonneg _)
  have inside := inside.1
  norm_num at product
  linarith

/-- A double lies between its bounds. -/
theorem spans_self (m : Nat) (e : Int) : (roundingInterval m e).Spans (2 ^ (e - 2)) (m * 2 ^ e) := by
  have two : (0 : ℚ) < 2 ^ (e - 2) := by positivity
  obtain ⟨-, low, high⟩ := bounds_roundingInterval m e
  have low : ((roundingInterval m e).low : ℚ) ≤ 4 * m := by exact_mod_cast low
  have high : 4 * (m : ℚ) ≤ (roundingInterval m e).high := by
    rw [high]
    push_cast
    linarith
  rw [← quarter_eq]
  exact ⟨mul_le_mul_of_nonneg_right low two.le, mul_le_mul_of_nonneg_right high two.le⟩

section Natural

variable {v : Nat} (double : IsDouble m e) (whole : (m : ℚ) * 2 ^ e = v)
include double whole

theorem pos_of_natural : 0 < v := by
  have : (0 : ℚ) < m := by exact_mod_cast double.pos
  have : (0 : ℚ) < v := by rw [← whole]; positivity
  exact_mod_cast this

omit double in
/-- A double that is a natural number, in quarters of its last place. -/
theorem quarters_of_natural : 4 * m * 2 ^ (e - 2).toNat = v * 2 ^ (2 - e).toNat := by
  have unit := zpow_eq_div 2 (e - 2)
  have pos : (0 : ℚ) < (2 ^ (2 - e).toNat : Nat) := by positivity
  have natural := (quarter_eq m e).trans whole
  rw [Int.neg_sub] at unit
  push_cast at unit pos
  rw [unit, ← mul_div_assoc, div_eq_iff pos.ne'] at natural
  exact_mod_cast natural

theorem topPlace_of_natural : topPlace m e = (digitsOf v).length := by
  unfold topPlace leadingPlace
  rw [quarters_of_natural whole, if_pos (Nat.le_mul_of_pos_left _ (pos_of_natural double whole)),
    Nat.mul_div_cancel _ (Nat.two_pow_pos _)]

/-- It is on the grid of the natural numbers. -/
theorem tried?_of_natural (tie : Tie) : (tried? tie m e 0).isSome = true := by
  have parts := quarters_of_natural whole
  have some := double.pos
  obtain ⟨-, -, high⟩ := bounds_roundingInterval m e
  have low : (roundingInterval m e).low < 4 * m := by
    unfold roundingInterval
    dsimp only
    split <;> omega
  have value : (roundingInterval m e).value = 4 * m := rfl
  have num : 2 ^ (e - 2).toNat * 10 ^ (-(0 : Int)).toNat = 2 ^ (e - 2).toNat := Nat.mul_one _
  have den : 2 ^ (2 - e).toNat * 10 ^ (0 : Int).toNat = 2 ^ (2 - e).toNat := Nat.mul_one _
  refine Interval.onGrid?_isSome (.inl ?_)
  rw [value, num, den, parts, Nat.mul_div_cancel _ (Nat.two_pow_pos _)]
  refine Interval.holds_of_lt ?_ ?_ <;> rw [← parts]
  · exact Nat.mul_lt_mul_of_pos_right low (Nat.two_pow_pos _)
  · exact Nat.mul_lt_mul_of_pos_right (by omega) (Nat.two_pow_pos _)

/-- **A natural number that is a double has its own digits**, with zeros after them. -/
theorem shortest_of_natural (tie : Tie) (small : v < 2 ^ 53) :
    ∃ k : Nat, (shortest tie m e).exponent = k ∧ (shortest tie m e).digits * 10 ^ k = v := by
  have inside := whole ▸ spans_self m e
  have low : e ≤ 0 := nonpos_of_spans double small inside
  have top := topPlace_of_natural double whole
  have length : 0 < (digitsOf v).length := List.length_pos_of_ne_nil (digitsOf_ne_nil v)
  have few : (digitsOf v).length ≤ 16 := length_digitsOf_le (by decide) (by omega)
  obtain ⟨n, d, -, found, earlier, same⟩ := shortest_eq tie double
  have first : n + 1 ≤ (digitsOf v).length := by
    by_contra later
    have none := earlier ((digitsOf v).length - 1) (by omega)
    have natural := tried?_of_natural double whole tie
    rw [top, show ((digitsOf v).length : Int) - (((digitsOf v).length - 1 + 1 : Nat) : Int) = 0 by omega] at none
    rw [none] at natural
    cases natural
  -- So what is found is a natural number itself, and there is but one that rounds to the double.
  have place : topPlace m e - (n + 1 : Nat) = ((digitsOf v).length - (n + 1) : Nat) := by omega
  obtain ⟨t, exponent, digits⟩ := Decimal.normalize_eq ⟨d, topPlace m e - (n + 1 : Nat)⟩
  have inside := spans_of_tried? found
  rw [← same, place] at exponent
  have digits : (shortest tie m e).digits * 10 ^ t = d := by rw [same]; exact digits
  rw [place] at inside
  generalize (digitsOf v).length - (n + 1) = k at exponent inside
  have inside : (roundingInterval m e).Spans (2 ^ (e - 2)) (d * 10 ^ k : Nat) := by
    push_cast
    exact inside
  have equal : v = d * 10 ^ k := by exact_mod_cast whole.symm.trans (eq_of_spans double.pos low inside)
  refine ⟨k + t, exponent, ?_⟩
  rw [equal, ← digits, Nat.pow_add, Nat.mul_assoc, Nat.mul_comm (10 ^ t)]

end Natural

end PromptScript.Number
