import PromptScript.Proofs.Decimals
import PromptScript.Proofs.Equality
import PromptScript.Proofs.Legible

/-! # Texts of indices

The text of a double is read as an index just if the double is that natural number, as long as doubles count one by one. A
part of one leaves a point in the text, and a magnitude beyond what is written out leaves an exponent; a sign is left only
by what is below zero. -/
namespace PromptScript

namespace Number

open Float.Model Float.Model.UnpackedFloat

/-! ## Doubles that are natural numbers -/

/-- What bits stand for is a natural number. -/
def StandsFor : Real64 → Nat → Prop
  | .finite negative m e, i => (negative = true → m = 0) ∧ (m : ℚ) * 2 ^ e = i
  | _, _ => False

theorem natural_iff {m i : Nat} {e : Int} :
    (m : ℚ) * 2 ^ e = i ↔ Real64.isWhole m e = true ∧ Real64.scale m e = i := by
  have unit := zpow_eq_div 2 e
  have pos : (0 : ℚ) < (2 ^ (-e).toNat : Nat) := by positivity
  have steps : (m : ℚ) * 2 ^ e = i ↔ m * 2 ^ e.toNat = i * 2 ^ (-e).toNat := by
    push_cast at unit pos
    rw [unit, ← mul_div_assoc, div_eq_iff pos.ne']
    norm_cast
  rw [steps]
  unfold Real64.isWhole Real64.scale
  show _ ↔ (decide (0 ≤ e) || m % 2 ^ (-e).toNat == 0) = true ∧
    (if 0 ≤ e then m * 2 ^ e.toNat else m / 2 ^ (-e).toNat) = i
  by_cases up : 0 ≤ e
  · have one : (-e).toNat = 0 := by omega
    simp [up, one]
  · have one : e.toNat = 0 := by omega
    have parts := Nat.div_add_mod m (2 ^ (-e).toNat)
    have pos : 0 < 2 ^ (-e).toNat := Nat.two_pow_pos _
    simp only [up, decide_false, Bool.false_or, beq_iff_eq, if_false, one, Nat.pow_zero, Nat.mul_one]
    constructor
    · rintro rfl
      exact ⟨Nat.mul_mod_left .., Nat.mul_div_cancel _ pos⟩
    · rintro ⟨exact_, rfl⟩
      rw [exact_, Nat.add_zero, Nat.mul_comm] at parts
      exact parts.symm

theorem toNat_unpackMantissa (bits : BitVec Format.binary64.numBits) :
    (@unpackMantissa Format.binary64 bits).toNat = bits.toNat % Nat.pow 2 52 := by
  unfold unpackMantissa
  rw [BitVec.toNat_cast, BitVec.extractLsb_toNat, Nat.shiftRight_zero]
  rfl

theorem toNat_unpackSign (bits : BitVec Format.binary64.numBits) :
    (@unpackSign Format.binary64 bits).toNat = bits.toNat / Nat.pow 2 63 % 2 := by
  unfold unpackSign
  rw [BitVec.toNat_cast, BitVec.extractLsb_toNat, Nat.shiftRight_eq_div_pow]
  rfl

/-- Zero is at most a number that is not negative. -/
theorem zero_compare_isLE {s : Sign} {m : Nat} {e : Int} {pos : 0 < m} :
    ((UnpackedFloat.zero .positive).compare (.finite s m e pos)).any (·.isLE) = true ↔ s = .positive := by
  cases s with
  | positive => exact ⟨fun _ => rfl, fun _ => rfl⟩
  | negative => exact ⟨nofun, nofun⟩

/-- Which doubles are not below zero. -/
theorem nonneg_iff {x : Float} {negative : Bool} {m : Nat} {e : Int} (finite : Real64.ofFloat x = .finite negative m e) :
    x ≥ 0 ↔ (negative = true → m = 0) := by
  have compared : x ≥ 0 ↔ ((UnpackedFloat.zero .positive).compare x.toModel.unpack).any (·.isLE) = true := by
    show Float.le _ _ = true ↔ _
    unfold Float.le
    rw [decide_eq_true_eq]
    exact Iff.rfl
  have exponent := toNat_unpackExponent x.toModel.toBits.toBitVec
  have mantissa := toNat_unpackMantissa x.toModel.toBits.toBitVec
  have sign := toNat_unpackSign x.toModel.toBits.toBitVec
  have bits : x.toModel.toBits.toBitVec.toNat = x.toBits.toNat := rfl
  rw [bits] at exponent mantissa sign
  have positive : Sign.ofBitVec (@unpackSign Format.binary64 x.toModel.toBits.toBitVec) = .positive ↔
      (x.toBits.toNat / Nat.pow 2 63 % 2 == 1) = false := by
    unfold Sign.ofBitVec
    rw [← sign]
    rcases BitVec.eq_zero_or_eq_one (@unpackSign Format.binary64 x.toModel.toBits.toBitVec) with bit | bit <;> rw [bit]
    · exact iff_of_true rfl rfl
    · exact ⟨nofun, nofun⟩
  rw [compared]
  unfold Real64.ofFloat Real64.ofBits at finite
  unfold Float.Model.unpack UnpackedFloat.unpack
  dsimp only at finite ⊢
  by_cases top : x.toBits.toNat / Nat.pow 2 52 % Nat.pow 2 11 = 2047
  · rw [if_pos top] at finite
    split at finite <;> cases finite
  have ones : @unpackExponent Format.binary64 x.toModel.toBits.toBitVec ≠ -BitVec.ofNat _ 1 := fun h =>
    top (exponent.symm.trans (congrArg BitVec.toNat h))
  rw [if_neg top] at finite
  rw [if_neg ones]
  by_cases low : x.toBits.toNat / Nat.pow 2 52 % Nat.pow 2 11 = 0
  · -- Below the normal doubles there is zero.
    have zero : @unpackExponent Format.binary64 x.toModel.toBits.toBitVec = BitVec.ofNat _ 0 :=
      BitVec.eq_of_toNat_eq (exponent.trans low)
    rw [if_pos low] at finite
    rw [if_pos zero]
    obtain ⟨rfl, rfl, -⟩ := Real64.finite.inj finite
    by_cases empty : x.toBits.toNat % Nat.pow 2 52 = 0
    · have none : @unpackMantissa Format.binary64 x.toModel.toBits.toBitVec = BitVec.ofNat _ 0 :=
        BitVec.eq_of_toNat_eq (mantissa.trans empty)
      rw [dif_pos none]
      exact iff_of_true rfl fun _ => empty
    · rw [dif_neg fun h => empty (mantissa.symm.trans (congrArg BitVec.toNat h)), zero_compare_isLE, positive]
      simp [empty]
  · rw [if_neg low] at finite
    rw [if_neg fun h => low (exponent.symm.trans (congrArg BitVec.toNat h))]
    obtain ⟨rfl, rfl, -⟩ := Real64.finite.inj finite
    have full : Nat.pow 2 52 + x.toBits.toNat % Nat.pow 2 52 ≠ 0 := by
      have : 0 < Nat.pow 2 52 := by decide
      omega
    rw [zero_compare_isLE, positive, ← Bool.not_eq_true]
    exact ⟨fun above below => absurd below above, fun none below => full (none below)⟩

/-! ## Texts of indices -/

theorem ofDigits_append_zeros (ds : List Char) (k : Nat) : ofDigits (ds ++ List.replicate k '0') = ofDigits ds * 10 ^ k := by
  unfold ofDigits
  rw [List.foldl_append]
  generalize ds.foldl _ 0 = n
  induction k generalizing n with
  | zero => exact (Nat.mul_one n).symm
  | succ k ih =>
    have zero : digitValue '0' = 0 := rfl
    rw [List.replicate_succ, List.foldl_cons, ih, zero, Nat.add_zero, Nat.mul_assoc, Nat.pow_succ']

theorem ofDigits_digitsOf (n : Nat) : ofDigits (digitsOf n) = n := by
  have back : Nat.ofDigitChars 10 (digitsOf n) 0 = n := Nat.ofDigitChars_toDigits (by decide) (by decide)
  have same : (fun (n : Nat) c => n * 10 + digitValue c) = fun n c => 10 * n + (c.toNat - '0'.toNat) :=
    funext fun n => funext fun c => by rw [Nat.mul_comm]; rfl
  unfold ofDigits
  rw [same]
  exact back

/-- A text without a plus sign in front. -/
def unsigned : List Char → List Char
  | '+' :: r => r
  | r => r

theorem readIndex?_eq (cs : List Char) : readIndex? cs =
    if unsigned cs ≠ [] ∧ (unsigned cs).all Char.isDigit = true ∧ ofDigits (unsigned cs) < 2 ^ 64
    then some (ofDigits (unsigned cs)) else none := rfl

/-- Digits are read as the index that they write. -/
theorem readIndex?_of_digits {ds : List Char} {i : Nat} (some_ : ds ≠ []) (digits : ∀ c ∈ ds, c.isDigit = true) :
    readIndex? ds = some i ↔ ofDigits ds = i ∧ i < 2 ^ 64 := by
  have same : unsigned ds = ds := by
    unfold unsigned
    split
    · next r => exact absurd (digits '+' List.mem_cons_self) (by decide)
    · rfl
  have all : ds.all Char.isDigit = true := List.all_eq_true.mpr digits
  rw [readIndex?_eq, same]
  simp only [ne_eq, some_, not_false_eq_true, all, true_and]
  constructor
  · intro read
    split at read
    · next word =>
      obtain rfl := Option.some.inj read
      exact ⟨rfl, word⟩
    · cases read
  · rintro ⟨rfl, word⟩
    exact if_pos word

/-- A text with anything else in it is not an index. -/
theorem readIndex?_eq_none {cs : List Char} {c : Char} (mem : c ∈ cs) (other : c.isDigit = false) (sign : c ≠ '+') :
    readIndex? cs = none := by
  have there : c ∈ unsigned cs := by
    unfold unsigned
    split
    · exact (List.mem_cons.mp mem).resolve_left sign
    · exact mem
  rw [readIndex?_eq]
  refine if_neg fun ⟨_, digits, _⟩ => ?_
  cases other.symm.trans (List.all_eq_true.mp digits c there)

/-- Digits with zeros after them are read as a natural number. -/
theorem readIndex?_plainText {d : Decimal} {k i : Nat} (natural : d.exponent = k) :
    readIndex? (plainText d false) = some i ↔ d.digits * 10 ^ k = i ∧ i < 2 ^ 64 := by
  have text : plainText d false = digitsOf d.digits ++ List.replicate k '0' := by
    unfold plainText
    rw [natural, if_pos (Int.natCast_nonneg k), Int.toNat_natCast]
    exact List.append_nil _
  rw [text, readIndex?_of_digits, ofDigits_append_zeros, ofDigits_digitsOf]
  · exact List.append_ne_nil_of_left_ne_nil (digitsOf_ne_nil _) _
  · intro c mem
    rcases List.mem_append.mp mem with mem | mem
    · exact Json.isDigit_of_mem_digitsOf c mem
    · rw [List.eq_of_mem_replicate mem]
      decide

theorem point_mem_plainText {d : Decimal} (part : d.exponent < 0) : '.' ∈ plainText d false := by
  unfold plainText
  rw [if_neg (Int.not_le.mpr part)]
  dsimp only
  split <;> simp

theorem letter_mem_exponentText (d : Decimal) (plusSign : Bool) : 'e' ∈ exponentText d plusSign :=
  List.mem_append_right _ List.mem_cons_self

/-- The magnitude of a natural number that has no more digits than a double. -/
theorem magnitude_of_natural {d : Decimal} {k v : Nat} (natural : d.exponent = k) (value : d.digits * 10 ^ k = v)
    (pos : 0 < v) (small : v < 2 ^ 53) :
    0 ≤ d.exponent + (digitsOf d.digits).length - 1 ∧ d.exponent + (digitsOf d.digits).length - 1 < 16 := by
  have length : 0 < (digitsOf d.digits).length := List.length_pos_of_ne_nil (digitsOf_ne_nil _)
  have digits : 0 < d.digits := Nat.pos_of_ne_zero fun none => by
    rw [none, Nat.zero_mul] at value
    omega
  have lead : 10 ^ ((digitsOf d.digits).length - 1 + k) < 10 ^ 16 := by
    rw [Nat.pow_add]
    refine Nat.lt_of_le_of_lt (Nat.mul_le_mul_right _ (pow_length_digitsOf_le digits)) ?_
    omega
  have few := (Nat.pow_lt_pow_iff_right (by decide : 1 < 10)).mp lead
  omega

/-- The digits of a double as they are laid out in text. -/
def laidOut (d : Decimal) : List Char :=
  if inText.leastPlain ≤ d.exponent + (digitsOf d.digits).length - 1 ∧
      d.exponent + (digitsOf d.digits).length - 1 ≤ inText.greatestPlain
  then plainText d inText.keepsPoint else exponentText d inText.plusSign

/-- Only what has no places behind the point and no exponent is read as an index. -/
theorem natural_of_readIndex? {d : Decimal} {i : Nat} (read : readIndex? (laidOut d) = some i) : d.value = i := by
  unfold laidOut at read
  split at read
  · have read : readIndex? (plainText d false) = some i := read
    by_cases part : d.exponent < 0
    · rw [readIndex?_eq_none (point_mem_plainText part) (by decide) (by decide)] at read
      cases read
    · obtain ⟨k, natural⟩ := Int.eq_ofNat_of_zero_le (Int.not_lt.mp part)
      obtain ⟨rfl, -⟩ := (readIndex?_plainText natural).mp read
      unfold Decimal.value
      rw [natural]
      push_cast
      rfl
  · rw [readIndex?_eq_none (letter_mem_exponentText ..) (by decide) (by decide)] at read
    cases read

theorem readIndex?_shortest_iff {m : Nat} {e : Int} {i : Nat} (double : IsDouble m e) (small : i < 2 ^ 53) :
    readIndex? (laidOut (shortest inText.tie m e)) = some i ↔ (m : ℚ) * 2 ^ e = i := by
  constructor
  · -- The number that is read rounds to the double, and no other natural number does.
    intro read
    have inside := natural_of_readIndex? read ▸ spans_shortest inText.tie double
    exact eq_of_spans double.pos (nonpos_of_spans double small inside) inside
  · intro whole
    obtain ⟨k, natural, value⟩ := shortest_of_natural double whole inText.tie small
    obtain ⟨least, most⟩ := magnitude_of_natural natural value (pos_of_natural double whole) small
    have bounds : inText.leastPlain = -6 ∧ inText.greatestPlain = 20 := ⟨rfl, rfl⟩
    unfold laidOut
    rw [if_pos (by omega)]
    exact (readIndex?_plainText natural).mpr ⟨value, by omega⟩

/-- **A double is written as an index just if it is one.** -/
theorem readIndex?_write_iff {x : Float} {i : Nat} (small : i < 2 ^ 53) :
    readIndex? (inText.write x) = some i ↔ StandsFor (Real64.ofFloat x) i := by
  have unreadable {cs : List Char} {c : Char} (mem : c ∈ cs) (other : c.isDigit = false ∧ c ≠ '+') :
      ¬ readIndex? cs = some i := by
    rw [readIndex?_eq_none mem other.1 other.2]
    nofun
  unfold Layout.write
  cases finite : Real64.ofFloat x with
  | nan => exact iff_of_false (unreadable (c := 'N') (by decide) (by decide)) nofun
  | infinite negative =>
    have letter : 'I' ∈ (if negative then ['-'] else []) ++ "Infinity".toList := List.mem_append_right _ (by decide)
    exact iff_of_false (unreadable letter (by decide)) nofun
  | finite negative m e =>
    dsimp only
    by_cases zero : m = 0
    · subst zero
      have text : readIndex? ['0'] = some 0 := by decide
      have sign : (negative && ((0 : Nat) != 0 || inText.signedZero)) = false := Bool.and_false negative
      rw [sign, if_pos rfl, if_neg Bool.false_ne_true]
      show readIndex? ['0'] = some i ↔ _ ∧ ((0 : Nat) : ℚ) * 2 ^ e = i
      rw [text, Nat.cast_zero, zero_mul, Option.some.injEq, eq_comm (b := (i : ℚ)), Nat.cast_eq_zero, eq_comm]
      exact ⟨fun same => ⟨fun _ => rfl, same⟩, And.right⟩
    · rw [if_neg zero]
      cases negative with
      | true =>
        have sign : '-' ∈ (if (true && (m != 0 || inText.signedZero)) then ['-'] else []) := by simp [zero]
        exact iff_of_false (unreadable (List.mem_append_left _ sign) (by decide)) fun stands => zero (stands.1 rfl)
      | false =>
        rw [Bool.false_and, if_neg Bool.false_ne_true, List.nil_append]
        exact (readIndex?_shortest_iff (isDouble_of_finite finite zero) small).trans
          ⟨fun whole => ⟨nofun, whole⟩, And.right⟩

end Number
end PromptScript
