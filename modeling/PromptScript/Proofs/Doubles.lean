import PromptScript.Json.Basic

/-! # Whole numbers as doubles

JSON writes a double that is whole and not too large without its point, and reading makes a double of it again. By
the model of doubles that the language gives, that is the same double, except for negative zero, which loses its
sign. -/
namespace PromptScript.Number

open Float.Model Float.Model.UnpackedFloat

/-! ## Full mantissas -/

/-- A whole number with zeros at its end, so that it has as many binary digits as a double. -/
def filled (n : Nat) : Nat := n <<< (52 - n.log2)

theorem log2_le_of_small {n : Nat} (small : n < Nat.pow 2 53) : n.log2 ≤ 52 := by
  by_cases zero : n = 0
  · subst zero
    decide
  · have : n.log2 < 53 := (Nat.log2_lt zero).mpr small
    omega

theorem log2_filled {n : Nat} (pos : 0 < n) (small : n < Nat.pow 2 53) : (filled n).log2 = 52 := by
  have some : n ≠ 0 := Nat.ne_of_gt pos
  have bound := log2_le_of_small small
  have low : 2 ^ n.log2 * 2 ^ (52 - n.log2) ≤ n * 2 ^ (52 - n.log2) :=
    Nat.mul_le_mul_right _ (Nat.log2_self_le some)
  have high : n * 2 ^ (52 - n.log2) < 2 ^ (n.log2 + 1) * 2 ^ (52 - n.log2) :=
    Nat.mul_lt_mul_of_pos_right Nat.lt_log2_self (Nat.two_pow_pos _)
  rw [← Nat.pow_add, show n.log2 + (52 - n.log2) = 52 by omega] at low
  rw [← Nat.pow_add, show n.log2 + 1 + (52 - n.log2) = 53 by omega] at high
  unfold filled
  rw [Nat.shiftLeft_eq]
  exact (Nat.log2_eq_iff (by omega)).mpr ⟨low, high⟩

theorem filled_pos {n : Nat} (pos : 0 < n) : 0 < filled n := by
  unfold filled
  rw [Nat.shiftLeft_eq]
  exact Nat.mul_pos pos (Nat.two_pow_pos _)

/-! ## Rounding a full mantissa -/

theorem targetExponent_binary64 (e : Int) : Format.binary64.targetExponent e = max (e - 53) (-1074) := rfl

/-- A full mantissa stays as it is. -/
theorem shiftToTargetExponent_of_log2 {m : Nat} {e : Int} (full : m.log2 = 52) (low : -1074 ≤ e) :
    shiftToTargetExponent Format.binary64 m e .exact = (⟨m, false, false⟩, e) := by
  have target : Format.binary64.targetExponent (totalExponent m e) = e := by
    simp only [targetExponent_binary64, totalExponent, full]
    omega
  have unshifted : ExtendedMantissa.ofMantissaAndAccuracy m .exact >>> 0 = ⟨m, false, false⟩ := rfl
  unfold shiftToTargetExponent shiftToExponent
  dsimp only
  rw [target, show (e - e).toNat = 0 by omega, unshifted, show e + ((0 : Nat) : Int) = e by omega]

/-- Shifting by the places that were added gives back the mantissa. -/
theorem shiftRight_of_mul (m k : Nat) :
    (⟨m * Nat.pow 2 k, false, false⟩ : ExtendedMantissa) >>> k = ⟨m, false, false⟩ := by
  show Nat.repeat ExtendedMantissa.shiftRightOne k _ = _
  induction k generalizing m with
  | zero => rw [show m * Nat.pow 2 0 = m from Nat.mul_one m]; rfl
  | succ k ih =>
    have more : m * Nat.pow 2 (k + 1) = m * 2 * Nat.pow 2 k := by
      show m * (2 ^ k * 2) = m * 2 * 2 ^ k
      rw [Nat.mul_comm (2 ^ k), Nat.mul_assoc]
    rw [more, Nat.repeat, ih]
    simp [ExtendedMantissa.shiftRightOne]

theorem round_of_small {n : Nat} (pos : 0 < n) (small : n < Nat.pow 2 53) :
    UnpackedFloat.round Format.binary64 .positive n 0 =
      .finite .positive (filled n) ((n.log2 : Int) - 52) (filled_pos pos) := by
  have bound := log2_le_of_small small
  have target : Format.binary64.targetExponent (totalExponent n 0) = (n.log2 : Int) - 52 := by
    simp only [targetExponent_binary64, totalExponent]
    omega
  have lowered : decreaseExponent n 0 ((n.log2 : Int) - 52) = (filled n, (n.log2 : Int) - 52) := by
    have places : ((0 : Int) - ((n.log2 : Int) - 52)).toNat = 52 - n.log2 := by omega
    simp only [decreaseExponent, places, filled]
    congr 1
    omega
  have kept := shiftToTargetExponent_of_log2 (e := (n.log2 : Int) - 52) (log2_filled pos small) (by omega)
  have same : (⟨filled n, false, false⟩ : ExtendedMantissa).roundedMantissa = filled n := rfl
  unfold UnpackedFloat.round roundWithAccuracy
  rw [target]
  dsimp only
  rw [lowered]
  dsimp only
  rw [kept]
  dsimp only
  rw [same, kept, dif_neg (Nat.ne_of_gt (filled_pos pos))]

/-- A full mantissa times one. -/
theorem mul_one_of_log2 {m : Nat} {e : Int} {pos : 0 < m} {one : 0 < Nat.pow 2 52} (full : m.log2 = 52)
    (low : -52 ≤ e) :
    UnpackedFloat.mul Format.binary64 (.finite .positive m e pos) (.finite .positive (Nat.pow 2 52) (-52) one) =
      .finite .positive m e pos := by
  have wide : (m * Nat.pow 2 52).log2 = 104 := by
    obtain ⟨least, most⟩ := (Nat.log2_eq_iff (Nat.ne_of_gt pos)).mp full
    have scaled : m * Nat.pow 2 52 = m * 2 ^ 52 := rfl
    exact (Nat.log2_eq_iff (by omega)).mpr ⟨by omega, by omega⟩
  have target : Format.binary64.targetExponent (totalExponent (m * Nat.pow 2 52) (e + -52)) = e := by
    simp only [targetExponent_binary64, totalExponent, wide]
    omega
  have first : shiftToTargetExponent Format.binary64 (m * Nat.pow 2 52) (e + -52) .exact =
      (⟨m, false, false⟩, e) := by
    have places : (e - (e + -52)).toNat = 52 := by omega
    simp only [shiftToTargetExponent, target, shiftToExponent, places, ExtendedMantissa.ofMantissaAndAccuracy,
      shiftRight_of_mul]
    congr 1
    omega
  have second := shiftToTargetExponent_of_log2 (e := e) full (by omega)
  have same : (⟨m, false, false⟩ : ExtendedMantissa).roundedMantissa = m := rfl
  unfold UnpackedFloat.mul roundWithAccuracy
  dsimp only
  rw [first]
  dsimp only
  rw [same, second, dif_neg (Nat.ne_of_gt pos)]
  rfl

/-! ## Bits -/

theorem toNat_packComponents (sign : Sign) (e : BitVec 11) (m : BitVec 52) :
    (packComponents Format.binary64 sign e m).toNat =
      sign.toBitVec.toNat * Nat.pow 2 63 + e.toNat * Nat.pow 2 52 + m.toNat := by
  unfold packComponents
  rw [BitVec.toNat_append, BitVec.toNat_append, ← Nat.shiftLeft_add_eq_or_of_lt e.isLt,
    ← Nat.shiftLeft_add_eq_or_of_lt m.isLt]
  simp only [Nat.shiftLeft_eq]
  show (_ * 2 ^ 11 + _) * 2 ^ 52 + _ = _ * 2 ^ 63 + _ * 2 ^ 52 + _
  omega

theorem unpackSign_packComponents (sign : Sign) (e : BitVec 11) (m : BitVec 52) :
    unpackSign (packComponents Format.binary64 sign e m) = sign.toBitVec := by
  ext i hi
  obtain rfl : i = 0 := by omega
  have first : (unpackSign (packComponents Format.binary64 sign e m))[0] =
      (sign.toBitVec ++ e ++ m).getLsbD 63 := by
    delta unpackSign
    simp [packComponents]
    rfl
  rw [first, BitVec.getLsbD_append, BitVec.getLsbD_append]
  rfl

theorem pack_of_log2 {m : Nat} {e : Int} {pos : 0 < m} (sign : Sign) (full : m.log2 = 52) (high : e ≤ 0) :
    UnpackedFloat.pack Format.binary64 (.finite sign m e pos) =
      packComponents Format.binary64 sign (BitVec.ofNat 11 (e + 1075).toNat) (BitVec.ofNat 52 m) := by
  have biased : (e + (Format.binary64.exponentBias : Int) + (Format.binary64.mantissaBitsWithoutImplicit : Int)).toNat =
      (e + 1075).toNat := by
    simp only [Format.exponentBias]
    omega
  have finite : ¬2 ^ Format.binary64.exponentBits ≤ (e + 1075).toNat + 1 := by
    show ¬2 ^ 11 ≤ (e + 1075).toNat + 1
    omega
  unfold UnpackedFloat.pack
  dsimp only
  rw [biased, if_neg finite, if_pos (by rw [full]; rfl)]

theorem finite_congr {sign sign' : Sign} {m m' : Nat} {e e' : Int} {pos : 0 < m} {pos' : 0 < m'} (signs : sign = sign')
    (mantissas : m = m') (exponents : e = e') :
    UnpackedFloat.finite sign m e pos = .finite sign' m' e' pos' := by
  subst signs mantissas exponents
  rfl

/-- What is unpacked is what was packed. -/
theorem unpack_pack_of_log2 {m : Nat} {e : Int} {pos : 0 < m} (sign : Sign) (full : m.log2 = 52) (low : -52 ≤ e)
    (high : e ≤ 0) : UnpackedFloat.unpack Format.binary64 (UnpackedFloat.pack Format.binary64 (.finite sign m e pos)) =
      .finite sign m e pos := by
  obtain ⟨least, most⟩ := (Nat.log2_eq_iff (Nat.ne_of_gt pos)).mp full
  have exponent : (BitVec.ofNat 11 (e + 1075).toNat).toNat = (e + 1075).toNat := by
    rw [BitVec.toNat_ofNat]
    exact Nat.mod_eq_of_lt (by omega)
  have mantissa : (1#1 ++ BitVec.ofNat 52 m).toNat = m := by
    rw [BitVec.toNat_append, ← Nat.shiftLeft_add_eq_or_of_lt (BitVec.isLt _), BitVec.toNat_ofNat, Nat.shiftLeft_eq]
    show 1 * 2 ^ 52 + m % 2 ^ 52 = m
    omega
  have signed : Sign.ofBitVec sign.toBitVec = sign := by cases sign <;> rfl
  have normal : BitVec.ofNat 11 (e + 1075).toNat ≠ 0#11 := fun h => by
    have zero := congrArg BitVec.toNat h
    rw [exponent] at zero
    simp at zero
    omega
  have finite : BitVec.ofNat 11 (e + 1075).toNat ≠ -1#11 := fun h => by
    have ones := congrArg BitVec.toNat h
    rw [exponent] at ones
    simp at ones
    omega
  rw [pack_of_log2 sign full high]
  unfold UnpackedFloat.unpack
  rw [if_neg (by rw [unpackExponent_packComponents]; exact finite),
    if_neg (by rw [unpackExponent_packComponents]; exact normal)]
  refine finite_congr (by rw [unpackSign_packComponents, signed]) (by rw [unpackMantissa_packComponents, mantissa]) ?_
  rw [unpackExponent_packComponents, exponent, show (Format.binary64.exponentBias : Int) = 1023 from rfl,
    show (Format.binary64.mantissaBitsWithoutImplicit : Int) = 52 from rfl]
  omega

/-- A whole number becomes a double by a conversion and a product with one. -/
theorem ofNat_of_small {n : Nat} (pos : 0 < n) (small : n < Nat.pow 2 53) : Float.ofNat n =
    .ofModel (Float.Model.pack (.finite .positive (filled n) ((n.log2 : Int) - 52) (filled_pos pos))) := by
  have bound := log2_le_of_small small
  have full := log2_filled pos small
  have made : UnpackedFloat.ofNat Format.binary64 n =
      .finite .positive (filled n) ((n.log2 : Int) - 52) (filled_pos pos) := by
    unfold UnpackedFloat.ofNat UnpackedFloat.ofInt UnpackedFloat.normalize
    rw [show compare (n : Int) 0 = .gt from Int.compare_eq_gt.mpr (by omega)]
    exact round_of_small pos small
  have scaled : Float.ofNat n =
      .ofModel (Float.Model.ofUInt64 n.toUInt64 * Float.Model.ofBits 0x3FF0000000000000) := by
    show Float.ofScientific n false 0 = _
    rw [Float.ofScientific, dif_pos ⟨small, by omega⟩]
    rfl
  have word : n.toUInt64.toNat = n := by
    have : n < 2 ^ 53 := small
    show n % 2 ^ 64 = n
    omega
  have left : (Float.Model.ofUInt64 n.toUInt64).unpack =
      .finite .positive (filled n) ((n.log2 : Int) - 52) (filled_pos pos) := by
    show UnpackedFloat.unpack Format.binary64 (UnpackedFloat.pack Format.binary64
      (UnpackedFloat.ofNat Format.binary64 n.toUInt64.toNat)) = _
    rw [word, made, unpack_pack_of_log2 .positive full (by omega) (by omega)]
  have right : (Float.Model.ofBits 0x3FF0000000000000).unpack =
      .finite .positive (Nat.pow 2 52) (-52) (by decide) := rfl
  rw [scaled]
  show Float.ofModel (Float.Model.pack (UnpackedFloat.mul Format.binary64 _ _)) = _
  rw [left, right, mul_one_of_log2 full (by omega)]

/-- The bits of a whole number below `2 ^ 53` as a double. -/
theorem toBits_ofInt {n : Nat} (pos : 0 < n) (small : n < Nat.pow 2 53) (negative : Bool) :
    (ofInt (if negative then -(n : Int) else n)).toBits.toNat = (if negative then Nat.pow 2 63 else 0) +
      (n.log2 + 1023) * Nat.pow 2 52 + (filled n - Nat.pow 2 52) := by
  have bound := log2_le_of_small small
  have full := log2_filled pos small
  obtain ⟨least, most⟩ := (Nat.log2_eq_iff (Nat.ne_of_gt (filled_pos pos))).mp full
  have given (sign : Sign) : (Float.ofModel (Float.Model.pack
      (.finite sign (filled n) ((n.log2 : Int) - 52) (filled_pos pos)))).toBits.toNat =
      sign.toBitVec.toNat * Nat.pow 2 63 + (n.log2 + 1023) * Nat.pow 2 52 + (filled n - Nat.pow 2 52) := by
    show (UnpackedFloat.pack Format.binary64 _).toNat = _
    have exponent : (n.log2 + 1023) % 2 ^ 11 = n.log2 + 1023 := by omega
    have fraction : filled n % 2 ^ 52 = filled n - Nat.pow 2 52 := by
      have power : Nat.pow 2 52 = 2 ^ 52 := rfl
      omega
    rw [pack_of_log2 sign full (by omega), toNat_packComponents, BitVec.toNat_ofNat, BitVec.toNat_ofNat,
      show ((n.log2 : Int) - 52 + 1075).toNat = n.log2 + 1023 by omega, exponent, fraction]
  cases negative with
  | false =>
    have same : ofInt (n : Int) = Float.ofNat n := by
      unfold ofInt
      rw [if_neg (by omega), Int.natAbs_natCast]
    rw [if_neg Bool.false_ne_true, same, ofNat_of_small pos small, given]
    rfl
  | true =>
    have same : ofInt (-(n : Int)) = -Float.ofNat n := by
      unfold ofInt
      rw [if_pos (by omega), Int.natAbs_neg, Int.natAbs_natCast]
    have back : (Float.Model.pack (.finite .positive (filled n) ((n.log2 : Int) - 52) (filled_pos pos))).unpack =
        .finite .positive (filled n) ((n.log2 : Int) - 52) (filled_pos pos) :=
      unpack_pack_of_log2 .positive full (by omega) (by omega)
    rw [if_pos rfl, same, ofNat_of_small pos small]
    show (Float.ofModel (Float.Model.pack (Float.Model.unpack (Float.Model.pack _)).neg)).toBits.toNat = _
    rw [back]
    exact given .negative

/-- Doubles with the same bits are the same. -/
theorem eq_of_toBits {x y : Float} (h : x.toBits.toNat = y.toBits.toNat) : x = y := by
  obtain ⟨⟨a, _⟩⟩ := x
  obtain ⟨⟨b, _⟩⟩ := y
  obtain rfl : a = b := UInt64.toNat_inj.mp h
  rfl

/-- The bits of a finite double, below the normal doubles and among them. -/
theorem bits_of_finite {bits : Nat} (word : bits < Nat.pow 2 64) {negative : Bool} {m : Nat} {e : Int}
    (h : Real64.ofBits bits = .finite negative m e) :
    (m < Nat.pow 2 52 ∧ e = -1074 ∧ bits = (if negative then Nat.pow 2 63 else 0) + m) ∨
      (Nat.pow 2 52 ≤ m ∧ m < Nat.pow 2 53 ∧ -1074 ≤ e ∧
        bits = (if negative then Nat.pow 2 63 else 0) + (e + 1075).toNat * Nat.pow 2 52 + (m - Nat.pow 2 52)) := by
  simp only [show Nat.pow 2 52 = 4503599627370496 from rfl, show Nat.pow 2 53 = 9007199254740992 from rfl,
    show Nat.pow 2 63 = 9223372036854775808 from rfl, show Nat.pow 2 64 = 18446744073709551616 from rfl] at word ⊢
  unfold Real64.ofBits at h
  simp only [show Nat.pow 2 52 = 4503599627370496 from rfl, show Nat.pow 2 11 = 2048 from rfl,
    show Nat.pow 2 63 = 9223372036854775808 from rfl] at h
  have sign : (if negative then 9223372036854775808 else 0) = bits / 9223372036854775808 * 9223372036854775808 := by
    have top : negative = (bits / 9223372036854775808 % 2 == 1) := by
      split at h
      · split at h <;> cases h
      · split at h <;> cases h <;> rfl
    rw [top]
    by_cases one : bits / 9223372036854775808 % 2 = 1
    · simp only [one, beq_self_eq_true, if_true]
      omega
    · have zero : bits / 9223372036854775808 % 2 = 0 := by omega
      simp only [zero, show (0 == 1) = false from rfl, Bool.false_eq_true, if_false]
      omega
  rw [sign]
  split at h
  · split at h <;> cases h
  · split at h
    · obtain ⟨-, rfl, rfl⟩ := Real64.finite.inj h
      exact .inl ⟨by omega, rfl, by omega⟩
    · obtain ⟨-, rfl, rfl⟩ := Real64.finite.inj h
      exact .inr ⟨by omega, by omega, by omega, by omega⟩

/-! ## Whole doubles -/

/-- A whole double below `2 ^ 53` is a number with zeros at its end. -/
theorem filled_of_whole {m : Nat} {e : Int} (least : Nat.pow 2 52 ≤ m) (most : m < Nat.pow 2 53)
    (whole : Real64.isWhole m e = true) (small : Real64.scale m e < Nat.pow 2 53) :
    ∃ k : Nat, k ≤ 52 ∧ e = -(k : Int) ∧ m = Real64.scale m e * Nat.pow 2 k := by
  unfold Real64.scale at small ⊢
  by_cases up : 0 ≤ e
  · rw [if_pos up] at small ⊢
    have none : e.toNat = 0 := by
      refine Nat.eq_zero_of_not_pos fun more => ?_
      have twice : 2 ^ 1 ≤ 2 ^ e.toNat := Nat.pow_le_pow_right (by decide) more
      have double : m * 2 ≤ m * Nat.pow 2 e.toNat := Nat.mul_le_mul_left m twice
      have low : 2 ^ 52 ≤ m := least
      have high : m * Nat.pow 2 e.toNat < 2 ^ 53 := small
      omega
    refine ⟨0, by omega, by omega, ?_⟩
    rw [none, show Nat.pow 2 0 = 1 from rfl, Nat.mul_one, Nat.mul_one]
  · rw [if_neg up] at small ⊢
    have exact : m % 2 ^ (-e).toNat = 0 := by simpa [Real64.isWhole, up] using whole
    have parts : m = m / 2 ^ (-e).toNat * 2 ^ (-e).toNat := by
      have both := Nat.div_add_mod m (2 ^ (-e).toNat)
      rw [exact, Nat.add_zero, Nat.mul_comm] at both
      exact both.symm
    have low : 2 ^ 52 ≤ m := least
    have under : 2 ^ (-e).toNat ≤ m := Nat.le_of_dvd (by omega) (Nat.dvd_of_mod_eq_zero exact)
    have few := (Nat.pow_lt_pow_iff_right (by decide : 1 < 2)).mp (Nat.lt_of_le_of_lt under most)
    exact ⟨(-e).toNat, by omega, by omega, parts⟩

/-- Below the normal doubles none but zero is whole. -/
theorem eq_zero_of_mod {m k : Nat} (sub : m < Nat.pow 2 52) (far : 52 ≤ k) (whole : m % Nat.pow 2 k = 0) : m = 0 := by
  have short : m < Nat.pow 2 k := Nat.lt_of_lt_of_le sub (Nat.pow_le_pow_right (by decide) far)
  rwa [Nat.mod_eq_of_lt short] at whole

/-- A whole double below `2 ^ 53`, other than zero, is the one nearest to the number it stands for. -/
theorem eq_ofInt_of_whole {x : Float} {negative : Bool} {m : Nat} {e : Int}
    (finite : Real64.ofFloat x = .finite negative m e) (some : m ≠ 0) (whole : Real64.isWhole m e = true)
    (small : Real64.scale m e ≤ maxSafeInteger) :
    x = ofInt (if negative then -(Real64.scale m e : Int) else Real64.scale m e) := by
  have below : Real64.scale m e < Nat.pow 2 53 := by
    have : maxSafeInteger < Nat.pow 2 53 := by decide
    omega
  obtain ⟨sub, rfl, -⟩ | ⟨least, most, -, bits⟩ := bits_of_finite x.toBits.toNat_lt finite
  · exact absurd (eq_zero_of_mod sub (by decide) (eq_of_beq whole)) some
  · obtain ⟨k, few, exponent, mantissa⟩ := filled_of_whole least most whole below
    generalize Real64.scale m e = n at below mantissa ⊢
    have pos : 0 < n := by
      refine Nat.pos_of_ne_zero fun zero => some ?_
      rw [mantissa, zero, Nat.zero_mul]
    have place : n.log2 + k = 52 := by
      have full : m.log2 = 52 := (Nat.log2_eq_iff some).mpr ⟨least, most⟩
      have wide : m.log2 = n.log2 + k := by
        refine (Nat.log2_eq_iff some).mpr ⟨?_, ?_⟩
        · rw [mantissa, Nat.pow_add]
          exact Nat.mul_le_mul_right _ (Nat.log2_self_le (Nat.ne_of_gt pos))
        · rw [mantissa, show n.log2 + k + 1 = n.log2 + 1 + k by omega, Nat.pow_add]
          exact Nat.mul_lt_mul_of_pos_right Nat.lt_log2_self (Nat.two_pow_pos _)
      omega
    have same : filled n = m := by
      unfold filled
      rw [Nat.shiftLeft_eq, show 52 - n.log2 = k by omega]
      exact mantissa.symm
    refine eq_of_toBits ?_
    rw [toBits_ofInt pos below, bits, exponent, same, show (-(k : Int) + 1075).toNat = n.log2 + 1023 by omega]

/-- A zero without a sign. -/
theorem eq_ofInt_zero {x : Float} {e : Int} (finite : Real64.ofFloat x = .finite false 0 e) : x = ofInt 0 := by
  have zero : (ofInt 0).toBits.toNat = 0 := by decide +kernel
  refine eq_of_toBits ?_
  rw [zero]
  obtain ⟨-, -, bits⟩ | ⟨least, -⟩ := bits_of_finite x.toBits.toNat_lt finite
  · exact bits
  · exact absurd least (by decide)

/-! ## Doubles through JSON -/

/-- A finite double other than negative zero: JSON has a number for it. -/
def isPlain (x : Float) : Bool :=
  match Real64.ofFloat x with
  | .finite negative m _ => !(negative && m == 0)
  | _ => false

theorem ofFloat_ofInt_zero : Json.ofFloat (ofInt 0) = .int 0 := by
  have finite : Real64.ofFloat (ofInt 0) = .finite false 0 (-1074) := by decide +kernel
  unfold Json.ofFloat
  have none (e : Int) : Real64.scale 0 e = 0 := by simp [Real64.scale]
  have whole (e : Int) : Real64.isWhole 0 e = true := by simp [Real64.isWhole]
  rw [finite]
  dsimp only
  rw [none, if_pos ⟨whole _, Nat.zero_le _⟩]
  rfl

theorem isPlain_ofInt_zero : isPlain (ofInt 0) = true := by decide +kernel

/-- JSON gives a plain double back. -/
theorem toFloat?_ofFloat_of_plain {x : Float} (plain : isPlain x = true) :
    (Json.ofFloat x).toFloat? = some x := by
  unfold isPlain at plain
  unfold Json.ofFloat
  cases finite : Real64.ofFloat x with
  | nan | infinite => simp [finite] at plain
  | finite negative m e =>
    rw [finite] at plain
    dsimp only at plain ⊢
    split
    · next whole =>
      obtain ⟨whole, small⟩ := whole
      by_cases zero : m = 0
      · subst zero
        obtain rfl : negative = false := by simpa using plain
        have none : Real64.scale 0 e = 0 := by simp [Real64.scale]
        rw [none]
        exact congrArg some (eq_ofInt_zero finite).symm
      · exact congrArg some (eq_ofInt_of_whole finite zero whole small).symm
    · rfl

/-- Any other double becomes zero or null. -/
theorem ofFloat_of_not_plain {x : Float} (h : isPlain x = false) : Json.ofFloat x = .int 0 ∨ Json.ofFloat x = .null := by
  unfold isPlain at h
  unfold Json.ofFloat
  cases finite : Real64.ofFloat x with
  | nan | infinite => exact .inr rfl
  | finite negative m e =>
    rw [finite] at h
    obtain ⟨rfl, rfl⟩ : negative = true ∧ m = 0 := by simpa using h
    have none : Real64.scale 0 e = 0 := by simp [Real64.scale]
    have whole : Real64.isWhole 0 e = true ∧ Real64.scale 0 e ≤ maxSafeInteger := by
      simp [Real64.isWhole, Real64.scale]
    dsimp only
    rw [if_pos whole, none]
    exact .inl rfl

end PromptScript.Number
