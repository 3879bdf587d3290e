import Mathlib.Algebra.Group.Int.Defs
import Mathlib.Algebra.Group.Nat.Defs
import PromptScript.Json.Reader
import PromptScript.Json.Writer
import PromptScript.Proofs.Doubles

/-! # Strings and numbers in JSON text

A string is read as it was written, whatever stands in it. So is a whole number of 64 bits; other numbers are exact where
their text alone gives them back. -/
namespace PromptScript

namespace Text

/-- Where nothing passes the test at the start, nothing is taken. -/
theorem spanWhile_of_ends {p : Char → Bool} {rest : List Char} (ends : ∀ c ∈ rest.head?, p c = false) :
    spanWhile p rest = ([], rest) := by
  cases rest with
  | nil => rfl
  | cons c r =>
    rw [spanWhile, ends c rfl]
    rfl

/-- What passes a test up to a place from which on nothing does. -/
theorem spanWhile_append {p : Char → Bool} {cs rest : List Char} (all : ∀ c ∈ cs, p c = true)
    (ends : ∀ c ∈ rest.head?, p c = false) : spanWhile p (cs ++ rest) = (cs, rest) := by
  induction cs with
  | nil => exact spanWhile_of_ends ends
  | cons c cs ih =>
    obtain ⟨here, later⟩ := List.forall_mem_cons.mp all
    show spanWhile p (c :: (cs ++ rest)) = _
    rw [spanWhile, if_pos here, ih later]

/-- What follows a place where nothing passes the test is not looked at. -/
theorem spanWhile_append_rest {p : Char → Bool} {rest : List Char} (ends : ∀ c ∈ rest.head?, p c = false)
    (cs : List Char) : spanWhile p (cs ++ rest) = ((spanWhile p cs).1, (spanWhile p cs).2 ++ rest) := by
  induction cs with
  | nil => exact spanWhile_of_ends ends
  | cons c cs ih =>
    rw [List.cons_append, spanWhile, spanWhile, ih]
    split <;> rfl

end Text

namespace Json

/-! ## Strings -/

theorem readHex?_control : ∀ n : Fin 32, Number.readHex? ['0', '0', if n.val < 16 then '0' else '1',
    Char.ofNat (if n.val % 16 < 10 then 48 + n.val % 16 else 87 + n.val % 16)] = some n.val := by decide

/-- The control character of an escape. -/
theorem readUnit?_control {n : Nat} (low : n < 32) (r : List Char) :
    readUnit? ('0' :: '0' :: (if n < 16 then '0' else '1') ::
      Char.ofNat (if n % 16 < 10 then 48 + n % 16 else 87 + n % 16) :: r) = some (n, r) := by
  rw [readUnit?, readHex?_control ⟨n, low⟩]
  rfl

/-- A character is read after a backslash. -/
theorem readString?_slash (fuel : Nat) (r : List Char) :
    readString? (fuel + 1) ('\\' :: '"' :: r) = readString?.more '"' r fuel ∧
    readString? (fuel + 1) ('\\' :: '\\' :: r) = readString?.more '\\' r fuel ∧
    readString? (fuel + 1) ('\\' :: 'n' :: r) = readString?.more '\n' r fuel ∧
    readString? (fuel + 1) ('\\' :: 'r' :: r) = readString?.more '\r' r fuel ∧
    readString? (fuel + 1) ('\\' :: 't' :: r) = readString?.more '\t' r fuel ∧
    readString? (fuel + 1) ('\\' :: 'b' :: r) = readString?.more (Char.ofNat 8) r fuel ∧
    readString? (fuel + 1) ('\\' :: 'f' :: r) = readString?.more (Char.ofNat 12) r fuel := by
  refine ⟨?_, ?_, ?_, ?_, ?_, ?_, ?_⟩
  all_goals
    rw [readString?.eq_def]
    rfl

/-- So is one by its number. -/
theorem readString?_unit {n : Nat} {r r' : List Char} (unit : readUnit? r = some (n, r')) (low : n < 0xD800) (fuel : Nat) :
    readString? (fuel + 1) ('\\' :: 'u' :: r) = readString?.more (Char.ofNat n) r' fuel := by
  have alone : ¬ (0xDC00 ≤ n ∧ n < 0xE000) := by omega
  have paired : ¬ (0xD800 ≤ n ∧ n < 0xDC00) := by omega
  rw [readString?.eq_def]
  simp [unit, alone, paired]

/-- A character is read as it was written. -/
theorem readString?_escape (c : Char) (fuel : Nat) (r : List Char) :
    readString? (fuel + 1) (escape c ++ r) = readString?.more c r fuel := by
  obtain ⟨quote, slash, newline, feed, tab, back, page⟩ := readString?_slash fuel r
  have is (n : Nat) (h : c.toNat = n) : c = Char.ofNat n := by rw [← h, Char.ofNat_toNat]
  by_cases quoted : c = '"'
  · rw [quoted]
    exact quote
  by_cases slashed : c = '\\'
  · rw [slashed]
    exact slash
  by_cases printed : 0x20 ≤ c.toNat
  · rw [escape, if_neg quoted, if_neg slashed, if_pos printed, List.singleton_append, readString?.eq_def]
    dsimp only
    rw [if_neg quoted, if_neg slashed, if_neg (Nat.not_lt.mpr printed)]
  by_cases line : c = '\n'
  · rw [line]
    exact newline
  by_cases fed : c = '\r'
  · rw [fed]
    exact feed
  by_cases tabbed : c = '\t'
  · rw [tabbed]
    exact tab
  by_cases eight : c.toNat = 8
  · rw [is 8 eight]
    exact back
  by_cases twelve : c.toNat = 12
  · rw [is 12 twelve]
    exact page
  · have low : c.toNat < 32 := Nat.not_le.mp printed
    rw [escape, if_neg quoted, if_neg slashed, if_neg printed, if_neg line, if_neg fed, if_neg tabbed, if_neg eight,
      if_neg twelve]
    refine (readString?_unit (readUnit?_control low r) (by omega) fuel).trans ?_
    rw [Char.ofNat_toNat]

theorem readString?_escaped (cs : List Char) {fuel : Nat} (enough : cs.length < fuel) (rest : List Char) :
    readString? fuel (cs.flatMap escape ++ '"' :: rest) = some (cs, rest) := by
  induction cs generalizing fuel with
  | nil =>
    obtain ⟨fuel, rfl⟩ := Nat.exists_eq_add_one_of_ne_zero (Nat.ne_of_gt enough)
    rw [readString?.eq_def]
    rfl
  | cons c cs ih =>
    obtain ⟨fuel, rfl⟩ := Nat.exists_eq_add_one_of_ne_zero (Nat.ne_of_gt (Nat.zero_lt_of_lt enough))
    rw [List.flatMap_cons, List.append_assoc, readString?_escape, readString?.more, ih (Nat.lt_of_succ_lt_succ enough)]
    rfl

theorem length_le_length_escaped (cs : List Char) : cs.length ≤ (cs.flatMap escape).length := by
  induction cs with
  | nil => exact Nat.le_refl _
  | cons c cs ih =>
    have some : 1 ≤ (escape c).length := by
      unfold escape
      repeat' split
      all_goals exact Nat.le_add_left 1 _
    rw [List.flatMap_cons, List.length_append, List.length_cons]
    omega

/-- **A string is read as it was written.** -/
theorem readQuoted?_quote (s : String) (rest : List Char) : readQuoted? (quote s ++ rest) = some (s, rest) := by
  have enough : s.toList.length < (s.toList.flatMap escape ++ '"' :: rest).length + 1 := by
    have := length_le_length_escaped s.toList
    rw [List.length_append]
    omega
  have text : quote s ++ rest = '"' :: (s.toList.flatMap escape ++ '"' :: rest) := by
    rw [quote, List.cons_append, List.append_assoc, List.singleton_append]
  rw [text, readQuoted?, readString?_escaped s.toList enough]
  exact congrArg (fun s => some (s, rest)) String.ofList_toList

/-! ## Numbers -/

/-- What may follow a number. -/
def Ends (rest : List Char) : Prop := ∀ c ∈ rest.head?, c.isDigit = false ∧ c ≠ '.' ∧ c ≠ 'e' ∧ c ≠ 'E'

theorem ends_nil : Ends [] := fun _ none => nomatch none

theorem ends_cons {c : Char} (h : c.isDigit = false ∧ c ≠ '.' ∧ c ≠ 'e' ∧ c ≠ 'E') (r : List Char) : Ends (c :: r) := by
  rintro _ ⟨⟩
  exact h

/-- A number that is read as it is written, wherever it stands. -/
def Exact (n : Json) : Prop := ∀ rest, Ends rest → readNumber? (scalar n ++ rest) = some (n, rest)

theorem digitValue_digitChar : ∀ n : Fin 10, Number.digitValue n.val.digitChar = n.val := by decide

theorem digitChar_ne_zero : ∀ n : Fin 10, 0 < n.val → n.val.digitChar ≠ '0' := by decide

/-- The digits of a number that is not zero do not begin with a zero. -/
theorem lead_digitsOf {n : Nat} (positive : 0 < n) : ∃ c r, Number.digitsOf n = c :: r ∧ c ≠ '0' := by
  induction n using Nat.strongRecOn with
  | ind n ih =>
    unfold Number.digitsOf
    by_cases small : n < 10
    · rw [Nat.toDigits_of_lt_base small]
      exact ⟨_, [], rfl, digitChar_ne_zero ⟨n, small⟩ positive⟩
    · obtain ⟨c, r, digits, other⟩ := ih (n / 10) (by omega) (by omega)
      unfold Number.digitsOf at digits
      rw [Nat.toDigits_of_base_le (by decide) (by omega), digits]
      exact ⟨c, _, rfl, other⟩

/-- The digits of a number of 64 bits fill no significand. -/
theorem significand_digitsOf {n : Nat} (bits : n < 2 ^ 64) : (Number.digitsOf n).foldl Significand.whole ⟨0, 0⟩ = ⟨n, 0⟩ := by
  have takes {k : Nat} {d : Fin 10} (fits : k * 10 + d.val < 2 ^ 64) :
      Significand.whole ⟨k, 0⟩ d.val.digitChar = ⟨k * 10 + d.val, 0⟩ := by
    have fits : ¬ ((0 : Int) < 0 ∨ Nat.pow 2 64 ≤ k * 10 + d.val) := by
      show ¬ ((0 : Int) < 0 ∨ 2 ^ 64 ≤ k * 10 + d.val)
      omega
    unfold Significand.whole
    rw [digitValue_digitChar, if_neg fits]
  induction n using Nat.strongRecOn with
  | ind n ih =>
    unfold Number.digitsOf
    by_cases small : n < 10
    · rw [Nat.toDigits_of_lt_base small, List.foldl_cons, List.foldl_nil]
      refine (takes (k := 0) (d := ⟨n, small⟩) (by simpa using bits)).trans ?_
      rw [Nat.zero_mul, Nat.zero_add]
    · have whole := ih (n / 10) (by omega) (by omega)
      have parts : n / 10 * 10 + n % 10 = n := by omega
      unfold Number.digitsOf at whole
      rw [Nat.toDigits_of_base_le (by decide) (by omega), List.foldl_append, whole, List.foldl_cons, List.foldl_nil]
      refine (takes (d := ⟨n % 10, Nat.mod_lt _ (by decide)⟩) (by simpa only [parts] using bits)).trans ?_
      rw [parts]

theorem isDigit_of_mem_digitsOf {n : Nat} : ∀ c ∈ Number.digitsOf n, c.isDigit = true :=
  fun _ member => Nat.isDigit_of_mem_toDigits (by decide) (by decide) member

theorem readNumber?_digitsOf (negative : Bool) {n : Nat} (bits : n < 2 ^ 64) (fits : negative = true → n ≠ 0 ∧ n ≤ 2 ^ 63)
    {rest : List Char} (ends : Ends rest) :
    readNumber? ((if negative then ['-'] else []) ++ (Number.digitsOf n ++ rest)) =
      some (.int (if negative then -(n : Int) else n), rest) := by
  have spans := Text.spanWhile_append (isDigit_of_mem_digitsOf (n := n)) fun c first => (ends c first).1
  have taken := significand_digitsOf bits
  obtain ⟨d, ds, digits, lead⟩ : ∃ d ds, Number.digitsOf n = d :: ds ∧ (d = '0' → d = '0' ∧ ds = []) := by
    by_cases zero : n = 0
    · rw [zero]
      exact ⟨'0', [], Nat.toDigits_zero 10, fun _ => ⟨rfl, rfl⟩⟩
    · obtain ⟨d, ds, digits, other⟩ := lead_digitsOf (Nat.pos_of_ne_zero zero)
      exact ⟨d, ds, digits, fun same => absurd same other⟩
  have digit : d.isDigit = true := isDigit_of_mem_digitsOf d (digits ▸ List.mem_cons_self)
  have unsigned : d ≠ '-' := by
    rintro rfl
    exact absurd digit (by decide)
  rw [digits] at spans taken ⊢
  unfold readNumber?
  cases rest with
  | nil =>
    rw [List.append_nil] at spans ⊢
    cases negative with
    | false => simpa [unsigned, spans, taken] using lead
    | true =>
      obtain ⟨positive, small⟩ : n ≠ 0 ∧ n ≤ 9223372036854775808 := fits rfl
      simpa [spans, taken, positive, small, Nat.not_lt.mpr small] using lead
  | cons c r =>
    obtain ⟨-, point, power, power'⟩ := ends c rfl
    rw [List.cons_append] at spans ⊢
    cases negative with
    | false => simpa [unsigned, spans, taken, point, power, power'] using lead
    | true =>
      obtain ⟨positive, small⟩ : n ≠ 0 ∧ n ≤ 9223372036854775808 := fits rfl
      simpa [spans, taken, positive, small, Nat.not_lt.mpr small, point, power, power'] using lead

/-- **Whole numbers of 64 bits are exact.** -/
theorem exact_int {n : Int} (least : -2 ^ 63 ≤ n) (greatest : n < 2 ^ 64) : Exact (.int n) := by
  intro rest ends
  have signed : (if decide (n < 0) then -(n.natAbs : Int) else n.natAbs) = n := by
    by_cases negative : n < 0
    · rw [if_pos (decide_eq_true negative)]
      omega
    · rw [if_neg (by simpa using negative)]
      omega
  have read := readNumber?_digitsOf (decide (n < 0)) (n := n.natAbs) (by omega)
    (fun negative => by have := of_decide_eq_true negative; omega) ends
  rw [signed] at read
  simp only [decide_eq_true_eq] at read
  rw [scalar, List.append_assoc]
  exact read

/-- An integer of no more than 64 bits, with its sign or without one. -/
def isWord : Json → Bool
  | int n => decide (-2 ^ 63 ≤ n) && decide (n < 2 ^ 64)
  | _ => false

theorem exact_of_isWord {j : Json} (h : j.isWord = true) : j.Exact := by
  cases j with
  | int n =>
    simp only [isWord, Bool.and_eq_true, decide_eq_true_eq] at h
    exact exact_int h.1 h.2
  | _ => cases h

/-- A number begins with a sign or a digit. -/
theorem lead_of_readNumber? {cs : List Char} {result : Json × List Char} (read : readNumber? cs = some result) :
    ∃ c r, cs = c :: r ∧ (c = '-' ∨ c.isDigit = true) := by
  cases cs with
  | nil => cases read
  | cons c r =>
    refine ⟨c, r, rfl, ?_⟩
    by_cases sign : c = '-'
    · exact .inl sign
    · by_cases digit : c.isDigit = true
      · exact .inr digit
      · have none : Text.spanWhile Char.isDigit (c :: r) = ([], c :: r) := by
          rw [Text.spanWhile, if_neg digit]
        unfold readNumber? at read
        simp [sign, none] at read

/-! ## Numbers apart from what follows them -/

/-- Reads the sign of a number. -/
def readSign : List Char → Bool × List Char
  | '-' :: r => (true, r)
  | r => (false, r)

/-- Reads what stands after a point, if there is one. -/
def readPlaces? (s : Significand) : List Char → Option (Significand × List Char × Bool)
  | '.' :: r =>
    let (ps, r) := Text.spanWhile Char.isDigit r
    if ps = [] then none else some (s.places ps, r, true)
  | r => some (s, r, false)

/-- Reads a power of ten, if there is one. -/
def readPower? : List Char → Option (Int × List Char × Bool)
  | c :: r =>
    if c = 'e' ∨ c = 'E' then
      let (down, r) := Number.takeSign r
      let (es, r) := Text.spanWhile Char.isDigit r
      if es = [] then none
      else
        let n := min (Number.ofDigits es) (Nat.pow 2 31)
        some ((if down then -(n : Int) else (n : Int)), r, true)
    else some (0, c :: r, false)
  | [] => some (0, [], false)

/-- The number of a significand and a power, before the rest of the text. -/
def numberBefore? (negative : Bool) (s : Significand) (power : Int) (pointed raised : Bool) (rest : List Char) :
    Option (Json × List Char) :=
  if !pointed && !raised && s.shift == 0 &&
      (if negative then s.value ≠ 0 ∧ s.value ≤ Nat.pow 2 63 else true) then
    some (.int (if negative then -(s.value : Int) else s.value), rest)
  else do
    let x ← scaled? 100 (Float.ofNat s.value) (max (s.shift + power) (-20000))
    some (.float (if negative then -x else x), rest)

theorem readNumber?_eq (cs : List Char) : readNumber? cs =
    let (negative, cs) := readSign cs
    let (ds, rest) := Text.spanWhile Char.isDigit cs
    if ds = [] then none
    else if ds.head? = some '0' ∧ ds ≠ ['0'] then none
    else (do
      let (s, rest, pointed) ← readPlaces? (ds.foldl Significand.whole ⟨0, 0⟩) rest
      let (power, rest, raised) ← readPower? rest
      numberBefore? negative s power pointed raised rest) := rfl

theorem takeSign_append (d : Char) (cs rest : List Char) : Number.takeSign (d :: cs ++ rest) =
    ((Number.takeSign (d :: cs)).1, (Number.takeSign (d :: cs)).2 ++ rest) := by
  rw [List.cons_append]
  unfold Number.takeSign
  split
  · next same => cases same; rfl
  · next same => cases same; rfl
  · next minus plus =>
    split
    · next same => cases same; exact absurd rfl (minus _)
    · next same => cases same; exact absurd rfl (plus _)
    · rfl

theorem readSign_append (d : Char) (cs rest : List Char) : readSign (d :: cs ++ rest) =
    ((readSign (d :: cs)).1, (readSign (d :: cs)).2 ++ rest) := by
  rw [List.cons_append]
  unfold readSign
  split
  · next same => cases same; rfl
  · next minus =>
    split
    · next same => cases same; exact absurd rfl (minus _)
    · rfl

theorem numberBefore?_append (rest : List Char) {negative : Bool} {s : Significand} {power : Int} {pointed raised : Bool} {r : List Char}
    {j : Json} {r' : List Char} (read : numberBefore? negative s power pointed raised r = some (j, r')) :
    numberBefore? negative s power pointed raised (r ++ rest) = some (j, r' ++ rest) := by
  unfold numberBefore? at read ⊢
  by_cases whole : (!pointed && !raised && s.shift == 0 &&
      (if negative then s.value ≠ 0 ∧ s.value ≤ Nat.pow 2 63 else true)) = true
  · rw [if_pos whole] at read ⊢
    obtain ⟨rfl, rfl⟩ := Prod.mk.inj (Option.some.inj read)
    rfl
  · rw [if_neg whole] at read ⊢
    obtain ⟨x, scaled, same⟩ := Option.bind_eq_some_iff.mp read
    obtain ⟨rfl, rfl⟩ := Prod.mk.inj (Option.some.inj same)
    rw [scaled]
    rfl

section Followed

variable {rest : List Char} (ends : Ends rest)
include ends

theorem readPlaces?_append {s s' : Significand} {cs r : List Char} {pointed : Bool}
    (read : readPlaces? s cs = some (s', r, pointed)) : readPlaces? s (cs ++ rest) = some (s', r ++ rest, pointed) := by
  have spans := Text.spanWhile_append_rest (p := Char.isDigit) fun c first => (ends c first).1
  unfold readPlaces? at read
  split at read
  · next r' =>
    rw [List.cons_append, readPlaces?, spans]
    dsimp only at read ⊢
    split at read
    · cases read
    · next some_ =>
      rw [if_neg some_]
      cases read
      rfl
  · next other =>
    cases read
    unfold readPlaces?
    split
    · next r'' same =>
      cases cs with
      | nil => exact absurd rfl (ends '.' (by rw [List.nil_append] at same; rw [same]; rfl)).2.1
      | cons c cs =>
        cases same
        exact absurd rfl (other cs)
    · rfl

theorem readPower?_append {power : Int} {cs r : List Char} {raised : Bool}
    (read : readPower? cs = some (power, r, raised)) : readPower? (cs ++ rest) = some (power, r ++ rest, raised) := by
  have spans := Text.spanWhile_append_rest (p := Char.isDigit) fun c first => (ends c first).1
  cases cs with
  | nil =>
    cases read
    cases rest with
    | nil => rfl
    | cons c cs =>
      obtain ⟨-, -, small, great⟩ := ends c rfl
      exact if_neg (not_or.mpr ⟨small, great⟩)
  | cons c cs =>
    unfold readPower? at read
    rw [List.cons_append, readPower?]
    dsimp only at read ⊢
    split at read
    · next power =>
      rw [if_pos power]
      cases cs with
      | nil => cases read
      | cons d cs =>
        rw [takeSign_append, spans]
        dsimp only at read ⊢
        split at read
        · cases read
        · next some_ =>
          rw [if_neg some_]
          cases read
          rfl
    · next plain =>
      rw [if_neg plain]
      cases read
      rfl

/-- A number is read from its own text whatever follows. -/
theorem readNumber?_append {cs r : List Char} {j : Json} (read : readNumber? cs = some (j, r)) :
    readNumber? (cs ++ rest) = some (j, r ++ rest) := by
  have spans := Text.spanWhile_append_rest (p := Char.isDigit) fun c first => (ends c first).1
  obtain ⟨c, cs, rfl, -⟩ := lead_of_readNumber? read
  rw [readNumber?_eq] at read ⊢
  rw [readSign_append]
  dsimp only at read ⊢
  rw [spans]
  dsimp only at read ⊢
  split at read
  · cases read
  · next some_ =>
    rw [if_neg some_]
    split at read
    · cases read
    · next single =>
      rw [if_neg single]
      obtain ⟨⟨s, r₁, pointed⟩, places, read⟩ := Option.bind_eq_some_iff.mp read
      obtain ⟨⟨power, r₂, raised⟩, powers, read⟩ := Option.bind_eq_some_iff.mp read
      rw [readPlaces?_append ends places]
      show (readPower? (r₁ ++ rest)).bind _ = _
      rw [readPower?_append ends powers]
      exact numberBefore?_append rest read

end Followed

/-- **A number is exact if its text alone gives it back.** -/
theorem exact_iff {n : Json} : n.Exact ↔ readNumber? (scalar n) = some (n, []) := by
  constructor
  · intro exact_
    have read := exact_ [] ends_nil
    rwa [List.append_nil] at read
  · exact fun read rest ends => readNumber?_append ends read

/-- Whether the text of a number alone gives it back. -/
def isExact (n : Json) : Bool :=
  match readNumber? (scalar n), n with
  | some (int a, []), int b => a == b
  | some (float x, []), float y => x.toBits == y.toBits
  | _, _ => false

theorem isExact_iff {n : Json} : n.isExact = true ↔ n.Exact := by
  rw [exact_iff]
  constructor
  · intro exact_
    unfold isExact at exact_
    split at exact_
    · next read => rw [read, eq_of_beq exact_]
    · next read => rw [read, Number.eq_of_toBits (congrArg UInt64.toNat (eq_of_beq exact_))]
    · cases exact_
  · intro read
    unfold isExact
    rw [read]
    cases n with
    | int n => exact beq_self_eq_true n
    | float x => exact beq_self_eq_true x.toBits
    | bool b => cases b <;> cases read
    | null | str _ | arr _ | obj _ => cases read

instance (n : Json) : Decidable n.Exact := decidable_of_iff _ isExact_iff

end Json
end PromptScript
