import PromptScript.Text.Span

/-! # Blank characters

The Unicode property `White_Space`, and cutting blanks off the ends of a text. -/
namespace PromptScript.Text

/-- Characters of the Unicode property `White_Space`. -/
def isBlank (c : Char) : Bool :=
  let n := c.toNat
  (0x9 ≤ n && n ≤ 0xD) || n == 0x20 || n == 0x85 || n == 0xA0 || n == 0x1680 ||
    (0x2000 ≤ n && n ≤ 0x200A) || n == 0x2028 || n == 0x2029 || n == 0x202F || n == 0x205F ||
    n == 0x3000

/-- Every character that the core library calls whitespace is blank. -/
theorem isBlank_of_isWhitespace {c : Char} (h : c.isWhitespace = true) : isBlank c = true := by
  simp only [Char.isWhitespace, Bool.or_eq_true, decide_eq_true_eq] at h
  rcases h with ((rfl | rfl) | rfl) | rfl <;> rfl

/-- The text without the blanks it starts with. -/
def trimStart : List Char → List Char
  | [] => []
  | c :: r => if isBlank c then trimStart r else c :: r

theorem trimStart_eq_dropWhile (text : List Char) : trimStart text = text.dropWhile isBlank := by
  induction text with
  | nil => rfl
  | cons c r ih => simp only [trimStart, List.dropWhile_cons, ih]

/-- The text without the blanks it ends with. -/
def trimEnd : List Char → List Char
  | [] => []
  | c :: r =>
    match trimEnd r with
    | [] => if isBlank c then [] else [c]
    | kept => c :: kept

/-- The text without the blanks at either end. -/
def trim (text : List Char) : List Char := trimEnd (trimStart text)

/-- Whether a text holds nothing but blanks. -/
def allBlank (text : List Char) : Bool := text.all isBlank

theorem trimEnd_eq_nil_iff {text : List Char} : trimEnd text = [] ↔ allBlank text = true := by
  induction text with
  | nil => simp [trimEnd, allBlank]
  | cons c r ih =>
    simp only [allBlank, List.all_cons, Bool.and_eq_true] at ih ⊢
    unfold trimEnd
    split
    · next h => by_cases hc : isBlank c = true <;> simp [hc, ih.1 h]
    · next h => simp [mt ih.2 h]

end PromptScript.Text
