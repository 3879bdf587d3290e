import PromptScript.Text.CaseTable

/-! # Upper and lower case

Case mapping of whole texts by the Unicode standard. One letter may become several (`ß` is `SS` in upper
case), and a capital sigma at the end of a word becomes `ς`. -/
namespace PromptScript.Text

/-- The characters with the given code points. -/
def ofCodePoints (ns : List Nat) : List Char := ns.map Char.ofNat

/-- The upper case of a character. -/
def upperOf (c : Char) : List Char :=
  if c.toNat < 128 then [c.toUpper]
  else match CaseTable.upperLong.lookup c.toNat with
    | some ns => ofCodePoints ns
    | none => [((CaseTable.shifted? CaseTable.upper c.toNat).map Char.ofNat).getD c]

/-- The lower case of a character that stands alone. -/
def lowerOf (c : Char) : List Char :=
  if c.toNat < 128 then [c.toLower]
  else match CaseTable.lowerLong.lookup c.toNat with
    | some ns => ofCodePoints ns
    | none => [((CaseTable.shifted? CaseTable.lower c.toNat).map Char.ofNat).getD c]

/-- Characters that have a case. -/
def isCased (c : Char) : Bool :=
  if c.toNat < 128 then c.isAlpha else CaseTable.within CaseTable.cased c.toNat

/-- Characters that are passed over when the neighbours of a sigma are looked at. -/
def isCaseIgnorable (c : Char) : Bool :=
  if c.toNat < 128 then ['\'', '.', ':', '^', Char.ofNat 0x60].contains c
  else CaseTable.within CaseTable.ignorable c.toNat

/-- Whether the first character that is not passed over has a case. -/
def meetsCased : List Char → Bool
  | [] => false
  | c :: r => if isCaseIgnorable c then meetsCased r else isCased c

/-- The text in upper case. -/
def toUpper (text : List Char) : List Char := text.flatMap upperOf

/-- The lower case of the rest of a text, given what stands before it in reverse. -/
def lowerFrom (before : List Char) : List Char → List Char
  | [] => []
  | c :: r =>
    let image :=
      if c = 'Σ' then (if meetsCased before && !meetsCased r then ['ς'] else ['σ']) else lowerOf c
    image ++ lowerFrom (c :: before) r

/-- The text in lower case. -/
def toLower (text : List Char) : List Char := lowerFrom [] text

theorem toUpper_append (a b : List Char) : toUpper (a ++ b) = toUpper a ++ toUpper b := by
  simp [toUpper]

end PromptScript.Text
