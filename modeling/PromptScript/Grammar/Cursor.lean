import PromptScript.Defect

/-! # Reading a source

A `Cursor` is a place in a source: its offset and the text from there on. A `Reading` moves the cursor
forward and may end with a fault. -/
namespace PromptScript

structure Cursor where
  offset : Nat
  rest : List Char
  deriving Inhabited

/-- The start of a source. -/
def Cursor.start (source : List Char) : Cursor := ⟨0, source⟩

/-- The cursor after `n` more characters. -/
def Cursor.skip : Nat → Cursor → Cursor
  | 0, c => c
  | _, ⟨offset, []⟩ => ⟨offset, []⟩
  | n + 1, ⟨offset, c :: r⟩ => skip n ⟨offset + c.utf8Size, r⟩

/-- The cursor after the characters that satisfy `p`. -/
def Cursor.skipWhile (p : Char → Bool) : Cursor → Cursor
  | ⟨offset, rest⟩ => go offset rest
where
  /-- The cursor at an offset, moved over the start of the text. -/
  go (offset : Nat) : List Char → Cursor
    | [] => ⟨offset, []⟩
    | c :: r => if p c then go (offset + c.utf8Size) r else ⟨offset, c :: r⟩

abbrev Reading := StateT Cursor (Except Fault)

namespace Grammar

/-- The blanks between the tokens of a tag or an expression. -/
def isSpace (c : Char) : Bool :=
  c == ' ' || c == '\t' || c == '\n' || c == '\r' || c.toNat == 12

/-- Characters that a name may start with: letters, `_`, `$`, and everything beyond ASCII. -/
def isNameStart (c : Char) : Bool := c.isAlpha || c == '_' || c == '$' || 128 ≤ c.toNat

/-- Characters that a name may go on with. -/
def isNameChar (c : Char) : Bool := isNameStart c || c.isDigit

/-- The offset of the cursor. -/
def offset : Reading Nat := return (← get).offset

/-- The text from the cursor on. -/
def rest : Reading (List Char) := return (← get).rest

/-- The character at the cursor. -/
def current? : Reading (Option Char) := return (← get).rest.head?

/-- Moves over `n` characters. -/
def skip (n : Nat) : Reading Unit := modify (Cursor.skip n)

/-- Moves over blanks. -/
def skipSpaces : Reading Unit := modify (Cursor.skipWhile isSpace)

/-- Moves over the characters that satisfy `p`, and gives them. -/
def takeWhile (p : Char → Bool) : Reading (List Char) := do
  let c ← get
  set (Cursor.skipWhile p c)
  return c.rest.takeWhile p

/-- Whether the text at the cursor starts with `s`. -/
def lookingAt (s : String) : Reading Bool := return Text.startsWith s.toList (← get).rest

/-- Whether `word` stands in front of a text, and not as part of a longer name. -/
def startsWithWord (word : String) (text : List Char) : Bool :=
  match Text.dropLead? word.toList text with
  | none => false
  | some [] => true
  | some (c :: _) => !isNameChar c

/-- Whether `word` stands at the cursor, and not as part of a longer name. -/
def lookingAtWord (word : String) : Reading Bool := return startsWithWord word (← get).rest

/-- Ends with a defect at a span. -/
def failAt {α : Type} (defect : Defect) (span : Span) : Reading α := throw ⟨defect, span⟩

/-- Ends with a message about the character at the cursor. -/
def failHere {α : Type} (message : String) : Reading α := do
  let o ← offset
  failAt (.syntaxFault message) ⟨o, o + 1⟩

/-- Ends because the source ends at the cursor. -/
def failEnd {α : Type} : Reading α := do
  let o ← offset
  failAt .unexpectedEnd ⟨o, o⟩

/-- The character that messages show for a character of the source: its first byte, taken as a code
point. -/
def shown (c : Char) : Char :=
  let n := c.toNat
  if n < 0x80 then c
  else if n < 0x800 then Char.ofNat (0xC0 + n / 0x40)
  else if n < 0x10000 then Char.ofNat (0xE0 + n / 0x1000)
  else Char.ofNat (0xF0 + n / 0x40000)

/-- Moves over a character that has to stand at the cursor. -/
def expect (c : Char) : Reading Unit := do
  match ← current? with
  | none => failEnd
  | some found =>
    if found = c then skip 1
    else failHere ("Expected '" ++ String.ofList [c] ++ "' but found '" ++ String.ofList [shown found] ++ "'")

/-- Reads a name. -/
def readName : Reading String := do
  match ← current? with
  | none => failEnd
  | some c =>
    if isNameStart c then return String.ofList (← takeWhile isNameChar)
    else failHere "Expected identifier"

end Grammar
end PromptScript
