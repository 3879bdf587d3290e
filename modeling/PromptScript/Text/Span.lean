/-! # Offsets and spans

Documents are measured in UTF-8 bytes. A `Span` is a half-open range of byte offsets; the functions
here cut a text (a list of characters) at such offsets. An offset inside a character counts as the
offset where that character starts, so every cut falls between two characters. -/
namespace PromptScript

/-- A half-open range of byte offsets of a text. -/
structure Span where
  start : Nat
  stop : Nat
  deriving DecidableEq, Repr, Inhabited

/-- The smallest span that covers both. -/
def Span.hull (a b : Span) : Span := ⟨min a.start b.start, max a.stop b.stop⟩

namespace Text

/-- The number of bytes a text takes. -/
def byteLength : List Char → Nat
  | [] => 0
  | c :: r => c.utf8Size + byteLength r

/-- The text before byte offset `n`. -/
def takeBytes : Nat → List Char → List Char
  | _, [] => []
  | n, c :: r => if c.utf8Size ≤ n then c :: takeBytes (n - c.utf8Size) r else []

/-- The text from byte offset `n` on. -/
def dropBytes : Nat → List Char → List Char
  | _, [] => []
  | n, c :: r => if c.utf8Size ≤ n then dropBytes (n - c.utf8Size) r else c :: r

/-- The text a span covers. -/
def slice (text : List Char) (span : Span) : List Char :=
  takeBytes (span.stop - byteLength (takeBytes span.start text)) (dropBytes span.start text)

/-- The greatest offset between two characters that is at most `n`. -/
def floorOffset (text : List Char) (n : Nat) : Nat := byteLength (takeBytes n text)

theorem takeBytes_append_dropBytes (n : Nat) (text : List Char) :
    takeBytes n text ++ dropBytes n text = text := by
  induction text generalizing n with
  | nil => rfl
  | cons c r ih =>
    unfold takeBytes dropBytes
    split <;> simp [ih]

theorem byteLength_append (a b : List Char) : byteLength (a ++ b) = byteLength a + byteLength b := by
  induction a with
  | nil => simp [byteLength]
  | cons c r ih => simp [byteLength, ih, Nat.add_assoc]

theorem byteLength_takeBytes_le (n : Nat) (text : List Char) : byteLength (takeBytes n text) ≤ n := by
  induction text generalizing n with
  | nil => simp [takeBytes, byteLength]
  | cons c r ih =>
    unfold takeBytes
    split
    · have := ih (n - c.utf8Size)
      simp only [byteLength]
      omega
    · simp [byteLength]

theorem floorOffset_le (text : List Char) (n : Nat) : floorOffset text n ≤ n :=
  byteLength_takeBytes_le n text

/-- The longest start of `text` whose characters satisfy `p`, and the rest. -/
def spanWhile (p : Char → Bool) : List Char → List Char × List Char
  | [] => ([], [])
  | c :: r => if p c then let (a, b) := spanWhile p r; (c :: a, b) else ([], c :: r)

/-- What follows `lead` in `text`, when `text` starts with it. -/
def dropLead? : List Char → List Char → Option (List Char)
  | [], text => some text
  | _ :: _, [] => none
  | a :: lead, c :: text => if a = c then dropLead? lead text else none

/-- Whether `text` starts with `lead`. -/
def startsWith (lead text : List Char) : Bool := (dropLead? lead text).isSome

/-- The pieces of a text between the places where `sep` stands. -/
def splitAtChar (sep : Char) : List Char → List (List Char)
  | [] => [[]]
  | c :: r =>
    match splitAtChar sep r with
    | [] => if c = sep then [[], []] else [[c]]
    | piece :: more => if c = sep then [] :: piece :: more else (c :: piece) :: more

/-- The lines of a text: its pieces between newlines. -/
def lines (text : List Char) : List (List Char) := splitAtChar '\n' text

/-- Pieces put together with `sep` between them. -/
def joinWith (sep : List Char) : List (List Char) → List Char
  | [] => []
  | [piece] => piece
  | piece :: more => piece ++ sep ++ joinWith sep more

/-- Whether `part` stands somewhere in the text. -/
def contains (part : List Char) : List Char → Bool
  | [] => startsWith part []
  | c :: r => startsWith part (c :: r) || contains part r

/-- The pieces of a text between the places where `sep`, which is not empty, stands. The first argument
counts the characters of a `sep` that are still to be passed over. -/
def splitOn (sep : List Char) : Nat → List Char → List (List Char)
  | _, [] => [[]]
  | k + 1, _ :: r => splitOn sep k r
  | 0, c :: r =>
    if startsWith sep (c :: r) then [] :: splitOn sep (sep.length - 1) r
    else match splitOn sep 0 r with
      | piece :: more => (c :: piece) :: more
      | [] => [[c]]

theorem dropLead?_eq_some {lead text rest : List Char} :
    dropLead? lead text = some rest ↔ text = lead ++ rest := by
  induction lead generalizing text with
  | nil => simp [dropLead?, eq_comm]
  | cons a lead ih =>
    cases text with
    | nil => simp [dropLead?]
    | cons c text =>
      unfold dropLead?
      split
      · next h => subst h; simp [ih]
      · next h => simp [Ne.symm h]

theorem joinWith_splitAtChar (sep : Char) (text : List Char) :
    joinWith [sep] (splitAtChar sep text) = text := by
  induction text with
  | nil => rfl
  | cons c r ih =>
    unfold splitAtChar
    split
    · next h => rw [h] at ih; split <;> simp_all [joinWith]
    · next piece more h =>
      rw [h] at ih
      split
      · next hc => simp [joinWith, ih, hc]
      · cases more with
        | nil => simp_all [joinWith]
        | cons q more => simp_all [joinWith]

end Text
end PromptScript
