import PromptScript.Message.Basic
import PromptScript.Text.Indent

/-! # Passages

The text between the tags of a document, gathered piece by piece. A passage becomes one text: without the
indentation that its lines share, without the blanks at its ends, and with the places of the values that were
put into it. -/
namespace PromptScript

/-- A piece of a passage. -/
inductive Segment where
  /-- Text of the document itself. -/
  | literal (text : String)
  /-- The text of a value, and the variable it was read from. -/
  | value (text : String) (identifier : Option String)
  deriving Inhabited, Repr

/-- Pieces in order. -/
abbrev Passage := List Segment

/-- The one text of a passage, and the places of the values in it. -/
structure Paragraph where
  text : String
  sources : List SourceRef
  deriving Inhabited, Repr, DecidableEq

namespace Segment

/-- The text of a piece. -/
def text : Segment → String
  | literal s => s
  | value s _ => s

end Segment

namespace Passage

/-- A character and the number of the piece it comes from. -/
abbrev Mark := Char × Nat

/-- The characters of a passage with the numbers of their pieces, the first of which is `n`. -/
def marks (n : Nat) : Passage → List Mark
  | [] => []
  | s :: r => s.text.toList.map (·, n) ++ marks (n + 1) r

/-- Leaves out the first `indent` characters of every line. The second argument counts those of this line that
have been left out. -/
def dropColumns (indent : Nat) : Nat → List Mark → List Mark
  | _, [] => []
  | column, (c, n) :: r =>
    if c = '\n' then (c, n) :: dropColumns indent 0 r
    else if column < indent then dropColumns indent (column + 1) r
    else (c, n) :: dropColumns indent column r

/-- Leaves out the blanks at both ends. -/
def trimMarks (ms : List Mark) : List Mark :=
  let blank := fun (m : Mark) => Text.isBlank m.1
  ((ms.dropWhile blank).reverse.dropWhile blank).reverse

/-- The place of the characters that come from piece `n`: from the first to the last of them. -/
def placeOf? (n : Nat) (ms : List Mark) : Option (Nat × Nat) := do
  let first ← ms.findIdx? (·.2 == n)
  let last ← ms.reverse.findIdx? (·.2 == n)
  return (first, ms.length - last)

/-- The places of the values of a passage, whose first piece has the number `n`. A value of which no character is
left has none. -/
def sourcesIn (ms : List Mark) (n : Nat) : Passage → List SourceRef
  | [] => []
  | .literal _ :: r => sourcesIn ms (n + 1) r
  | .value _ identifier :: r =>
    match placeOf? n ms with
    | some (start, stop) => ⟨start, stop, identifier⟩ :: sourcesIn ms (n + 1) r
    | none => sourcesIn ms (n + 1) r

/-- The paragraph of a passage; a passage of blanks has none. -/
def paragraph? (p : Passage) : Option Paragraph :=
  let all := marks 0 p
  let kept := trimMarks (dropColumns (Text.commonIndent (all.map Prod.fst)) 0 all)
  if kept = [] then none
  else some ⟨String.ofList (kept.map Prod.fst), sourcesIn kept 0 p⟩

end Passage
end PromptScript
