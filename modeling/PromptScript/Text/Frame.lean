import PromptScript.Number.Shortest
import PromptScript.Text.Span

/-! # Positions and code frames

Where an offset lies, in lines and columns, and the excerpt of a text that shows a span: the lines around
it with their numbers, and a mark under the line where the span starts. -/
namespace PromptScript

/-- A line and a column, both counted from one; a column counts characters. -/
structure Position where
  line : Nat
  column : Nat
  deriving DecidableEq, Repr, Inhabited

namespace Text

/-- The position after one more character. -/
def advance (p : Position) (c : Char) : Position :=
  if c = '\n' then ⟨p.line + 1, 1⟩ else ⟨p.line, p.column + 1⟩

/-- The position where a text ends that starts at the first line and column. -/
def endPosition (text : List Char) : Position := text.foldl advance ⟨1, 1⟩

/-- The position of an offset. -/
def positionAt (text : List Char) (offset : Nat) : Position := endPosition (takeBytes offset text)

/-- How many lines a frame shows before and after the span. -/
def frameContext : Nat := 2

/-- `text` with blanks in front, up to a width. -/
def padLeft (width : Nat) (text : List Char) : List Char :=
  List.replicate (width - text.length) ' ' ++ text

/-- The mark under a line: a caret under the first column, then a tilde for each further one. -/
def underline (gutter column width : Nat) : List Char :=
  List.replicate (gutter + 2) ' ' ++ List.replicate (column - 1) ' ' ++ '^' :: List.replicate (width - 1) '~'

/-- How many columns of the line where a span starts belong to the span. -/
def markWidth (start stop : Position) (line : List Char) : Nat :=
  if stop.line = start.line then max 1 (stop.column - start.column)
  else max 1 (line.length - (start.column - 1))

/-- The lines of a frame, given the numbered lines to show. -/
def frameLines (gutter : Nat) (start stop : Position) : List (Nat × List Char) → List (List Char)
  | [] => []
  | (n, line) :: r =>
    let shown := padLeft gutter (Number.digitsOf n) ++ ':' :: ' ' :: line
    if n = start.line then
      shown :: underline gutter start.column (markWidth start stop line) :: frameLines gutter start stop r
    else shown :: frameLines gutter start stop r

/-- The excerpt of a text around a span that starts and stops at the given positions. -/
def frame (text : List Char) (start stop : Position) : List Char :=
  let all := lines text
  let firstLine := max 1 (start.line - frameContext)
  let lastLine := min (stop.line + frameContext) all.length
  let gutter := (Number.digitsOf lastLine).length
  let shown := (all.drop (firstLine - 1)).take (lastLine + 1 - firstLine)
  joinWith ['\n'] (frameLines gutter start stop ((List.range' firstLine shown.length).zip shown))

end Text
end PromptScript
