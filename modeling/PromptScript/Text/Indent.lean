import PromptScript.Text.Blank

/-! # Shared indentation

Text in a document is usually indented along with the tags around it. `dedent` takes off the indentation
that all lines share, and the blanks at both ends. -/
namespace PromptScript.Text

/-- The number of blanks a line starts with. -/
def indentOf (line : List Char) : Nat := (line.takeWhile isBlank).length

/-- The number of blanks that every line starts with. Lines of nothing but blanks do not count. -/
def commonIndent (text : List Char) : Nat :=
  (((lines text).filter fun line => !allBlank line).map indentOf).min?.getD 0

/-- Every line without the shared indentation, and the whole without the blanks at its ends. -/
def dedent (text : List Char) : List Char :=
  trim (joinWith ['\n'] ((lines text).map (List.drop (commonIndent text))))

end PromptScript.Text
