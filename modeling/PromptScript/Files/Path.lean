import PromptScript.Text.Span

/-! # Paths

Names of files, with their parts between slashes. Paths stay as they are written: `.` and `..` are not worked
out. -/
namespace PromptScript.Path

/-- A path as seen from a directory. One that starts with a slash is seen from nowhere. -/
def join (base path : String) : String :=
  if path.toList.head? = some '/' ∨ base = "" then path
  else if base.toList.getLast? = some '/' then base ++ path
  else base ++ "/" ++ path

/-- The parts of a path without those that say nothing: empty ones, and dots but for a first one. A path that
starts with a slash has no first dot. -/
def isSilent (first : Bool) (part : List Char) : Bool := part = [] || (part = ['.'] && !first)

/-- Leaves out silent parts at the end. The parts are those of a path, last one first. -/
def dropSilent : List (List Char) → List (List Char)
  | [] => []
  | part :: r => if isSilent r.isEmpty part && !r.isEmpty then dropSilent r else part :: r

/-- The directory that a path lies in, as the path writes it; `none` if it names no part of its own. -/
def parent? (path : String) : Option String :=
  match dropSilent (Text.splitAtChar '/' path.toList).reverse with
  | [] => none
  | [[]] => none
  | [_] => some ""
  | part :: r =>
    if part = [] then none
    else match dropSilent r with
      | [[]] => some "/"
      | r => some (String.ofList (Text.joinWith ['/'] r.reverse))

end PromptScript.Path
