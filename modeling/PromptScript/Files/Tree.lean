import PromptScript.Text.Span

/-! # Files held in memory

A set of files by their paths from one directory, read and written as a file system does: a path is followed part
by part, and every part but the last has to be a directory. -/
namespace PromptScript

/-- Why a file cannot be read. -/
inductive ReadFault where
  | missing
  /-- The path names a directory. -/
  | directory
  /-- A part of the path that should be a directory is a file. -/
  | insideFile
  | other (reason : String)
  deriving DecidableEq, Repr, Inhabited

/-- What is known of the files: the content of each path, or why there is none. -/
abbrev Files := String → Except ReadFault String

/-- The message of a fault. -/
def ReadFault.message : ReadFault → String
  | missing => "No such file or directory (os error 2)"
  | directory => "Is a directory (os error 21)"
  | insideFile => "Not a directory (os error 20)"
  | other reason => reason

/-- Whether something is there, readable or not. -/
def Files.has (files : Files) (path : String) : Bool :=
  match files path with
  | .ok _ => true
  | .error .missing => false
  | .error .insideFile => false
  | .error _ => true

/-- Files by the parts of their paths. -/
abbrev FileTree := List (List String × String)

namespace FileTree

/-- The parts of a path; those that are empty or a dot say nothing. -/
def parts (path : String) : List String :=
  ((Text.splitAtChar '/' path.toList).map String.ofList).filter fun part => part != "" && part != "."

/-- The tree of files given by their paths. -/
def ofList (files : List (String × String)) : FileTree := files.map fun (path, content) => (parts path, content)

/-- The content of a file. -/
def content? (tree : FileTree) (at_ : List String) : Option String :=
  (tree.find? fun file => file.1 == at_).map Prod.snd

/-- Whether a place is a directory. -/
def isDirectory (tree : FileTree) (at_ : List String) : Bool :=
  at_ = [] || tree.any fun file => at_.length < file.1.length && file.1.take at_.length == at_

/-- Follows parts from a directory. The directories above the first are not known. -/
def follow (tree : FileTree) : List String → List String → Except ReadFault (List String)
  | at_, [] => .ok at_
  | at_, part :: r =>
    if isDirectory tree at_ then
      if part = ".." then (if at_ = [] then .error .missing else follow tree at_.dropLast r)
      else
        let next := at_ ++ [part]
        if isDirectory tree next || (content? tree next).isSome then follow tree next r else .error .missing
    else .error .insideFile

/-- Whether a path may only name a directory. -/
def namesDirectory (path : String) : Bool :=
  match (Text.splitAtChar '/' path.toList).reverse with
  | last :: _ :: _ => last = [] || last = ['.']
  | _ => false

/-- The content of a path. -/
def read (tree : FileTree) : Files := fun path =>
  if path = "" ∨ path.toList.head? = some '/' then .error .missing
  else match follow tree [] (parts path) with
    | .error fault => .error fault
    | .ok at_ =>
      match content? tree at_ with
      | some content => if namesDirectory path then .error .insideFile else .ok content
      | none => .error .directory

/-- The tree with a file written; the directory it lies in has to be there. -/
def write (tree : FileTree) (path content : String) : Except ReadFault FileTree :=
  match (parts path).reverse with
  | [] => .error (if path = "" then .missing else .directory)
  | name :: r =>
    if path.toList.head? = some '/' then .error .missing
    else do
      let above ← follow tree [] r.reverse
      let at_ := above ++ [name]
      if !isDirectory tree above then throw .insideFile
      else if name = ".." || namesDirectory path || isDirectory tree at_ then throw .directory
      else return (tree.filter fun file => file.1 != at_) ++ [(at_, content)]

end FileTree
end PromptScript
