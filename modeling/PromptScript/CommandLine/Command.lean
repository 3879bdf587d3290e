import PromptScript.CommandLine.Arguments
import PromptScript.Provider.Basic

/-! # Commands

What the program can be asked to do: play a chain, survey a document, or make one step of a stored chain. -/
namespace PromptScript

/-- What to do. Paths are those of files. -/
inductive Task where
  /-- Play a document to its end. -/
  | render (prompt : String) (parameters : Option String) (responses : List String)
  /-- Survey a document; references with a slash in front are seen from `root`. -/
  | scan (prompt : String) (root : Option String)
  /-- Make a step of the chain in a file; without that file the chain starts from `prompt`. -/
  | chain (state : String) (prompt parameters response : Option String)
  deriving DecidableEq, Repr, Inhabited

/-- A task and the format of its messages. -/
structure Command where
  format : Format
  task : Task
  deriving DecidableEq, Repr, Inhabited

/-- The files that a task reads, but for those that documents name. -/
def Task.inputs : Task → List String
  | render prompt _ _ => [prompt]
  | scan prompt _ => [prompt]
  | chain state prompt _ _ => state :: prompt.toList

namespace CommandLine

/-- The flag for the format of messages, before or after the name of the task. -/
def formatFlag : Flag where
  long := "adapter"
  short := some 'a'
  takes := fun value => (Format.ofName? value).isSome

def parametersFlag : Flag where
  long := "params"
  short := some 'p'

def responseFlag (repeats : Bool) : Flag where
  long := "response"
  short := some 'r'
  repeats

/-- A flag for the path of a file or directory. -/
def pathFlag (long : String) : Flag where
  long
  takes := fun value => value != ""

/-- The flags of a task, but for the one that all tasks share; `none` for a word that names no task. -/
def taskFlags? : String → Option (List Flag)
  | "render" => some [parametersFlag, responseFlag true]
  | "scan" => some [pathFlag "root"]
  | "chain" => some [pathFlag "prompt", parametersFlag, responseFlag false]
  | _ => none

/-- The task of a name on a file. -/
def task (name path : String) (g : Given) : Task :=
  match name with
  | "scan" => .scan path (g.value? "root")
  | "chain" => .chain path (g.value? "prompt") (g.value? "params") (g.value? "response")
  | _ => .render path (g.value? "params") (g.allValues "response")

/-- The format that arguments ask for, those after the name of the task first. -/
def formatOf (before after : Given) : Format :=
  (((after.value? "adapter").or (before.value? "adapter")).bind Format.ofName?).getD .canonical

/-- Why no task follows a word that names none. The word `help` may be followed by the name of a task. -/
def refusalOf : List String → Refusal
  | ["help"] => .help
  | ["help", name] => if name = "help" || (taskFlags? name).isSome then .help else .misuse
  | _ => .misuse

/-- The command that the arguments of the program give. -/
def parse (arguments : List String) : Except Refusal Command := do
  let (before, rest) := beforeOperand [formatFlag] arguments
  let before ← readWords [formatFlag] 0 before {}
  match rest with
  | [] => .error .misuse
  | name :: r =>
    match taskFlags? name with
    | none => .error (refusalOf (name :: r))
    | some flags =>
      let after ← readWords (flags ++ [formatFlag]) 1 r {}
      match after.operands with
      | [path] => .ok ⟨formatOf before after, task name path after⟩
      | _ => .error .misuse

end CommandLine
end PromptScript
