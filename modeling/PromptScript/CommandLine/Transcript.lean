import PromptScript.Chain.Basic
import PromptScript.Files.Tree

/-! # Transcripts

What a run of the program leaves: what it prints, the code it ends with, and the file it writes. -/
namespace PromptScript

/-- Why a command ends early. -/
inductive CommandFault where
  | unreadable (path : String) (cause : ReadFault)
  | unwritable (path : String) (cause : ReadFault)
  | parametersNotJson
  /-- The parameters are JSON of another type. -/
  | parametersNotObject (typeName : String)
  | stateNotJson
  /-- There is neither a stored chain nor a document to start from. -/
  | noState (path : String)
  | chain (fault : ChainFault)
  /-- A survey has found defects. -/
  | problems (count : Nat)
  deriving DecidableEq, Repr, Inhabited

namespace CommandFault

/-- What goes wrong. -/
def message : CommandFault → String
  | unreadable path _ => s!"reading {path}"
  | unwritable path _ => s!"writing {path}"
  | parametersNotJson => "parameters must be JSON"
  | parametersNotObject typeName => s!"parameters must be a JSON object, got {typeName}"
  | stateNotJson => "state file is not JSON"
  | noState path => s!"no state at {path}; pass --prompt to start"
  | chain fault => fault.message
  | problems count => s!"{count} problem(s) found"

/-- What lies behind it, if that is a fault of its own. -/
def cause? : CommandFault → Option String
  | unreadable _ cause => some cause.message
  | unwritable _ cause => some cause.message
  | parametersNotJson => some "the text is not JSON"
  | stateNotJson => some "the text is not JSON"
  | _ => none

/-- The last words of a command that ends early. -/
def text (fault : CommandFault) : String :=
  "Error: " ++ fault.message ++ ((fault.cause?.map fun cause => "\n\nCaused by:\n    " ++ cause).getD "") ++ "\n"

end CommandFault

structure Transcript where
  /-- What is printed as the result. -/
  output : String := ""
  /-- What is printed about defects. -/
  errors : String := ""
  code : Nat := 0
  /-- The path and content of a file to be written. -/
  saved : Option (String × String) := none
  deriving DecidableEq, Repr, Inhabited

namespace Transcript

/-- The run ends with a fault. -/
def failed (fault : CommandFault) (t : Transcript) : Transcript :=
  { t with errors := t.errors ++ fault.text, code := 1, saved := none }

/-- The run, once it is known whether the file could be written. -/
def afterWriting (path : String) (t : Transcript) : Except ReadFault Unit → Transcript
  | .ok _ => t
  | .error cause => t.failed (.unwritable path cause)

end Transcript
end PromptScript
