import PromptScript.CommandLine.Running
import Std.Time.DateTime.Timestamp

/-! # The program

Reads the files that a command may need, runs it on them, and prints and writes what it leaves. -/
namespace PromptScript.Program

/-- Why the system gives no content. Codes come with either sign. -/
def faultOf (e : IO.Error) : ReadFault :=
  match e with
  | .noFileOrDirectory _ _ _ => .missing
  | .inappropriateType _ code _ => if code = 21 || code = 0 - 21 then .directory else .insideFile
  | e => .other e.toString

/-- What reading or writing comes to. -/
def attempt {α : Type} (action : IO α) : IO (Except ReadFault α) := do
  match ← action.toBaseIO with
  | .ok a => return .ok a
  | .error e => return .error (faultOf e)

/-- Files by their paths, read once. -/
abbrev Known := List (String × Except ReadFault String)

/-- Reads files that are not known yet. Gives the paths of the documents that those mention, too. -/
def readNew (root : String) : List String → Known → List String → IO (Known × List String)
  | [], known, found => return (known, found)
  | path :: r, known, found => do
    if known.any (·.1 == path) then readNew root r known found
    else
      let content ← attempt (IO.FS.readFile path)
      let more := match content with
        | .ok content => Files.mentioned root ⟨path, content⟩
        | .error _ => []
      readNew root r ((path, content) :: known) (found ++ more)

/-- Reads files, the documents they mention, and so on up to a depth. -/
def readAll (root : String) : Nat → List String → Known → IO Known
  | 0, _, known => return known
  | depth + 1, paths, known => do
    let (known, found) ← readNew root paths known []
    readAll root depth found known

/-- All files that a task may read. -/
def readFor (task : Task) : IO Files := do
  let known ← match task with
    | .scan prompt root => readAll (CommandLine.rootOf prompt root) (Survey.referenceLimit + 1) [prompt] []
    | task => Prod.fst <$> readNew "" task.inputs [] []
  return fun path => ((known.find? (·.1 == path)).map Prod.snd).getD (.error .missing)

/-- Prints what a run leaves, and writes its file. -/
def finish (t : Transcript) : IO UInt32 := do
  IO.print t.output
  let t ← match t.saved with
    | none => pure t
    | some (path, content) => do
      let written ← attempt (IO.FS.writeFile path content)
      pure (t.afterWriting path written)
  IO.eprint t.errors
  return .ofNat t.code

end PromptScript.Program

open PromptScript in
def main (arguments : List String) : IO UInt32 := do
  match CommandLine.parse arguments with
  | .error refusal => Program.finish (CommandLine.refused refusal)
  | .ok command =>
    let files ← Program.readFor command.task
    let now := (← Std.Time.Timestamp.now).toMillisecondsSinceUnixEpoch.val
    Program.finish (CommandLine.run files now command)
