import PromptScript.Chain.Playing
import PromptScript.Chain.Storage
import PromptScript.CommandLine.Command
import PromptScript.CommandLine.Transcript
import PromptScript.Files.Loading
import PromptScript.Json.Reader
import PromptScript.Survey.Report

/-! # Running commands

A command is run on what is known of the files. `CommandLine.execute` runs arguments on files held in memory, and
gives the files that the run leaves. -/
namespace PromptScript.CommandLine

/-- Commands supply the time to their chains, and no functions. -/
def clock (now : Int) : Host Unit where
  call := fun _ _ state => (.ok .undefined, state)
  now := fun _ => now

/-- Reads a file. -/
def readFile (files : Files) (path : String) : Except CommandFault String :=
  (files path).mapError (.unreadable path)

/-- The parameters that an argument gives. -/
def parametersOf : Option String → Except CommandFault (List (String × Value))
  | none => .ok []
  | some text =>
    match Json.parse? text with
    | none => .error .parametersNotJson
    | some j =>
      match Value.ofJson j with
      | .object fields => .ok fields
      | v => .error (.parametersNotObject v.typeName)

/-- The chain of a document in a file, at its start. -/
def startChain (files : Files) (format : Format) (prompt : String) (parameters : Option String) :
    Except CommandFault Chain := do
  let source ← readFile files prompt
  let parameters ← parametersOf parameters
  (Chain.start source parameters format {}).mapError .chain

/-- The chain stored in a file. -/
def restoreChain (files : Files) (state : String) : Except CommandFault Chain := do
  match Json.parse? (← readFile files state) with
  | none => .error .stateNotJson
  | some j => (Chain.ofJson j).mapError .chain

/-- What is printed for a step of a chain that is played. -/
def stepText (number : Nat) (r : StepResult) : String :=
  s!"--- step {number} (completed: {r.completed})\n" ++ r.toJson.pretty ++ "\n"

/-- Plays a document to its end. -/
def render (files : Files) (now : Int) (format : Format) (prompt : String) (parameters : Option String)
    (responses : List String) : Transcript :=
  match startChain files format prompt parameters with
  | .error fault => Transcript.failed fault {}
  | .ok chain =>
    let (results, fault) := chain.play (Expr.eval (clock now)) responses ⟨0, ()⟩
    let t : Transcript := { output := String.join (results.zipIdx.map fun (r, number) => stepText number r) }
    match fault with
    | none => t
    | some fault => t.failed (.chain fault)

/-- What is printed about a document. -/
def reportText (r : Report) : String :=
  "Hash: " ++ r.hash ++ "\nChain: " ++ toString r.isChain ++
    "\nParameters: " ++ String.intercalate ", " r.parameters ++
    "\nConfig: " ++ Json.toText (.obj r.config) ++ "\n" ++
    String.join (r.paths.map fun path => "  includes " ++ path ++ "\n") ++ r.resolved ++ "\n"

/-- What is printed about a defect. -/
def diagnosticText (d : Diagnostic) : String :=
  s!"error[{d.defect.code}]: {d.defect.message}\n{d.frame}\n"

/-- The directory that absolute references of a document are seen from, unless another one is given. -/
def rootOf (prompt : String) (root : Option String) : String :=
  root.getD ((Path.parent? prompt).getD "")

/-- Surveys a document. -/
def scan (files : Files) (prompt : String) (root : Option String) : Transcript :=
  match readFile files prompt with
  | .error fault => Transcript.failed fault {}
  | .ok source =>
    let r := Source.survey ⟨prompt, source⟩ { loader := some (Files.loader files (rootOf prompt root)) } none
    let t : Transcript :=
      { output := reportText r, errors := String.join (r.diagnostics.map diagnosticText) }
    if r.diagnostics.isEmpty then t else t.failed (.problems r.diagnostics.length)

/-- The chain to go on with: the stored one, or a new one. -/
def chainOf (files : Files) (format : Format) (state : String) (prompt parameters : Option String) :
    Except CommandFault Chain :=
  if files.has state then restoreChain files state
  else match prompt with
    | none => .error (.noState state)
    | some prompt => startChain files format prompt parameters

/-- Makes a step of a chain, and stores the chain. -/
def chain (files : Files) (now : Int) (format : Format) (state : String)
    (prompt parameters response : Option String) : Transcript :=
  match chainOf files format state prompt parameters with
  | .error fault => Transcript.failed fault {}
  | .ok chain =>
    match (chain.step (Expr.eval (clock now)) (response.map .text) ⟨0, ()⟩).1 with
    | .error fault => Transcript.failed (.chain fault) {}
    | .ok (chain, r) => { output := r.toJson.pretty ++ "\n", saved := some (state, chain.toText) }

/-- Runs a command; the file it writes is not written yet. -/
def run (files : Files) (now : Int) (command : Command) : Transcript :=
  match command.task with
  | .render prompt parameters responses => render files now command.format prompt parameters responses
  | .scan prompt root => scan files prompt root
  | .chain state prompt parameters response =>
    chain files now command.format state prompt parameters response

/-- How the program is used. -/
def usage : String :=
  "Usage:\n" ++
  "  render PROMPT [-p JSON] [-r TEXT]...                  run a document to its end\n" ++
  "  scan PROMPT [--root DIR]                              survey a document\n" ++
  "  chain STATE [--prompt PROMPT] [-p JSON] [-r TEXT]     make one step of a stored chain\n" ++
  "Messages are written in the format that -a names: default or openai.\n"

/-- What a refusal leaves. -/
def refused : Refusal → Transcript
  | .help => { output := usage }
  | .misuse => { errors := usage, code := 2 }

/-- Runs the program on files held in memory. -/
def execute (tree : FileTree) (now : Int) (arguments : List String) : Transcript × FileTree :=
  match parse arguments with
  | .error refusal => (refused refusal, tree)
  | .ok command =>
    let t := run tree.read now command
    match t.saved with
    | none => (t, tree)
    | some (path, content) =>
      match tree.write path content with
      | .ok tree => (t, tree)
      | .error cause => (t.afterWriting path (.error cause), tree)

end PromptScript.CommandLine
