import PromptScript.Document.Mentions
import PromptScript.Files.Path
import PromptScript.Files.Tree
import PromptScript.Grammar.Template
import PromptScript.Survey.Basic

/-! # Documents in files

References that name files: from the directory of the document they stand in, or with a slash in front from a
fixed root. -/
namespace PromptScript.Files

/-- Where the file of a reference lies. -/
def locate (root path current : String) : String :=
  match path.toList with
  | '/' :: r => Path.join root (String.ofList r)
  | _ => Path.join ((Path.parent? current).getD root) path

/-- Finds documents in files. -/
def loader (files : Files) (root : String) : Loader := fun path current =>
  let location := locate root path current
  match files location with
  | .ok content => .ok (some ⟨location, content⟩)
  | .error .missing => .ok none
  | .error fault => .error fault.message

/-- Where the documents lie that a document mentions. -/
def mentioned (root : String) (source : Source) : List String :=
  match Document.parse source.content.toList with
  | .ok d => d.mentions.map fun path => locate root path source.path
  | .error _ => []

end PromptScript.Files
