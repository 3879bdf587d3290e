import PromptScript.Defect
import PromptScript.Json.Writer
import PromptScript.Yaml.Node

/-! # Configurations

The header of a document configures the conversation: it is YAML, and has to be a set of fields. -/
namespace PromptScript

/-- Named settings in the order of first mention. -/
abbrev Config := List (String × Json)

/-- The settings of a header; an empty header has none. -/
def Config.ofHeader (header : String) : Except ConfigDefect Config :=
  match Yaml.json? header.toList with
  | none => .error .unreadable
  | some .null => .ok []
  | some (.obj fields) => .ok fields
  | some j => .error (.notMapping j.toText)

end PromptScript
