import PromptScript.Message.Decoding
import PromptScript.Pass.Basic

/-! # Options as JSON -/
namespace PromptScript.Options

/-- Options as JSON. -/
def toJson (o : Options) : Json :=
  .obj [("defaultRole", .str o.defaultRole.name), ("includeSourceMap", .bool o.sourceMap)]

/-- Reads options; those that are missing take their usual values. -/
def ofJson? (j : Json) : Option Options := do
  let fields ← j.record? ["defaultRole", "includeSourceMap"]
  let usual : Options := {}
  return ⟨(← Json.given? "defaultRole" Role.ofJson? fields).getD usual.defaultRole,
    (← Json.given? "includeSourceMap" Json.bool? fields).getD usual.sourceMap⟩

end PromptScript.Options
