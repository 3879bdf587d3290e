import PromptScript.Chain.Basic
import PromptScript.Document.Decoding
import PromptScript.Document.Encoding
import PromptScript.Pass.Settings

/-! # Stored chains

A chain as JSON or as text, from which another process can go on. Functions are not stored, and dates become
strings. -/
namespace PromptScript

/-- What a step gives as JSON. -/
def StepResult.toJson (r : StepResult) : Json :=
  .obj [("messages", .arr r.messages), ("config", .obj r.config), ("completed", .bool r.completed)]

namespace Chain

/-- The fields of a chain, given how its messages are written. -/
def stored (message : Message → Json) (chain : Chain) : Json :=
  .obj (Json.present [("rawText", some (.str chain.source)), ("ast", some chain.document.toJson),
    ("scope", some chain.scope.toStored), ("didStart", some (.bool chain.started)),
    ("completed", some (.bool chain.completed)), ("adapterType", some (.str chain.format.name)),
    ("compilerOptions", some chain.options.toJson), ("globalConfig", chain.config.map .obj),
    ("globalMessages", some (.arr (chain.history.map message))),
    ("wasLastStepIsolated", some (.bool chain.isolated))])

/-- A chain as JSON. -/
def toJson (chain : Chain) : Json := chain.stored Message.toJson

/-- A chain as text. -/
def toText (chain : Chain) : String := (chain.stored Message.toWritten).pretty

/-- The fields of a stored chain, in order. -/
def storedFields : List String :=
  ["rawText", "ast", "scope", "didStart", "completed", "adapterType", "compilerOptions", "globalConfig",
    "globalMessages", "wasLastStepIsolated"]

/-- Reads a stored chain but for its format, of which it gives the name. -/
def read? (j : Json) : Option (Chain × String) := do
  let fields ← j.record? storedFields
  let flag := fun (name : String) (usual : Bool) => (Json.given? name Json.bool? fields).map (·.getD usual)
  let format ← Json.need? "adapterType" Json.str? fields
  let chain : Chain :=
    { source := ← Json.need? "rawText" Json.str? fields
      document := ← Json.need? "ast" Document.ofJson? fields
      scope := ← Json.need? "scope" Scope.ofStored? fields
      started := ← flag "didStart" true
      completed := ← flag "completed" false
      options := (← Json.given? "compilerOptions" Options.ofJson? fields).getD {}
      config := ← Json.allow? "globalConfig" Json.obj? fields
      history := (← Json.given? "globalMessages" (Json.list? Message.ofJson?) fields).getD []
      isolated := ← flag "wasLastStepIsolated" false
      format := .canonical }
  return (chain, format)

/-- The chain that JSON stands for. -/
def ofJson (j : Json) : Except ChainFault Chain :=
  match read? j with
  | none => .error .invalidState
  | some (chain, name) =>
    match Format.ofName? name with
    | some format => .ok { chain with format }
    | none => .error (.unknownFormat name)

end Chain
end PromptScript
