import PromptScript.Json.Record
import PromptScript.Message.Basic

/-! # Messages from JSON

Reading messages is strict about their own fields; whatever else an object holds becomes an attribute. -/
namespace PromptScript

/-- The fields that are none of `own`, as attributes. -/
def Attributes.ofJson (own : List String) (fields : List (String × Json)) : Attributes :=
  (fields.filter fun (name, _) => !own.contains name).map fun (name, j) => (name, Value.ofJson j)

/-- A role by its name. -/
def Role.ofJson? : Json → Option Role
  | .str s => ofName? s
  | .obj [(s, .null)] => ofName? s
  | _ => none

def SourceRef.ofJson? (j : Json) : Option SourceRef := do
  let fields ← j.record? ["start", "end", "identifier"]
  return ⟨← Json.need? "start" Json.index? fields, ← Json.need? "end" Json.index? fields,
    ← Json.allow? "identifier" Json.str? fields⟩

namespace Content

/-- Reads an item of a given kind from its other fields. -/
def ofFields? (kind : String) (fields : List (String × Json)) : Option Content := do
  let rest := fun (own : List String) => Attributes.ofJson own fields
  match kind with
  | "text" =>
    return text (← Json.need? "text" Json.str? fields)
      (← Json.allow? "_promptlSourceMap" (Json.list? SourceRef.ofJson?) fields) (rest ["text", "_promptlSourceMap"])
  | "image" => return image (← Json.need? "image" Json.str? fields) (rest ["image"])
  | "file" =>
    return file (← Json.need? "file" Json.str? fields) (← Json.need? "mimeType" Json.str? fields)
      (rest ["file", "mimeType"])
  | "tool-call" =>
    return toolCall (← Json.need? "toolCallId" Json.str? fields) (← Json.need? "toolName" Json.str? fields)
      (((Fields.get? "toolArguments" fields).map Value.ofJson).getD (.object []))
      (rest ["toolCallId", "toolName", "toolArguments"])
  | "tool-result" =>
    return toolResult (← Json.need? "toolCallId" Json.str? fields) (← Json.need? "toolName" Json.str? fields)
      (Value.ofJson (← Fields.get? "result" fields)) (← Json.allow? "isError" Json.bool? fields)
      (rest ["toolCallId", "toolName", "result", "isError"])
  | _ => none

/-- Reads an item. -/
def ofJson? (j : Json) : Option Content := do
  let fields ← j.obj?
  let kind ← Json.need? "type" Json.str? fields
  ofFields? kind (Fields.erase "type" fields)

end Content

/-- Reads a message. -/
def Message.ofJson? (j : Json) : Option Message := do
  let fields ← j.obj?
  return ⟨← Json.need? "role" Role.ofJson? fields, ← Json.need? "content" (Json.list? Content.ofJson?) fields,
    Attributes.ofJson ["role", "content"] fields⟩

end PromptScript
