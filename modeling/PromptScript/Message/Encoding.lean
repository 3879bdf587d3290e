import PromptScript.Json.Record
import PromptScript.Message.Basic

/-! # Messages as JSON

The fields of a message or content item, then its attributes. In a value, an attribute with the name of a field
takes its place; in written text both stand, one after the other. -/
namespace PromptScript

/-- Attributes as JSON. -/
def Attributes.toJson (attributes : Attributes) : List (String × Json) :=
  attributes.map fun (name, v) => (name, v.toJson)

def SourceRef.toJson (r : SourceRef) : Json :=
  .obj (Json.present [("start", some (.int r.start)), ("end", some (.int r.stop)), ("identifier", r.identifier.map .str)])

namespace Content

/-- The fields of an item, without its attributes. -/
def ownFields : Content → List (String × Json)
  | text s sources _ =>
    Json.present [("text", some (.str s)), ("_promptlSourceMap", sources.map fun refs => .arr (refs.map SourceRef.toJson))]
  | image url _ => [("image", .str url)]
  | file url mimeType _ => [("file", .str url), ("mimeType", .str mimeType)]
  | toolCall id name arguments _ =>
    [("toolCallId", .str id), ("toolName", .str name), ("toolArguments", arguments.toJson)]
  | toolResult id name result failed _ =>
    Json.present [("toolCallId", some (.str id)), ("toolName", some (.str name)), ("result", some result.toJson),
      ("isError", failed.map .bool)]

/-- The attributes of an item. -/
def attributes : Content → Attributes
  | text _ _ a => a
  | image _ a => a
  | file _ _ a => a
  | toolCall _ _ _ a => a
  | toolResult _ _ _ _ a => a

/-- All that an item has to say, in order. -/
def entries (c : Content) : List (String × Json) :=
  ("type", .str c.kindName) :: (c.ownFields ++ c.attributes.toJson)

/-- An item as JSON. -/
def toJson (c : Content) : Json := .obj (Fields.ofList c.entries)

end Content

namespace Message

/-- All that a message has to say, in order, given how its items are written. -/
def entries (item : Content → Json) (m : Message) : List (String × Json) :=
  [("role", Json.str m.role.name), ("content", .arr (m.content.map item))] ++ m.attributes.toJson

/-- A message as JSON. -/
def toJson (m : Message) : Json := .obj (Fields.ofList (m.entries Content.toJson))

/-- A message as it is written out: attributes with the names of fields are not left out. -/
def toWritten (m : Message) : Json := .obj (m.entries fun c => .obj c.entries)

end Message
end PromptScript
