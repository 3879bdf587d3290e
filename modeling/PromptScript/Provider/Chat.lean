import PromptScript.Json.Reader
import PromptScript.Json.Record
import PromptScript.Message.Decoding
import PromptScript.Message.Encoding
import PromptScript.Provider.Basic

/-! # Chat completions

The message format of chat completions. Text stands alone or as one of several parts, an assistant's requests for
tools stand beside its content with their arguments as JSON text, and the answer of a tool is one string. -/
namespace PromptScript.Chat

/-- A part of the content of a message. -/
inductive Part where
  | text (text : String) (extra : Attributes)
  | image (image : String) (extra : Attributes)
  | audio (data format : String) (extra : Attributes)
  deriving Inhabited, Repr

/-- The content of a message. -/
inductive Body where
  | text (text : String)
  | parts (parts : List Part)
  deriving Inhabited, Repr

/-- A request for a tool; the arguments are JSON text. -/
structure Call where
  id : String
  kind : String
  name : String
  arguments : String
  deriving DecidableEq, Repr, Inhabited

/-- A message. What a message holds beyond its own fields is kept in `extra`. -/
inductive Entry where
  /-- A message of the system, the developer or the user. -/
  | spoken (role : Role) (body : Body) (extra : Attributes)
  | assistant (body : Option Body) (calls : List Call) (extra : Attributes)
  | tool (callId : String) (body : Body) (extra : Attributes)
  deriving Inhabited, Repr

/-! ## Writing -/

namespace Part

def toJson : Part → Json
  | text s extra => .obj (Fields.ofList ([("type", .str "text"), ("text", .str s)] ++ extra.toJson))
  | image url extra => .obj (Fields.ofList ([("type", .str "image"), ("image", .str url)] ++ extra.toJson))
  | audio data format extra => .obj (Fields.ofList
      ([("type", .str "input_audio"), ("data", .str data), ("format", .str format)] ++ extra.toJson))

end Part

def Body.toJson : Body → Json
  | text s => .str s
  | parts ps => .arr (ps.map Part.toJson)

def Call.toJson (c : Call) : Json :=
  .obj [("id", .str c.id), ("type", .str c.kind),
    ("function", .obj [("name", .str c.name), ("arguments", .str c.arguments)])]

def Entry.toJson : Entry → Json
  | spoken role body extra =>
    .obj (Fields.ofList ([("role", .str role.name), ("content", body.toJson)] ++ extra.toJson))
  | assistant body calls extra =>
    .obj (Fields.ofList ([("role", .str Role.assistant.name), ("content", (body.map Body.toJson).getD .null)] ++
      (if calls = [] then [] else [("tool_calls", .arr (calls.map Call.toJson))]) ++ extra.toJson))
  | tool id body extra =>
    .obj (Fields.ofList ([("role", .str Role.tool.name), ("tool_call_id", .str id), ("content", body.toJson)] ++
      extra.toJson))

/-! ## Reading -/

namespace Part

/-- The kinds of parts; a kind may also be given by its number in this list. -/
def kinds : List String := ["text", "image", "input_audio"]

/-- The kind that a part names. -/
def kind? : Json → Option String
  | .str s => some s
  | j => j.index?.bind fun n => kinds[n]?

def ofJson? (j : Json) : Option Part := do
  let fields ← j.obj?
  let kind ← Json.need? "type" kind? fields
  let text? := fun (name : String) => Json.need? name Json.str? fields
  let rest := fun (own : List String) => Attributes.ofJson ("type" :: own) fields
  match kind with
  | "text" => return text (← text? "text") (rest ["text"])
  | "image" => return image (← text? "image") (rest ["image"])
  | "input_audio" => return audio (← text? "data") (← text? "format") (rest ["data", "format"])
  | _ => none

end Part

def Body.ofJson? : Json → Option Body
  | .str s => some (text s)
  | j => (Json.list? Part.ofJson? j).map parts

def Call.ofJson? (j : Json) : Option Call := do
  let fields ← j.record? ["id", "type", "function"]
  let function ← (← Fields.get? "function" fields).record? ["name", "arguments"]
  return ⟨← Json.need? "id" Json.str? fields, ← Json.need? "type" Json.str? fields,
    ← Json.need? "name" Json.str? function, ← Json.need? "arguments" Json.str? function⟩

def Entry.ofJson? (j : Json) : Option Entry := do
  let fields ← j.obj?
  let role ← Role.ofName? (← Json.need? "role" Json.str? fields)
  let rest := fun (own : List String) => Attributes.ofJson ("role" :: own) fields
  match role with
  | .assistant =>
    return assistant (← Json.allow? "content" Body.ofJson? fields)
      ((← Json.given? "tool_calls" (Json.list? Call.ofJson?) fields).getD []) (rest ["content", "tool_calls"])
  | .tool =>
    return tool (← Json.need? "tool_call_id" Json.str? fields) (← Json.need? "content" Body.ofJson? fields)
      (rest ["tool_call_id", "content"])
  | role => return spoken role (← Json.need? "content" Body.ofJson? fields) (rest ["content"])

/-! ## Messages as entries -/

/-- The part of a text item. -/
def textPart? : Content → Option Part
  | .text s _ attributes => some (.text s attributes)
  | _ => none

/-- The part of a file: audio in one of two formats, or else its address as text. -/
def filePart (file mimeType : String) (attributes : Attributes) : Part :=
  if mimeType = "audio/mpeg" then .audio file "mpeg" attributes
  else if mimeType = "audio/wav" then .audio file "wav" attributes
  else .text file attributes

/-- The part of an item of a user's message. -/
def userPart? : Content → Option Part
  | .text s _ attributes => some (.text s attributes)
  | .image url attributes => some (.image url attributes)
  | .file file mimeType attributes => some (filePart file mimeType attributes)
  | _ => none

/-- The parts of all items, given how one becomes a part. -/
def partsOf (role : Role) (part? : Content → Option Part) (content : List Content) :
    Except ProviderFault (List Part) :=
  content.mapM fun item => match part? item with
    | some part => .ok part
    | none => .error (.unsupportedContent role item.kindName)

/-- The text alone where there is one part and no other. -/
def soleText : List Part → Body
  | [.text s _] => .text s
  | ps => .parts ps

/-- The request of a tool call. -/
def callOf? : Content → Option Call
  | .toolCall id name arguments _ => some ⟨id, "function", name, arguments.toJson.toText⟩
  | _ => none

/-- The text of a text part in the answer of a tool. -/
def resultText? : Value → Option String
  | .object fields => do
    let kind ← (Fields.get? "type" fields).bind Value.string?
    if kind = "text" then some (((Fields.get? "text" fields).map Value.toText).getD "") else none
  | _ => none

/-- The answer of a tool as one string: the texts in it one after the other, or else its JSON. -/
def resultText (result : Value) : String :=
  match result with
  | .string s => s
  | .array items =>
    match items.filterMap resultText? with
    | [] => result.toJson.toText
    | texts => String.join texts
  | v => v.toJson.toText

/-- The first answer of a tool among items: the call and the answer. -/
def firstResult? : List Content → Option (String × Value)
  | [] => none
  | .toolResult id _ result _ _ :: _ => some (id, result)
  | _ :: r => firstResult? r

/-- A message as an entry. -/
def Entry.ofMessage (m : Message) : Except ProviderFault Entry :=
  match m.role with
  | .user => do return spoken .user (.parts (← partsOf .user userPart? m.content)) m.attributes
  | .assistant => do
    let spoken := m.content.filter fun item => !item.isToolCall
    let parts ← partsOf .assistant textPart? spoken
    return assistant (some (.parts parts)) (m.content.filterMap callOf?) m.attributes
  | .tool =>
    match firstResult? m.content with
    | some (id, result) => .ok (tool id (.text (resultText result)) m.attributes)
    | none => .error .missingToolResult
  | role => do return spoken role (soleText (← partsOf role textPart? m.content)) m.attributes

/-! ## Entries as messages -/

def Part.toContent : Part → Content
  | text s extra => .text s none extra
  | image url extra => .image url extra
  | audio data format extra => .file data ("audio/" ++ format) extra

def Body.toContent : Body → List Content
  | text s => [Content.plain s]
  | parts ps => ps.map Part.toContent

/-- A request as an item; its arguments have to be JSON. -/
def Call.toContent? (c : Call) : Option Content :=
  (Json.parse? c.arguments).map fun j => .toolCall c.id c.name (Value.ofJson j) []

/-- The value of a tool's answer. -/
def Body.toResult : Body → Value
  | text s => .string s
  | parts ps => Value.ofJson (.arr (ps.map fun part => part.toContent.toJson))

/-- An entry as a message. `tools` holds the names of the tools asked for so far, by the identifiers of the
requests. -/
def Entry.toMessage (tools : List (String × String)) :
    Entry → Except ProviderFault (Message × List (String × String))
  | spoken role body extra => .ok (⟨role, body.toContent, extra⟩, tools)
  | assistant body calls extra =>
    match calls.mapM Call.toContent? with
    | some items =>
      .ok (⟨.assistant, ((body.map Body.toContent).getD []) ++ items, extra⟩,
        Fields.merge tools (calls.map fun c => (c.id, c.name)))
    | none => .error .invalidMessage
  | tool id body extra =>
    let name := (Fields.get? id tools).getD ""
    .ok (⟨.tool, [.toolResult id name body.toResult none []], extra⟩, tools)

/-- Reads messages in order. -/
def messagesOf (tools : List (String × String)) : List Json → Except ProviderFault (List Message)
  | [] => .ok []
  | j :: r => do
    match Entry.ofJson? j with
    | none => .error .invalidMessage
    | some entry =>
      let (m, tools) ← entry.toMessage tools
      return m :: (← messagesOf tools r)

end PromptScript.Chat
