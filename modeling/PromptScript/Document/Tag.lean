/-! # Tags

The roles of messages, the kinds of content, and the tags that documents may use. Any other `<name>` in a
document is text. -/
namespace PromptScript

/-- Who speaks in a message. -/
inductive Role where
  | system | developer | user | assistant | tool
  deriving DecidableEq, Repr, Inhabited

namespace Role

def name : Role → String
  | system => "system"
  | developer => "developer"
  | user => "user"
  | assistant => "assistant"
  | tool => "tool"

def all : List Role := [system, developer, user, assistant, tool]

/-- The role with a given name. -/
def ofName? (s : String) : Option Role := all.find? (·.name == s)

theorem ofName?_name (role : Role) : ofName? role.name = some role := by cases role <;> rfl

end Role

/-- What a content tag holds. -/
inductive ContentKind where
  | text | image | file | toolCall
  deriving DecidableEq, Repr, Inhabited

namespace ContentKind

/-- The name of the kind in a `type` attribute. -/
def name : ContentKind → String
  | text => "text"
  | image => "image"
  | file => "file"
  | toolCall => "tool-call"

def all : List ContentKind := [text, image, file, toolCall]

/-- The kind with a given name. -/
def ofName? (s : String) : Option ContentKind := all.find? (·.name == s)

theorem ofName?_name (kind : ContentKind) : ofName? kind.name = some kind := by cases kind <;> rfl

end ContentKind

inductive Tag where
  /-- A message; without a role of its own, an attribute gives the role. -/
  | message (role : Option Role)
  /-- A content item; without a kind of its own, an attribute gives the kind. -/
  | content (kind : Option ContentKind)
  /-- A reference to another document. -/
  | reference
  /-- A part with variables of its own. -/
  | scope
  /-- A place where the conversation waits for a response. -/
  | step
  deriving DecidableEq, Repr, Inhabited

namespace Tag

/-- The tag as written. -/
def name : Tag → String
  | message none => "message"
  | message (some role) => role.name
  | content none => "content"
  | content (some .text) => "content-text"
  | content (some .image) => "content-image"
  | content (some .file) => "content-file"
  | content (some .toolCall) => "tool-call"
  | reference => "prompt"
  | scope => "scope"
  | step => "step"

/-- Every tag; of two names one of which starts with the other, the longer comes first. -/
def all : List Tag :=
  [content (some .image), content (some .text), content (some .file), content (some .toolCall),
    message (some .developer), message (some .assistant), message none, content none,
    message (some .system), reference, scope, message (some .user), message (some .tool), step]

/-- The tag with a given name. -/
def ofName? (s : String) : Option Tag := all.find? (·.name == s)

theorem ofName?_name (tag : Tag) : ofName? tag.name = some tag := by
  rcases tag with (_ | role) | (_ | kind) | _ | _ | _
  · rfl
  · cases role <;> rfl
  · rfl
  · cases kind <;> rfl
  · rfl
  · rfl
  · rfl

end Tag
end PromptScript
