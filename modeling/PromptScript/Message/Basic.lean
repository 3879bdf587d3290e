import PromptScript.Document.Tag
import PromptScript.Value.Coercion

/-! # Messages

The conversation that a document describes: messages with a role, each a list of content items. Both may carry
attributes of the caller's own. -/
namespace PromptScript

/-- Named values in the order of first mention. -/
abbrev Attributes := List (String × Value)

/-- The place of an interpolated value in a text, in characters. -/
structure SourceRef where
  start : Nat
  stop : Nat
  /-- The variable, if the value is that of a variable. -/
  identifier : Option String
  deriving DecidableEq, Repr, Inhabited

inductive Content where
  | text (text : String) (sources : Option (List SourceRef)) (attributes : Attributes)
  | image (image : String) (attributes : Attributes)
  | file (file mimeType : String) (attributes : Attributes)
  /-- A tool that the assistant asks for. -/
  | toolCall (id name : String) (arguments : Value) (attributes : Attributes)
  /-- What a tool answered, and whether it failed. -/
  | toolResult (id name : String) (result : Value) (failed : Option Bool) (attributes : Attributes)
  deriving Inhabited, Repr

structure Message where
  role : Role
  content : List Content
  attributes : Attributes
  deriving Inhabited, Repr

namespace Content

/-- A text without anything else. -/
def plain (s : String) : Content := text s none []

/-- The text of a text item. -/
def text? : Content → Option String
  | text s _ _ => some s
  | _ => none

/-- Whether the item asks for a tool. -/
def isToolCall : Content → Bool
  | toolCall _ _ _ _ => true
  | _ => false

/-- The kind of the item as it is written. -/
def kindName : Content → String
  | text _ _ _ => "text"
  | image _ _ => "image"
  | file _ _ _ => "file"
  | toolCall _ _ _ _ => "tool-call"
  | toolResult _ _ _ _ _ => "tool-result"

end Content

/-- The texts of the text items, one after the other. -/
def Content.joinedText (items : List Content) : String := String.join (items.filterMap Content.text?)

/-- The texts of a message, one after the other. -/
def Message.text (m : Message) : String := Content.joinedText m.content

end PromptScript
