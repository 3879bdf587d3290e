import PromptScript.Config
import PromptScript.Message.Basic

/-! # Providers

Model providers exchange messages in formats of their own. A conversation in such a format is plain JSON; what a
format cannot carry is a `ProviderFault`. -/
namespace PromptScript

/-- Messages and the settings that apply to them. -/
structure Conversation where
  config : Config
  messages : List Message
  deriving Inhabited, Repr

/-- A conversation in the format of a provider. -/
structure Exchange where
  config : Config
  messages : List Json
  deriving Inhabited, Repr

/-- The known formats. -/
inductive Format where
  /-- Messages as they are. -/
  | canonical
  /-- The messages of chat completions. -/
  | chat
  deriving DecidableEq, Repr, Inhabited

/-- Why a conversation has no form in a format, or a message of a provider cannot be read. -/
inductive ProviderFault where
  | unknownFormat (name : String)
  /-- Messages of this role do not carry content of this kind. -/
  | unsupportedContent (role : Role) (kind : String)
  | missingToolResult
  | invalidMessage
  deriving DecidableEq, Repr, Inhabited

namespace Format

/-- The name of a format. -/
def name : Format → String
  | canonical => "default"
  | chat => "openai"

def all : List Format := [canonical, chat]

/-- The format with a given name. -/
def ofName? (s : String) : Option Format := all.find? (·.name == s)

theorem ofName?_name (f : Format) : ofName? f.name = some f := by cases f <;> rfl

end Format

/-- The message of a fault. -/
def ProviderFault.message : ProviderFault → String
  | unknownFormat name => s!"Adapter not found: {name}"
  | unsupportedContent role kind => s!"Unsupported content type for {role.name} message: {kind}"
  | missingToolResult => "Tool messages must include tool-result content"
  | invalidMessage => "Invalid message: not of the expected shape"

end PromptScript
