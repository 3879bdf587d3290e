import PromptScript.Provider.Chat

/-! # Conversations in the format of a provider -/
namespace PromptScript.Format

/-- A message in a format. -/
def encodeMessage (f : Format) (m : Message) : Except ProviderFault Json :=
  match f with
  | canonical => .ok m.toJson
  | chat => (Chat.Entry.ofMessage m).map Chat.Entry.toJson

/-- A conversation in a format; the settings pass unchanged. -/
def encode (f : Format) (c : Conversation) : Except ProviderFault Exchange := do
  return ⟨c.config, ← c.messages.mapM f.encodeMessage⟩

/-- The messages that JSON in a format stands for. -/
def decodeMessages (f : Format) (messages : List Json) : Except ProviderFault (List Message) :=
  match f with
  | canonical => messages.mapM fun j => match Message.ofJson? j with
    | some m => .ok m
    | none => .error .invalidMessage
  | chat => Chat.messagesOf [] messages

/-- The conversation that an exchange stands for. -/
def decode (f : Format) (e : Exchange) : Except ProviderFault Conversation := do
  return ⟨e.config, ← f.decodeMessages e.messages⟩

end PromptScript.Format
