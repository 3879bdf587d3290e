import PromptScript.Grammar.Template
import PromptScript.Pass.Walk
import PromptScript.Provider.Conversion

/-! # Chains

A conversation over one document, step by step. Each step is a pass over the document; all but the first need the
response to the messages of the step before. The chain keeps the history, of which isolated steps are no part. A
step that fails leaves the chain as it was. -/
namespace PromptScript

/-- What a model answered. -/
inductive Response where
  | text (s : String)
  /-- One message in the format of the provider. -/
  | message (j : Json)
  | messages (js : List Json)
  deriving Inhabited, Repr

/-- Why a step cannot be made, or a chain not be restored. -/
inductive ChainFault where
  | alreadyCompleted
  | responseBeforeStart
  | responseRequired
  /-- The response is no message. -/
  | invalidResponse
  /-- The stored form is not one of a chain. -/
  | invalidState
  | unknownFormat (name : String)
  | provider (fault : ProviderFault)
  | document (diagnostic : Diagnostic)
  deriving DecidableEq, Repr, Inhabited

structure Chain where
  source : String
  document : Document
  scope : Scope
  options : Options
  format : Format
  /-- The first step has been made. -/
  started : Bool
  /-- No further step is needed. -/
  completed : Bool
  /-- The header of the document, once it has been met. -/
  config : Option Config
  history : List Message
  /-- The last step was isolated. -/
  isolated : Bool
  deriving Inhabited, Repr

/-- What a step gives. -/
structure StepResult where
  /-- The messages to send, in the format of the provider. -/
  messages : List Json
  /-- The header of the document with the settings of the step. -/
  config : Config
  completed : Bool
  deriving Inhabited, Repr

/-- The message of a fault. -/
def ChainFault.message : ChainFault → String
  | alreadyCompleted => "The chain has already completed"
  | responseBeforeStart => "A response is not allowed before the chain has started"
  | responseRequired => "A response is required to continue the chain"
  | invalidResponse => "Invalid step response: expected a string, a message or a list of messages"
  | invalidState => "Invalid serialized chain data: not of the expected shape"
  | unknownFormat name => s!"Adapter not found: {name}"
  | provider fault => fault.message
  | document diagnostic => diagnostic.defect.message

/-- A response given as JSON. -/
def Response.ofJson : Json → Response
  | .str s => text s
  | .arr js => messages js
  | j => message j

namespace Chain

variable {σ : Type}

/-- A chain at its start. Only messages in the canonical form carry the places of values. -/
def start (source : String) (parameters : List (String × Value)) (format : Format) (options : Options) :
    Except ChainFault Chain :=
  match Document.parse source.toList with
  | .error diagnostic => .error (.document diagnostic)
  | .ok document => .ok
      { source, document, scope := Scope.ofList parameters
        options := { options with sourceMap := options.sourceMap && format = .canonical }
        format, started := false, completed := false, config := none, history := [], isolated := false }

/-- A response as part of the conversation: the messages it adds to the history, and the content that the step is
answered with. -/
structure Answer where
  messages : List Message
  content : List Content

/-- The messages of a format that JSON stands for. -/
def decoded (chain : Chain) (js : List Json) : Except ChainFault (List Message) :=
  (chain.format.decodeMessages js).mapError .provider

/-- A message of an object that may leave out its role. -/
def withRole (fields : List (String × Json)) : Json :=
  .obj (if Fields.has "role" fields then fields else fields ++ [("role", .str Role.assistant.name)])

/-- Reads a response. A text or a single message counts as the assistant's. -/
def answerOf (chain : Chain) : Response → Except ChainFault Answer
  | .text s =>
    let content := [Content.plain s]
    .ok ⟨[⟨.assistant, content, []⟩], content⟩
  | .messages js => do
    let ms ← chain.decoded js
    return ⟨ms, ms.flatMap Message.content⟩
  | .message (.obj fields) => do
    let content := match ← chain.decoded [withRole fields] with
      | m :: _ => m.content
      | [] => []
    return ⟨[⟨.assistant, content, []⟩], content⟩
  | .message _ => .error .invalidResponse

/-- Reads a response, if there is one. -/
def answer? (chain : Chain) : Option Response → Except ChainFault (Option Answer)
  | none => .ok none
  | some r => (chain.answerOf r).map some

/-- Whether settings make a step isolated. -/
def isIsolated (config : Config) : Bool :=
  ((Fields.get? "isolated" config).map fun j => (Value.ofJson j).isTruthy).getD false

/-- Whether a step can be made with or without a response. -/
def checkTurn (chain : Chain) (response : Option Response) : Except ChainFault Unit :=
  if chain.completed then .error .alreadyCompleted
  else match chain.started, response.isSome with
    | false, true => .error .responseBeforeStart
    | true, false => .error .responseRequired
    | _, _ => .ok ()

/-- The chain after a pass, and what the step gives. -/
def advance (chain : Chain) (answer : Option Answer) (outcome : Outcome) :
    Except ChainFault (Chain × StepResult) := do
  let global := outcome.globalConfig.or chain.config
  let config := Fields.merge (global.getD []) (outcome.stepConfig.getD [])
  let isolated := isIsolated config
  let answered := if chain.isolated then [] else (answer.map Answer.messages).getD []
  let history := chain.history ++ answered
  let sent := if isolated then outcome.messages else history ++ outcome.messages
  let exchange ← (chain.format.encode ⟨config, sent⟩).mapError ChainFault.provider
  let completed := outcome.completed && outcome.messages.isEmpty
  let next := { chain with
    document := outcome.document, scope := ⟨outcome.stash, chain.scope.pointers⟩, started := true, completed
    config := global, history := if isolated then history else history ++ outcome.messages, isolated }
  return (next, ⟨exchange.messages, exchange.config, completed⟩)

/-- Makes a step. The world keeps what evaluations have changed in it, even if the step fails. -/
def step (eval : Evaluator σ) (chain : Chain) (response : Option Response) (world : World σ) :
    Except ChainFault (Chain × StepResult) × World σ :=
  match chain.checkTurn response >>= fun _ => chain.answer? response with
  | .error fault => (.error fault, world)
  | .ok answer =>
    match chain.document.pass eval chain.options (answer.map Answer.content) ⟨world, chain.scope⟩ with
    | (.error fault, m) => (.error (.document (Diagnostic.of chain.source.toList fault)), m.toWorld)
    | (.ok outcome, m) => (chain.advance answer outcome, m.toWorld)

/-- The first step of a document. -/
def render (eval : Evaluator σ) (source : String) (parameters : List (String × Value)) (format : Format)
    (options : Options) (world : World σ) : Except ChainFault StepResult × World σ :=
  match start source parameters format options with
  | .error fault => (.error fault, world)
  | .ok chain =>
    let (result, world) := chain.step eval none world
    (result.map Prod.snd, world)

end Chain
end PromptScript
