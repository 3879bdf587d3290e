import PromptScript.Text.Frame

/-! # Defects

What can be wrong with a document, each cause with its code and its message; the place of a defect in the
source is shown by a `Diagnostic`. -/
namespace PromptScript

/-- Why the header of a document is refused. -/
inductive ConfigDefect where
  /-- It is not a text of the header's format. -/
  | unreadable
  /-- It is read, but is not a set of fields; the JSON text of what it is instead. -/
  | notMapping (found : String)
  /-- The caller's own check refuses it. -/
  | rejected (reason : String)
  deriving DecidableEq, Repr, Inhabited

inductive Defect where
  | syntaxFault (text : String)
  | unclosedBlock (name : String)
  | unexpectedTagClose (name : String)
  | unexpectedBlockClose (name : String)
  | unexpectedEnd
  | duplicateAttribute (name : String)
  | configAlreadyDeclared
  | configOutsideRoot
  | invalidConfigPlacement
  | invalidConfig (cause : ConfigDefect)
  | missingConfig
  | messageTagInsideMessage
  | contentTagInsideContent
  | messageTagWithoutRole
  | invalidMessageRole (role : String)
  | contentTagWithoutType
  | invalidContentType (name : String)
  | toolMessageWithoutId
  | toolMessageWithoutName
  | toolCallTagWithoutId
  | toolCallWithoutName
  | invalidToolCallArguments
  | invalidToolCallPlacement
  | emptyContentTag
  | fileTagWithoutMimeType
  | multipleFilesInContentTag
  | stepTagInsideStep
  | invalidStaticAttribute (name : String)
  | invalidStepResponseFormat
  | variableNotDeclared (name : String)
  | variableAlreadyDeclared (name : String)
  | propertyNotExists (object property : String)
  | invalidUpdate (value : String)
  | notAFunction (callee : String)
  | functionCallFailed (reason : String)
  | invalidIterable (value : String)
  | unresolvedReference
  | referenceTagHasContent
  | referenceTagWithoutPath
  | missingReferenceFunction
  | referenceDepthLimit
  | circularReference
  | referenceNotFound
  | referenceMissingParameter (name : String)
  /-- The referenced document has a defect of its own. -/
  | inReference (inner : Defect)
  /-- The referenced document could not be loaded. -/
  | referenceFailed (reason : String)
  deriving DecidableEq, Repr, Inhabited

namespace ConfigDefect

/-- What the message of a refused header goes on with. -/
def message : ConfigDefect → String
  | unreadable => "The header cannot be read"
  | notMapping found => s!"Expected a mapping, found {found}"
  | rejected reason => reason

end ConfigDefect

namespace Defect

/-- The short code of a defect. -/
def code : Defect → String
  | syntaxFault _ => "parse-error"
  | unclosedBlock _ => "unclosed-block"
  | unexpectedTagClose _ => "unexpected-tag-close"
  | unexpectedBlockClose _ => "unexpected-block-close"
  | unexpectedEnd => "unexpected-eof"
  | duplicateAttribute _ => "duplicate-attribute"
  | configAlreadyDeclared => "config-already-declared"
  | configOutsideRoot => "config-outside-root"
  | invalidConfigPlacement => "invalid-config-placement"
  | invalidConfig _ => "invalid-config"
  | missingConfig => "missing-config"
  | messageTagInsideMessage => "message-tag-inside-message"
  | contentTagInsideContent => "content-tag-inside-content"
  | messageTagWithoutRole => "message-tag-without-role"
  | invalidMessageRole _ => "invalid-message-role"
  | contentTagWithoutType => "content-tag-without-type"
  | invalidContentType _ => "invalid-content-type"
  | toolMessageWithoutId => "tool-message-without-id"
  | toolMessageWithoutName => "tool-message-without-name"
  | toolCallTagWithoutId => "tool-call-tag-without-id"
  | toolCallWithoutName => "tool-call-without-name"
  | invalidToolCallArguments => "invalid-tool-call-arguments"
  | invalidToolCallPlacement => "invalid-tool-call-placement"
  | emptyContentTag => "empty-content-tag"
  | fileTagWithoutMimeType => "file-tag-without-mime-type"
  | multipleFilesInContentTag => "multiple-files-in-content-tag"
  | stepTagInsideStep => "step-tag-inside-step"
  | invalidStaticAttribute _ => "invalid-static-attribute"
  | invalidStepResponseFormat => "invalid-step-response-format"
  | variableNotDeclared _ => "variable-not-declared"
  | variableAlreadyDeclared _ => "variable-already-declared"
  | propertyNotExists _ _ => "property-not-exists"
  | invalidUpdate _ => "invalid-update"
  | notAFunction _ => "not-a-function"
  | functionCallFailed _ => "function-call-error"
  | invalidIterable _ => "invalid-iterable"
  | unresolvedReference => "unresolved-reference"
  | referenceTagHasContent => "reference-tag-has-content"
  | referenceTagWithoutPath => "reference-tag-without-path"
  | missingReferenceFunction => "missing-reference-function"
  | referenceDepthLimit => "reference-depth-limit"
  | circularReference => "circular-reference"
  | referenceNotFound => "reference-not-found"
  | referenceMissingParameter _ => "reference-missing-parameter"
  | inReference _ => "reference-error"
  | referenceFailed _ => "reference-error"

/-- The message of a defect. -/
def message : Defect → String
  | syntaxFault text => text
  | unclosedBlock name => s!"Unclosed block: '{name}'"
  | unexpectedTagClose name => s!"Unexpected closing tag for '{name}'"
  | unexpectedBlockClose name => s!"Unexpected block close: '{name}'"
  | unexpectedEnd => "Unexpected end of input"
  | duplicateAttribute name => s!"Attributes need to be unique: '{name}'"
  | configAlreadyDeclared => "Config section already declared"
  | configOutsideRoot => "Config must be defined at the root level"
  | invalidConfigPlacement => "Config must be defined before any other content"
  | invalidConfig cause => s!"Invalid config: {cause.message}"
  | missingConfig => "Missing config section"
  | messageTagInsideMessage => "Message tags must be at the root level of the document"
  | contentTagInsideContent => "Content tags must be placed directly inside a message"
  | messageTagWithoutRole => "Message tags must have a 'role' attribute"
  | invalidMessageRole role => s!"Invalid message role: '{role}'"
  | contentTagWithoutType => "Content tags must have a 'type' attribute"
  | invalidContentType name => s!"Invalid content type: '{name}'"
  | toolMessageWithoutId => "Tool messages must have an 'id' attribute"
  | toolMessageWithoutName => "Tool messages must have a 'name' attribute"
  | toolCallTagWithoutId => "Tool call tags must have an 'id' attribute"
  | toolCallWithoutName => "Tool call tags must have a 'name' attribute"
  | invalidToolCallArguments => "Invalid tool call arguments: not a JSON text"
  | invalidToolCallPlacement => "Tool call requests can only appear inside assistant messages"
  | emptyContentTag => "Content tags cannot be empty"
  | fileTagWithoutMimeType => "File tags must have a 'mime' attribute"
  | multipleFilesInContentTag => "A content tag can only contain a single file"
  | stepTagInsideStep => "Step tags cannot be nested"
  | invalidStaticAttribute name => s!"The '{name}' attribute must be a static value"
  | invalidStepResponseFormat => "Invalid step response format: not a JSON text"
  | variableNotDeclared name => s!"Variable '{name}' is not declared"
  | variableAlreadyDeclared name => s!"Variable '{name}' is already declared"
  | propertyNotExists object property => s!"Property '{property}' does not exist on object '{object}'"
  | invalidUpdate value => s!"Cannot update a non-numeric value: {value}"
  | notAFunction callee => s!"'{callee}' is not a function"
  | functionCallFailed reason => s!"Error calling function: {reason}"
  | invalidIterable value => s!"Invalid iterable: '{value}' is not an array"
  | unresolvedReference => "Reference tags must be resolved before compiling"
  | referenceTagHasContent => "Reference tags cannot have content"
  | referenceTagWithoutPath => "Reference tags must have a 'path' attribute"
  | missingReferenceFunction => "A reference function is required to resolve prompt references"
  | referenceDepthLimit => "Reference depth limit exceeded"
  | circularReference => "Circular reference detected"
  | referenceNotFound => "Reference not found"
  | referenceMissingParameter name => s!"Missing parameter '{name}' in reference"
  | inReference inner => s!"Error in reference: {message inner}"
  | referenceFailed reason => s!"Error in reference: {reason}"

end Defect

/-- A defect and the span of the source it concerns. -/
structure Fault where
  defect : Defect
  span : Span
  deriving DecidableEq, Repr, Inhabited

/-- A defect shown in its source: the span between characters of the text, its positions, and a frame. -/
structure Diagnostic where
  defect : Defect
  span : Span
  start : Position
  stop : Position
  frame : String
  deriving DecidableEq, Repr, Inhabited

/-- Shows a defect in a source. Offsets beyond the text or inside a character are moved back to the nearest
place between two characters, and a span that stops before it starts is empty. -/
def Diagnostic.of (source : List Char) (fault : Fault) : Diagnostic :=
  let start := Text.floorOffset source fault.span.start
  let stop := Text.floorOffset source (max fault.span.stop fault.span.start)
  let first := Text.positionAt source start
  let last := Text.positionAt source stop
  ⟨fault.defect, ⟨start, stop⟩, first, last, String.ofList (Text.frame source first last)⟩

end PromptScript
