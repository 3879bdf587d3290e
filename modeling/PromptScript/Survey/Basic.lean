import PromptScript.Config
import PromptScript.Digest.Blake3
import PromptScript.Document.Closure
import PromptScript.Survey.Splicing

/-! # Surveys

A survey reads a document without evaluating it: which parameters it reads, what is wrong with it, and its text
with comments left out and the documents it refers to put in. This module holds what a survey gathers. -/
namespace PromptScript

/-- A document as text, and the path it is known by. -/
structure Source where
  path : String
  content : String
  deriving DecidableEq, Repr, Inhabited

/-- Finds the document that a path names as seen from another; it may be missing, and finding it may fail. -/
abbrev Loader := String → String → Except String (Option Source)

/-- What the caller asks of a survey. -/
structure SurveyOptions where
  loader : Option Loader := none
  /-- The only names that may be read undeclared, if there is such a list. -/
  parameters : Option (List String) := none
  /-- The caller's own check of the header: the reason why it refuses it. -/
  check : Option (Config → Option String) := none
  /-- Whether the document needs a header. -/
  requiresConfig : Bool := false

structure SurveyState where
  source : Source
  config : Option Config
  configSpan : Option Span
  resolved : Splicing
  /-- Content has been met. -/
  hasContent : Bool
  /-- How many steps have been met. -/
  steps : Nat
  /-- Requests for tools whose message is not known yet. -/
  calls : List Span
  faults : List Fault
  /-- The references that have been followed from each document on the way to this one. -/
  followed : List (String × List String)
  /-- The hashes of the documents put in. -/
  hashes : List String
  /-- The paths of this document and of those put in. -/
  paths : Names

/-- A part of a survey. -/
abbrev Survey := StateM SurveyState

namespace SurveyState

/-- Before a document is read. -/
def start (source : Source) : SurveyState :=
  { source, config := none, configSpan := none, resolved := Splicing.start source.content.toList
    hasContent := false, steps := 0, calls := [], faults := [], followed := [], hashes := []
    paths := [source.path] }

/-- The hash of a document and of all documents put into it. -/
def hash (s : SurveyState) : String := Blake3.hashText (s.source.content ++ String.join s.hashes)

end SurveyState

namespace Survey

/-- Records a defect. -/
def report (defect : Defect) (span : Span) : Survey Unit :=
  modify fun s => { s with faults := s.faults ++ [⟨defect, span⟩] }

/-- Records that there is content. -/
def markContent : Survey Unit := modify fun s => { s with hasContent := true }

/-- Replaces a span of the text. -/
def splice (span : Span) (new : List Char) : Survey Unit :=
  modify fun s => { s with resolved := s.resolved.replace span new }

/-- The reads and declarations of an expression. -/
def track (e : Expr) (u : Usage) : Survey Usage := do
  let (u, faults) := e.analyze (u, [])
  modify fun s => { s with faults := s.faults ++ faults }
  return u

/-- Reports all requests for tools that wait for their message. -/
def reportCalls : Survey Unit := do
  let s ← get
  set { s with calls := [], faults := s.faults ++ s.calls.map (Fault.mk .invalidToolCallPlacement) }

/-- Forgets the requests for tools that wait for their message. -/
def dropCalls : Survey Unit := modify fun s => { s with calls := [] }

/-- Tracks the interpolations of a value. -/
def trackParts : List Node → Usage → Survey Usage
  | [], u => return u
  | .interpolation _ e _ :: r, u => do trackParts r (← track e u)
  | _ :: r, u => trackParts r u

/-- The span of the first interpolation of a value. -/
def firstInterpolation? : List Node → Option Span
  | [] => none
  | .interpolation span _ _ :: _ => some span
  | _ :: r => firstInterpolation? r

/-- The names of attributes. Those in `static` have to be written out. -/
def attributeNames (static : List String) : List Attribute → Names → Usage → Survey (Names × Usage)
  | [], names, u => return (names, u)
  | .mk _ name .flag :: r, names, u => attributeNames static r (Names.insert name names) u
  | .mk _ name (.nodes parts) :: r, names, u => do
    match if static.contains name then firstInterpolation? parts else none with
    | some span =>
      report (.invalidStaticAttribute name) span
      attributeNames static r names u
    | none => attributeNames static r (Names.insert name names) (← trackParts parts u)

/-- The settings of a header; those that cannot be read are none. -/
def settings (span : Span) (data : String) : Survey Config := do
  match Config.ofHeader data with
  | .ok config => return config
  | .error cause =>
    report (.invalidConfig cause) span
    return []

/-- The caller's own check of the settings. -/
def checkSettings (check : Option (Config → Option String)) (span : Span) (config : Config) : Survey Unit :=
  match check.bind fun check => check config with
  | some reason => report (.invalidConfig (.rejected reason)) span
  | none => return ()

/-- A header. -/
def header (check : Option (Config → Option String)) (atRoot : Bool) (span : Span) (data : String) :
    Survey Unit := do
  splice span []
  let s ← get
  if s.config.isSome then report .configAlreadyDeclared span
  if !atRoot then report .configOutsideRoot span
  if s.hasContent then report .invalidConfigPlacement span
  let config ← settings span data
  checkSettings check span config
  modify fun s => { s with configSpan := some span, config := some config }

end Survey
end PromptScript
