import PromptScript.Document.Mentions
import PromptScript.Grammar.Template
import PromptScript.Survey.Walk

/-! # References

A reference is replaced by the text of the document it names, as a closed part with the other attributes of the
reference. References in that document are followed too, up to a depth, and not in a circle. -/
namespace PromptScript.Survey

/-- How deep documents may be put into each other. -/
def referenceLimit : Nat := 51

/-- What a reference to a document of its own amounts to: the names it reads, and its survey. -/
structure Inclusion where
  used : Names
  state : SurveyState

/-- Surveys a document that is put into another, where the requests for tools, and the references followed so
far, are given. -/
abbrev Include := Source → List Span → List (String × List String) → Inclusion

/-- A defect of a document as one of the reference to it. -/
def inReference : Defect → Defect
  | .inReference d => .inReference d
  | .referenceFailed reason => .referenceFailed reason
  | .circularReference => .circularReference
  | d => .inReference d

/-- Puts a document into this one. Gives its text, or `none` if there is no such document. -/
def include? (loader : Loader) (including : Include) (span : Span) (path : String) (given : Names) :
    Survey (Option (List Char)) := do
  let s ← get
  let here := s.source.path
  let followed := (Fields.get? here s.followed).getD []
  if followed.contains path then
    report .circularReference span
    return none
  else match loader path here with
    | .error reason =>
      report (.referenceFailed reason) span
      return none
    | .ok none =>
      report .referenceNotFound span
      return none
    | .ok (some source) =>
      -- The other document takes over the open requests for tools, and gives back those still open.
      let i := including source s.calls (Fields.set here (followed ++ [path]) s.followed)
      modify fun s => { s with paths := s.paths.union i.state.paths }
      reportMissing i.used given span
      i.state.faults.forM fun fault => report (inReference fault.defect) span
      modify fun s => { s with calls := i.state.calls, hashes := s.hashes ++ [i.state.hash] }
      return some i.state.resolved.text

/-- The text that stands for a reference: a closed part with the given attributes. -/
def closedText (attributes : List (List Char)) (body : List Char) : List Char :=
  let name := Tag.scope.name.toList
  '<' :: (name ++ attributes.flatMap (' ' :: ·) ++ '>' :: (body ++ '<' :: '/' :: (name ++ ['>'])))

/-- Replaces a reference. Where no document can be put in, the reference stays. -/
def replaceReference (loader : Loader) (including : Include) (span : Span) (attributes : List Attribute)
    (path : String) (given : Names) : Survey Unit := do
  let old := (← get).resolved.slice span
  let new ← include? loader including span path given
  let resolved := (← get).resolved
  let passed := (attributes.filter (·.name != "path")).map fun a => resolved.slice a.span
  splice span (closedText passed (new.getD old))

/-- What is done at a reference. Without `including` the limit of depth is reached. -/
def follow (loader : Option Loader) (including : Option Include) : Follow := fun span attributes body u => do
  if !body.isEmpty then
    report .referenceTagHasContent span
    return u
  let (names, u) ← attributeNames ["path"] attributes [] u
  if !names.contains "path" then
    report .referenceTagWithoutPath span
    return u
  match loader, including, mentioned? attributes with
  | none, _, _ => report .missingReferenceFunction span
  | _, none, _ => report .referenceDepthLimit span
  | some _, some _, none => pure ()
  | some loader, some including, some path => replaceReference loader including span attributes path names
  return u

/-- Reads the document of a source. What cannot be parsed is an empty document with a fault. -/
def parsed (source : Source) : Document × List Fault :=
  match Document.parse source.content.toList with
  | .ok d => (d, [])
  | .error diagnostic => (default, [⟨diagnostic.defect, diagnostic.span⟩])

/-- Surveys documents that are put into others, up to a depth. -/
def including (loader : Option Loader) : Nat → Option Include
  | 0 => none
  | n + 1 => some fun source calls followed =>
    let (d, faults) := parsed source
    let start := { SurveyState.start source with calls, followed, faults }
    let (u, state) := (walkAll none (follow loader (including loader n)) { atRoot := true } d.body
      (Usage.start none)).run start
    ⟨u.used, state⟩

end PromptScript.Survey
