import PromptScript.Survey.References
import PromptScript.Yaml.Writer

/-! # Survey reports

What a survey tells the caller, and the change of a document's header. -/
namespace PromptScript

structure Report where
  /-- The names that the document reads undeclared, or may read. -/
  parameters : Names
  /-- The hash of the document and of all documents put into it. -/
  hash : String
  document : Document
  /-- The document without comments, with a header in normal form, and with the documents it refers to. -/
  resolved : String
  config : Config
  diagnostics : List Diagnostic
  /-- There is more than one step. -/
  isChain : Bool
  paths : Names
  source : Source
  configSpan : Option Span

namespace Report

/-- Settings as the header of a document. -/
def headerText (config : Config) : List Char :=
  "---\n".toList ++ Yaml.textOf config ++ "---\n".toList

/-- A text under a header; without settings there is none. -/
def underHeader (config : Config) (text : List Char) : List Char :=
  if config = [] then text else headerText config ++ text

/-- The document with other settings: the header takes the place of the old one, or comes first. -/
def withConfig (r : Report) (config : Config) : String :=
  let text := r.source.content.toList
  let span := r.configSpan.getD ⟨0, 0⟩
  String.ofList (Text.takeBytes span.start text ++ underHeader config (Text.dropBytes span.stop text))

end Report

/-- The report on a document, given what its survey has gathered. -/
def SurveyState.report (s : SurveyState) (document : Document) (u : Usage) : Report where
  parameters := u.used.union (u.allowed.getD [])
  hash := s.hash
  document
  resolved := String.ofList (Report.underHeader (s.config.getD []) s.resolved.text)
  config := s.config.getD []
  diagnostics := s.faults.map (Diagnostic.of s.source.content.toList)
  isChain := 1 < s.steps
  paths := s.paths
  source := s.source
  configSpan := s.configSpan

/-- Visits a whole document. -/
def Survey.visit (options : SurveyOptions) (d : Document) : Survey Usage := do
  let follow := follow options.loader (including options.loader referenceLimit)
  let u ← walkAll options.check follow { atRoot := true } d.body
    (Usage.start (options.parameters.map Names.ofList))
  if options.requiresConfig && (← get).config.isNone then report .missingConfig ⟨0, 0⟩
  return u

/-- Surveys a document; one that has been parsed already may be given. -/
def Source.survey (source : Source) (options : SurveyOptions) (known : Option Document) : Report :=
  let (d, faults) := match known with
    | some d => (d, [])
    | none => Survey.parsed source
  let (u, s) := (Survey.visit options d).run { SurveyState.start source with faults }
  s.report d u

theorem Source.survey_of_parse {source : Source} {options : SurveyOptions} {d : Document}
    (parsed : Document.parse source.content.toList = .ok d) : source.survey options none =
      ((Survey.visit options d).run (SurveyState.start source)).2.report d
        ((Survey.visit options d).run (SurveyState.start source)).1 := by
  unfold Source.survey Survey.parsed
  rw [parsed]
  rfl

end PromptScript
