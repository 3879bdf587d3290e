import PromptScript.Proofs.Excerpts
import PromptScript.Proofs.Findings
import PromptScript.Proofs.Headers
import PromptScript.Proofs.Reheaded
import PromptScript.Proofs.Unplaced

/-! # Edits of headers

The settings of a document may be replaced again and again. The header that is written ends with a newline, but a header that
is read ends with its closing mark, so each edit leaves the newline of the one before it behind. -/
namespace PromptScript

/-! ## A newline that comes first -/

/-- A newline before nodes tells a survey nothing. -/
theorem Node.Newlined.walkAll {nodes nodes' : List Node} (newlined : Newlined nodes nodes')
    (check : Option (Config → Option String)) {follow : Survey.Follow} (follows : follow.Placeless) (at_ : Survey.Setting)
    (u : Usage) : Survey.Alike (Survey.walkAll check follow at_ nodes u) (Survey.walkAll check follow at_ nodes' u) := by
  have again (nodes : List Node) := Survey.walkAll_unplaced check follows at_ nodes u
  have after := again nodes'
  have blank (data : List Char) : Text.allBlank (String.ofList ('\n' :: data)).toList =
      Text.allBlank (String.ofList data).toList := by
    rw [String.toList_ofList, String.toList_ofList]
    rfl
  cases newlined with
  | apart rest =>
    rw [rest] at after
    exact (again nodes).trans after.symm
  | @joined span data r first rest =>
    subst first
    have same : Survey.walkAll check follow at_ (.text ⟨0, 0⟩ (String.ofList ('\n' :: data)) none :: unplacedAll r) u =
        Survey.walkAll check follow at_ (unplacedAll (.text span (String.ofList data) none :: r)) u := by
      rw [unplacedAll, unplaced, Survey.walkAll, Survey.walkAll, Survey.walk, Survey.walk, blank]
    rw [rest, same] at after
    exact (again _).trans after.symm

/-! ## Settings that are written -/

/-- Settings that a header may be written for: the text of them ends with a newline, has no line that starts with the mark of
a header, and is read as these settings behind the newline that follows the mark. The caller's own check accepts them. -/
structure Config.Settles (options : SurveyOptions) (config : Config) : Prop where
  some : config ≠ []
  ended : (Yaml.textOf config).getLast? = Option.some '\n'
  free : ∀ line ∈ Text.lines (Yaml.textOf config), Grammar.atHeaderMark line = false
  reads : Config.ofHeader (String.ofList ('\n' :: Yaml.textOf config)) = .ok config
  accepted : (options.check.bind fun check => check config) = none

variable {options : SurveyOptions} {config : Config}

theorem Config.Settles.text (h : config.Settles options) : ∃ y, Yaml.textOf config = y ++ ['\n'] ∧
    (∀ line ∈ Text.lines y, Grammar.atHeaderMark line = false) ∧
    ∀ below, Report.headerText config ++ below = Grammar.headerText y ++ '\n' :: below := by
  obtain ⟨y, ends⟩ := List.getLast?_eq_some_iff.mp h.ended
  refine ⟨y, ends, fun line mem => ?_, fun below => ?_⟩
  · obtain ⟨above, last, -⟩ := Text.lines_eq_concat y
    have whole : Text.lines (y ++ ['\n']) = above ++ (Text.lastLine y ++ []) :: [[]] := Text.lines_append last rfl
    refine h.free line ?_
    rw [ends, whole, List.append_nil]
    rw [last] at mem
    rcases List.mem_append.mp mem with there | there
    · exact List.mem_append_left _ there
    · exact List.mem_append_right _ (List.mem_cons.mpr (.inl (List.mem_singleton.mp there)))
  · unfold Report.headerText Grammar.headerText
    rw [ends]
    simp [Node.headerMark]

namespace Source

variable {source : Source} {span : Span}

/-- A source in which a survey finds no defect has been read. -/
theorem exists_of_clean (clean : (source.survey options none).diagnostics = []) :
    ∃ d, Document.parse source.content.toList = .ok d := by
  cases parsed : Document.parse source.content.toList with
  | ok d => exact ⟨d, rfl⟩
  | error diagnostic =>
    have cleanly : Survey.Cleanly (fun _ => True) (Survey.visit options default) :=
      (walk_notes options [] _).clean.andThen fun u => Survey.Cuts.get.cleanly.andThen fun _ => .reportIf (.pure trivial)
    unfold Source.survey Survey.parsed at clean
    rw [parsed] at clean
    cases (cleanly _ (List.map_eq_nil_iff.mp clean)).1

/-- Under another header a document is surveyed alike, if a newline more comes behind it. -/
theorem walked_reheaded (source' : Source) {before before' rest rest' : List Node} (span' : Span) {data data' : String}
    (clean : (source.walked options (before ++ .config span data none :: rest)).2.faults = [])
    (bare : Node.headedAll rest = false) (bare' : Node.headedAll rest' = false) (path : source.path = source'.path)
    (alike : Node.unplacedAll before = Node.unplacedAll before') (newlined : Node.Newlined rest rest')
    (reads : Config.ofHeader data' = .ok config) (accepted : (options.check.bind fun check => check config) = none) :
    let done := source.walked options (before ++ .config span data none :: rest)
    let done' := source'.walked options (before' ++ .config span' data' none :: rest')
    done.1 = done'.1 ∧ done'.2.faults = [] ∧ done'.2.config = some config ∧ done'.2.configSpan = some span' := by
  obtain ⟨-, settings, heads, -⟩ := heads_of_walked bare clean
  have follows := Survey.follow_placeless options.loader (Survey.including_placeless options.loader Survey.referenceLimit)
  have start : (SurveyState.start source).Alike (SurveyState.start source') := ⟨path, rfl, rfl, rfl, rfl, rfl⟩
  -- What has been gathered before the header, and what is known after it.
  let s := source.walked options before
  let t := source'.walked options before'
  obtain ⟨same, first⟩ : s.1 = t.1 ∧ s.2.Alike t.2 :=
    Survey.walkAll_elsewhere options.check follows alike { atRoot := true } _ _ _ start
  have heads' : Survey.Heads options.check true data' t.2 config :=
    ⟨first.headed.symm.trans heads.first, rfl, first.hasContent.symm.trans heads.fresh, reads, accepted⟩
  have between : SurveyState.Alike ((Survey.header options.check true span data).run s.2).2
      ((Survey.header options.check true span' data').run t.2).2 := by
    rw [heads.run span, heads'.run span']
    exact { first with headed := rfl }
  obtain ⟨same', last⟩ := newlined.walkAll options.check follows { atRoot := true } s.1 _ _ between
  have whole : source.walked options (before ++ .config span data none :: rest) =
      (walk options rest s.1).run ((Survey.header options.check true span data).run s.2).2 := walked_header ..
  have whole' : source'.walked options (before' ++ .config span' data' none :: rest') =
      (walk options rest' s.1).run ((Survey.header options.check true span' data').run t.2).2 := by
    rw [show s.1 = t.1 from same]
    exact walked_header ..
  rw [whole] at clean
  rw [whole, whole']
  have clean' := last.clean_iff.mp clean
  obtain ⟨config, place⟩ := (walk_notes options rest' s.1).config _ clean' bare'
  refine ⟨same', clean', config.trans ?_, place.trans ?_⟩
  · rw [heads'.run]
  · rw [heads'.run]

/-- A report tells of the source that has been surveyed. -/
theorem source_survey (options : SurveyOptions) (source : Source) : (source.survey options none).source = source := by
  have outside : Survey.Setting.Tells { atRoot := true } [] := ⟨nofun, nofun, nofun⟩
  have visits (d : Document) : Survey.Finds source (fun _ => True) (Survey.visit options d) := by
    refine (Survey.walkAll_finds options.check (fun _ _ _ => trivial) outside d.body (fun _ _ _ _ => trivial)
      (Survey.follow_finds (fun _ _ => trivial) _ _ _) _).bind fun u => ?_
    exact Survey.Finds.get fun s _ => Survey.Finds.reportIf (fun _ => trivial) (.pure u)
  exact (visits _ _ rfl).1

/-- A source after its header has been replaced. -/
def withConfig (options : SurveyOptions) (source : Source) (config : Config) : Source :=
  { source with content := (source.survey options none).withConfig config }

theorem withConfig_content (some : config ≠ []) (headed : (source.survey options none).configSpan = Option.some span) :
    (source.withConfig options config).content = String.ofList (Text.takeBytes span.start source.content.toList ++
      (Report.headerText config ++ Text.dropBytes span.stop source.content.toList)) := by
  show (source.survey options none).withConfig config = _
  unfold Report.withConfig Report.underHeader
  rw [source_survey, headed]
  dsimp only
  rw [if_neg some, Option.getD_some]

/-- **One edit**: the source has the new header, and is read as before with the new settings, but a newline has come behind the
header that is read. -/
theorem withConfig_header (clean : (source.survey options none).diagnostics = [])
    (headed : (source.survey options none).configSpan = some span) (settles : config.Settles options) :
    let above := Text.takeBytes span.start source.content.toList
    let below := Text.dropBytes span.stop source.content.toList
    let edited := source.withConfig options config
    let report := edited.survey options none
    edited.content = String.ofList (above ++ (Report.headerText config ++ below)) ∧
      report.diagnostics = [] ∧ report.config = config ∧ report.parameters = (source.survey options none).parameters ∧
      ∃ span', report.configSpan = some span' ∧ Text.takeBytes span'.start edited.content.toList = above ∧
        Text.dropBytes span'.stop edited.content.toList = '\n' :: below := by
  obtain ⟨d, parsed⟩ := exists_of_clean clean
  obtain ⟨none_iff, parameters, -, place⟩ := survey_of_parsed options parsed
  obtain ⟨faults, -⟩ := none_iff.mp clean
  rw [headed] at place
  rcases Grammar.headedOnce_of_parse parsed with bare | ⟨before, span₀, data, rest, parts, bare, bare'⟩
  · -- Without a header there is no place of it.
    have kept := ((walk_notes options d.body _).config (SurveyState.start source) faults bare).2
    cases place.trans kept
  rw [parts] at faults place parameters
  obtain ⟨untagged, -, -, -, met⟩ := heads_of_walked bare' faults
  obtain rfl := Option.some.inj (place.trans met)
  obtain ⟨above, header, below, content, here, again⟩ := Document.parse_reheaded parsed parts bare bare' untagged
  obtain ⟨y, written, free, text⟩ := settles.text
  obtain ⟨before', rest', stop, parsed', alike, newlined, bare''⟩ := again y free
  have taken : Text.takeBytes span.start source.content.toList = above := by
    rw [content, here, List.append_assoc, Text.takeBytes_append]
  have dropped : Text.dropBytes span.stop source.content.toList = below := by
    rw [content, here, Text.dropBytes_append]
  have edit := withConfig_content settles.some headed
  rw [taken, dropped] at edit ⊢
  have edit' : (source.withConfig options config).content.toList = above ++ (Grammar.headerText y ++ '\n' :: below) := by
    rw [edit, String.toList_ofList, text]
  have path : source.path = (source.withConfig options config).path := by unfold withConfig; rfl
  generalize source.withConfig options config = edited at edit edit' path ⊢
  rw [← edit'] at parsed'
  have reads : Config.ofHeader (String.ofList ('\n' :: (y ++ ['\n']))) = .ok config := by
    rw [← written]
    exact settles.reads
  obtain ⟨none_iff', parameters', config', place'⟩ := survey_of_parsed options parsed'
  obtain ⟨same, faults', settled, met'⟩ := walked_reheaded edited
    ⟨Text.byteLength above, Text.byteLength above + Text.byteLength (Grammar.headerText y)⟩ faults bare' bare'' path
    alike.symm newlined reads settles.accepted
  have has : (options.requiresConfig && (edited.walked options (before' ++ Grammar.headerAt (Text.byteLength above) y ::
      rest')).2.config.isNone) = false := by
    rw [show (edited.walked options (before' ++ Grammar.headerAt _ y :: rest')).2.config = some config from settled]
    exact Bool.and_false _
  refine ⟨edit, none_iff'.mpr ⟨faults', has⟩, ?_, ?_, _, place'.trans met', ?_, ?_⟩
  · rw [config', show (edited.walked options (before' ++ Grammar.headerAt _ y :: rest')).2.config = some config from settled]
    rfl
  · rw [parameters', parameters, same]
    rfl
  · rw [edit', Text.takeBytes_append]
  · rw [edit', ← List.append_assoc, ← Text.byteLength_append, Text.dropBytes_append]

/-- A source after its header has been replaced again and again. -/
def withConfigs (options : SurveyOptions) (source : Source) (configs : List Config) : Source :=
  configs.foldl (withConfig options) source

theorem withConfigs_nil : source.withConfigs options [] = source := rfl

theorem withConfigs_cons (configs : List Config) :
    source.withConfigs options (config :: configs) = (source.withConfig options config).withConfigs options configs := by
  unfold withConfigs
  rw [List.foldl_cons]

/-- **Edits of headers**: where a survey finds no defect in a document with a header, the header may be replaced any number of
times. The document has the last of the settings and is read with the parameters that it had, and its text is as if only the
last of the settings had been put in, but for a newline behind the header for every edit before. -/
theorem withConfigs_settle {earlier : List Config} (clean : (source.survey options none).diagnostics = [])
    (headed : (source.survey options none).configSpan = some span)
    (settle : ∀ config ∈ earlier, config.Settles options) (last : config.Settles options) :
    let above := Text.takeBytes span.start source.content.toList
    let below := Text.dropBytes span.stop source.content.toList
    let edited := source.withConfigs options (earlier ++ [config])
    let report := edited.survey options none
    report.diagnostics = [] ∧ report.config = config ∧ report.parameters = (source.survey options none).parameters ∧
      edited.content = String.ofList (above ++
        (Report.headerText config ++ (List.replicate earlier.length '\n' ++ below))) := by
  dsimp only
  induction earlier generalizing source span with
  | nil =>
    obtain ⟨content, clean', config', parameters, -⟩ := withConfig_header clean headed last
    rw [List.nil_append, withConfigs_cons, withConfigs_nil]
    exact ⟨clean', config', parameters, content⟩
  | cons first r ih =>
    obtain ⟨-, clean', -, parameters, span', headed', above, below⟩ :=
      withConfig_header clean headed (settle first List.mem_cons_self)
    obtain ⟨clean'', config', parameters', content⟩ := ih clean' headed' fun c mem => settle c (List.mem_cons_of_mem _ mem)
    rw [List.cons_append, withConfigs_cons]
    refine ⟨clean'', config', parameters'.trans parameters, ?_⟩
    -- The newline of the first edit is the last one before the rest.
    rw [above, below] at content
    rw [content, List.length_cons, List.replicate_succ', List.append_assoc]
    rfl

end Source

/-- The one setting that a header has been read as, if it is a text. -/
def Config.text? : Except ConfigDefect Config → Option (String × String)
  | .ok [(name, .str text)] => some (name, text)
  | _ => none

theorem Config.eq_of_text? {read : Except ConfigDefect Config} {name text : String} (h : text? read = some (name, text)) :
    read = .ok [(name, .str text)] := by
  unfold text? at h
  split at h
  · cases h
    rfl
  · cases h

theorem Config.settles_label {label : String}
    (ended : (Yaml.textOf [("a", .str label)]).getLast? = some '\n')
    (free : ∀ line ∈ Text.lines (Yaml.textOf [("a", .str label)]), Grammar.atHeaderMark line = false)
    (reads : text? (ofHeader (String.ofList ('\n' :: Yaml.textOf [("a", .str label)]))) = some ("a", label)) :
    Config.Settles {} [("a", .str label)] := ⟨nofun, ended, free, eq_of_text? reads, rfl⟩

namespace Source

/-- A document with one setting that reads one name. -/
def labelled : Source := ⟨"main", "---\na: b\n---\n\x7b\x7b x \x7d\x7d"⟩

theorem labelled_clean : (labelled.survey {} none).diagnostics = [] := List.isEmpty_iff.mp (by decide +kernel)

theorem labelled_headed : (labelled.survey {} none).configSpan = some ⟨0, 12⟩ := by decide +kernel

theorem labelled_settles : Config.Settles {} [("a", .str "b")] ∧ Config.Settles {} [("a", .str "c")] :=
  ⟨Config.settles_label (by decide +kernel) (by decide +kernel) (by decide +kernel),
    Config.settles_label (by decide +kernel) (by decide +kernel) (by decide +kernel)⟩

/-- Two edits leave the newline of the first one behind. -/
theorem labelled_again : (labelled.survey {} none).diagnostics = [] ∧
    (labelled.survey {} none).configSpan = some ⟨0, 12⟩ ∧ Config.Settles {} [("a", .str "b")] ∧ Config.Settles {} [("a", .str "c")] ∧
    let edited := labelled.withConfigs {} [[("a", .str "c")], [("a", .str "b")]]
    let report := edited.survey {} none
    report.diagnostics = [] ∧ report.config = [("a", .str "b")] ∧ report.parameters = ["x"] ∧
      edited.content = "---\na: b\n---\n\n\n\x7b\x7b x \x7d\x7d" := by
  obtain ⟨first, last⟩ := labelled_settles
  have each : ∀ config ∈ ([[("a", .str "c")]] : List Config), config.Settles {} :=
    fun _ mem => List.mem_singleton.mp mem ▸ last
  obtain ⟨clean, config, parameters, content⟩ := withConfigs_settle labelled_clean labelled_headed each first
  refine ⟨labelled_clean, labelled_headed, first, last, clean, config, parameters.trans ?_, content.trans ?_⟩
  · decide +kernel
  · decide +kernel

/-- A setting whose text ends with a line separator, which stays the end of what is written for it. -/
def separated : Config := [("a", .str "x\n\u2028")]

/-- A check that asks for one setting. -/
def single : SurveyOptions := { check := some fun config => if config.length = 1 then none else some "one setting" }

/-- A header that is written twice is not what is written once: a newline is left behind. What is written for settings may end
with a line separator in place of a newline, and then the header is not found again. And the caller's own check may refuse the
settings. -/
theorem withConfig_differs :
    ((labelled.survey {} none).diagnostics = [] ∧ (labelled.survey {} none).configSpan = some ⟨0, 12⟩ ∧
      Config.Settles {} [("a", .str "b")] ∧ Config.Settles {} [("a", .str "c")] ∧
      ((labelled.withConfig {} [("a", .str "c")]).withConfig {} [("a", .str "b")]).content ≠
        (labelled.withConfig {} [("a", .str "b")]).content) ∧
    ((∀ line ∈ Text.lines (Yaml.textOf separated), Grammar.atHeaderMark line = false) ∧
      Config.ofHeader (String.ofList ('\n' :: Yaml.textOf separated)) = .ok separated ∧
      ((labelled.withConfig {} separated).survey {} none).diagnostics ≠ []) ∧
    ((labelled.survey single none).diagnostics = [] ∧
      ((labelled.withConfig single [("a", .str "b"), ("b", .null)]).survey single none).diagnostics ≠ []) := by
  obtain ⟨first, last⟩ := labelled_settles
  have defective {l : List Diagnostic} (some : l.isEmpty = false) : l ≠ [] := by
    rintro rfl
    cases some
  refine ⟨⟨labelled_clean, labelled_headed, first, last, by decide +kernel⟩, ⟨by decide +kernel, ?_, ?_⟩, ?_, ?_⟩
  · exact Config.eq_of_text? (by decide +kernel)
  · exact defective (by decide +kernel)
  · exact List.isEmpty_iff.mp (by decide +kernel)
  · exact defective (by decide +kernel)

end Source
end PromptScript
