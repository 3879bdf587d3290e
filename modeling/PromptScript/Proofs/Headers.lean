import PromptScript.Proofs.Needs
import PromptScript.Proofs.RejoinedChains

/-! # Headers of documents

A document that has been read has at most one header, outside all blocks and tags. If a survey finds no defect in the
document then no tag stands before the header, and its settings are those of the report. -/
namespace PromptScript

/-! ## Where headers are read -/

namespace Node

/-- The nodes without the header among them. -/
def headless (nodes : List Node) : List Node :=
  nodes.filter fun
    | config _ _ _ => false
    | _ => true

theorem headless_append (nodes nodes' : List Node) : headless (nodes ++ nodes') = headless nodes ++ headless nodes' :=
  List.filter_append ..

/-- Nothing is left out of nodes without a header. -/
theorem headless_eq_self {nodes : List Node} (bare : headedAll nodes = false) : headless nodes = nodes := by
  induction nodes with
  | nil => rfl
  | cons n r ih =>
    obtain ⟨bare, later⟩ := Bool.or_eq_false_iff.mp bare
    cases n with
    | config => cases bare
    | _ => exact congrArg (_ :: ·) (ih later)

/-- There is at most one header, and no other node has one in it. -/
def HeadedOnce (nodes : List Node) : Prop :=
  headedAll nodes = false ∨ ∃ before span data rest, nodes = before ++ .config span data none :: rest ∧
    headedAll before = false ∧ headedAll rest = false

end Node

namespace Grammar

/-- Where headers may stand in what is read: one at the root, unless there was one before. -/
def Part.Heads : Part → Prop
  | .nodes root seen body _ seen' => (seen.header = true → seen'.header = true) ∧
      (root = false ∨ seen.header = true → Node.headedAll body = false) ∧ Node.HeadedOnce body
  | .next root seen (.node n seen') => (seen.header = true → seen'.header = true) ∧
      (n.headed = false ∨ root = true ∧ seen.header = false ∧ seen'.header = true ∧ ∃ span data, n = .config span data none)
  | .next _ _ (.ending _) => True
  | .block _ _ seen n seen' | .element _ seen n seen' => (seen.header = true → seen'.header = true) ∧ n.headed = false
  | .branches _ seen body otherwise seen' => (seen.header = true → seen'.header = true) ∧
      Node.headedAll body = false ∧ Node.headedAll (otherwise.getD []) = false

theorem leadOf_header {root : Bool} {seen : Seen} {text : List Char} (h : leadOf root seen text = .header) :
    root = true ∧ seen.header = false := by
  unfold leadOf at h
  repeat' split at h
  all_goals cases h
  next here =>
    simp only [Bool.and_eq_true, Bool.not_eq_true'] at here
    exact ⟨here.1.1.2, here.1.2⟩

theorem Reads.heads {part : Part} {c c' : Cursor} (h : Reads part c c') : part.Heads := by
  induction h with
  | done => exact ⟨id, fun _ => rfl, .inl rfl⟩
  | source | mark | close => exact trivial
  | @more root seen seen₁ seen₂ n r _ _ _ _ _ _ ih ih' =>
    obtain ⟨goes, first⟩ := ih
    obtain ⟨goes', bare, once⟩ := ih'
    refine ⟨goes' ∘ goes, fun inside => ?_, ?_⟩
    · rcases first with first | ⟨atRoot, fresh, -⟩
      · exact Bool.or_eq_false_iff.mpr ⟨first, bare (inside.imp_right goes)⟩
      · rcases inside with inside | inside
        · exact nomatch inside.symm.trans atRoot
        · exact nomatch inside.symm.trans fresh
    · rcases first with first | ⟨-, -, seen, span, data, rfl⟩
      · rcases once with once | ⟨before, span, data, rest, rfl, none, none'⟩
        · exact .inl (Bool.or_eq_false_iff.mpr ⟨first, once⟩)
        · exact .inr ⟨n :: before, span, data, rest, rfl, Bool.or_eq_false_iff.mpr ⟨first, none⟩, none'⟩
      · exact .inr ⟨[], span, data, r, rfl, rfl, bare (.inr seen)⟩
  | block _ _ _ ih | tag _ _ ih => exact ⟨ih.1, .inl ih.2⟩
  | value _ _ reads =>
    obtain ⟨e, rfl⟩ := readInterpolation_gives reads
    exact ⟨id, .inl rfl⟩
  | comment _ reads =>
    obtain ⟨data, rfl, -⟩ := readComment_gives reads
    exact ⟨id, .inl rfl⟩
  | header lead reads =>
    obtain ⟨data, rfl, -⟩ := readHeader_gives reads
    exact ⟨fun _ => rfl, .inr ⟨(leadOf_header lead).1, (leadOf_header lead).2, rfl, _, _, rfl⟩⟩
  | text lead reads =>
    obtain ⟨data, rfl, -⟩ := readText_gives (rest_ne_nil (by rw [lead]; exact nofun)) reads
    exact ⟨id, .inl rfl⟩
  | @choice _ _ _ _ _ otherwise _ _ _ _ _ ih | @loop _ _ _ _ otherwise _ _ _ _ _ _ ih =>
    obtain ⟨goes, body, other⟩ := ih
    cases otherwise with
    | none => exact ⟨goes, body⟩
    | some => exact ⟨goes, Bool.or_eq_false_iff.mpr ⟨body, other⟩⟩
  | single _ _ ih => exact ⟨ih.1, ih.2.1 (.inl rfl), rfl⟩
  | double _ _ _ ih ih' => exact ⟨ih'.1 ∘ ih.1, ih.2.1 (.inl rfl), ih'.2.1 (.inl rfl)⟩
  | alone => exact ⟨id, rfl⟩
  | around _ _ ih => exact ⟨ih.1, ih.2.1 (.inl rfl)⟩

/-- A document that has been read has at most one header. -/
theorem headedOnce_of_parse {source : List Char} {d : Document} (h : Document.parse source = .ok d) :
    Node.HeadedOnce d.body := by
  obtain ⟨seen, c, reads, -⟩ := reads_of_parse h
  exact reads.heads.2.2

end Grammar

/-! ## Headers that a survey meets -/

namespace Survey

variable {α β : Type} {tagged tagged' headed headed' : Bool} {l : List Span}

/-- What a part of a survey leaves behind if it finds no defect: content has been met if it had been before, and where
`tagged`; the settings are still those from before, unless `headed`. -/
structure Notes (tagged headed : Bool) (part : Survey α) : Prop where
  clean : Cleanly (fun _ => True) part
  content : ∀ s, (part.run s).2.faults = [] → (s.hasContent || tagged) = true → (part.run s).2.hasContent = true
  config : ∀ s, (part.run s).2.faults = [] → headed = false →
    (part.run s).2.config = s.config ∧ (part.run s).2.configSpan = s.configSpan

namespace Notes

variable {x : Survey α} {f : α → Survey β}

/-- A part that touches neither. -/
theorem of_same (clean : Cleanly (fun _ => True) x)
    (same : ∀ s, (x.run s).2.hasContent = s.hasContent ∧ (x.run s).2.config = s.config ∧
      (x.run s).2.configSpan = s.configSpan) : Notes false headed x where
  clean
  content s _ met := by rwa [(same s).1, ← Bool.or_false s.hasContent]
  config s _ _ := (same s).2

theorem bind (hx : Notes tagged headed x) (hf : ∀ a, Notes tagged' headed' (f a)) :
    Notes (tagged || tagged') (headed || headed') (x >>= f) where
  clean := hx.clean.andThen fun a => (hf a).clean
  content s clean met := by
    have between := ((hf _).clean _ clean).1
    refine (hf (x.run s).1).content (x.run s).2 clean ?_
    rw [← Bool.or_assoc] at met
    rcases Bool.or_eq_true_iff.mp met with first | second
    · exact Bool.or_eq_true_iff.mpr (.inl (hx.content s between first))
    · exact Bool.or_eq_true_iff.mpr (.inr second)
  config s clean none := by
    obtain ⟨first, second⟩ := Bool.or_eq_false_iff.mp none
    have between := ((hf _).clean _ clean).1
    obtain ⟨config, span⟩ := hx.config s between first
    obtain ⟨config', span'⟩ := (hf (x.run s).1).config (x.run s).2 clean second
    exact ⟨config'.trans config, span'.trans span⟩

/-- After a part that touches neither. -/
theorem andThen (hx : Notes false false x) (hf : ∀ a, Notes tagged headed (f a)) : Notes tagged headed (x >>= f) := by
  have both := hx.bind hf
  rwa [Bool.false_or, Bool.false_or] at both

/-- Before a part that touches neither. -/
theorem after (hx : Notes tagged headed x) (hf : ∀ a, Notes false false (f a)) : Notes tagged headed (x >>= f) := by
  have both := hx.bind hf
  rwa [Bool.or_false, Bool.or_false] at both

theorem pure (a : α) : Notes false headed (Pure.pure a : Survey α) := of_same (.pure trivial) fun _ => ⟨rfl, rfl, rfl⟩

/-- Nothing is said where a defect is found. -/
theorem report (defect : Defect) (span : Span) : Notes tagged headed (Survey.report defect span) := by
  have found := Cleanly.report defect span
  exact ⟨found.mono fun _ => False.elim, fun s clean => (found s clean).2.elim, fun s clean => (found s clean).2.elim⟩

theorem ite {p : Prop} [Decidable p] {x y : Survey α} (hx : Notes tagged headed x) (hy : Notes tagged headed y) :
    Notes tagged headed (if p then x else y) := by
  split
  · exact hx
  · exact hy

theorem reportIf {p : Prop} [Decidable p] {defect : Defect} {span : Span} {rest : Survey α} (h : Notes tagged headed rest) :
    Notes tagged headed (if p then Survey.report defect span >>= fun _ => rest else rest) :=
  ite ((report defect span).andThen fun _ => h) h

theorem track (e : Expr) (u : Usage) : Notes false false (track e u) := of_same (Cuts.track e u).cleanly fun _ => ⟨rfl, rfl, rfl⟩

theorem reportCalls : Notes false false reportCalls := of_same Cuts.reportCalls.cleanly fun _ => ⟨rfl, rfl, rfl⟩

theorem dropCalls : Notes false false dropCalls := of_same Cuts.dropCalls.cleanly fun _ => ⟨rfl, rfl, rfl⟩

theorem get : Notes false false (MonadState.get : Survey SurveyState) := of_same Cuts.get.cleanly fun _ => ⟨rfl, rfl, rfl⟩

/-- A change of what does not count here. -/
theorem modify {f : SurveyState → SurveyState} (faults : ∀ s, (f s).faults = s.faults)
    (same : ∀ s, (f s).hasContent = s.hasContent ∧ (f s).config = s.config ∧ (f s).configSpan = s.configSpan) :
    Notes false headed (modify f : Survey PUnit) := of_same (.of_same faults) same

theorem splice (span : Span) (new : List Char) : Notes false false (splice span new) :=
  modify (fun _ => rfl) fun _ => ⟨rfl, rfl, rfl⟩

/-- From here on there is content. -/
theorem markContent : Notes true false markContent := ⟨Cuts.markContent.cleanly, fun _ _ _ => rfl, fun _ _ _ => ⟨rfl, rfl⟩⟩

/-- Less may be said of content. -/
theorem loosen (h : Notes tagged headed x) : Notes false headed x where
  clean := h.clean
  content s clean met := h.content s clean (by rw [Bool.or_eq_true_iff]; exact .inl (by rwa [Bool.or_false] at met))
  config := h.config

/-- Less may be said of the settings. -/
theorem unheaded (h : Notes tagged false x) : Notes tagged headed x := ⟨h.clean, h.content, fun s clean _ => h.config s clean rfl⟩

theorem forM {γ : Type} {f : γ → Survey PUnit} (h : ∀ x, Notes false false (f x)) (xs : List γ) :
    Notes false false (xs.forM f) := by
  induction xs with
  | nil => exact .pure _
  | cons x xs ih => exact (h x).andThen fun _ => ih

theorem reportMissing (names given : Names) (span : Span) : Notes false false (reportMissing names given span) :=
  forM (fun _ => report _ _) _

theorem trackParts (parts : List Node) (u : Usage) : Notes false false (trackParts parts u) := by
  induction parts generalizing u with
  | nil => exact .pure _
  | cons n r ih =>
    cases n with
    | interpolation span e p => exact (track e u).andThen fun u => ih u
    | _ => exact ih u

theorem attributeNames (static : List String) (attributes : List Attribute) (names : Names) (u : Usage) :
    Notes false false (attributeNames static attributes names u) := by
  induction attributes generalizing names u with
  | nil => exact .pure _
  | cons a r ih =>
    obtain ⟨span, name, value⟩ := a
    cases value with
    | flag => exact ih _ _
    | nodes parts =>
      unfold Survey.attributeNames
      split
      · exact (report _ _).andThen fun _ => ih _ _
      · exact (trackParts parts u).andThen fun _ => ih _ _

/-! ### Tags and nodes -/

section Tags

variable {body : Usage → Survey Usage} (h : ∀ u, Notes tagged headed (body u))

include h

theorem contentTag (at_ : Setting) (span : Span) (kind : Option ContentKind) (attributes : List Attribute) (u : Usage) :
    Notes tagged headed (Survey.content at_ span kind attributes u body) := by
  refine reportIf (ite ?_ (h _))
  refine andThen (modify (fun _ => rfl) fun _ => ⟨rfl, rfl, rfl⟩) fun _ => (attributeNames _ _ _ _).andThen fun _ => ?_
  exact reportIf (reportIf (h _))

theorem messageBody (role : Option Role) (u : Usage) : Notes tagged headed (messageBody role u body) := by
  refine reportCalls.andThen fun _ => (h u).after fun _ => ?_
  have rest (u : Usage) : Notes false false (do Survey.dropCalls; return u) := dropCalls.andThen fun _ => .pure _
  exact ite (reportCalls.andThen fun _ => rest _) (rest _)

theorem message (at_ : Setting) (span : Span) (role : Option Role) (attributes : List Attribute) (u : Usage) :
    Notes tagged headed (message at_ span role attributes u body) := by
  refine reportIf ((attributeNames _ _ _ _).andThen fun _ => ite ?_ ?_)
  · exact (report _ _).after fun _ => .pure _
  · dsimp only
    split
    · exact (report _ _).after fun _ => .pure _
    · exact messageBody h _ _

theorem closed (span : Span) (attributes : List Attribute) (u : Usage) :
    Notes tagged headed (closed span attributes u body) :=
  (attributeNames _ _ _ _).andThen fun _ => (h _).after fun _ => (reportMissing _ _ _).andThen fun _ => .pure _

theorem step (at_ : Setting) (span : Span) (attributes : List Attribute) (u : Usage) :
    Notes tagged headed (step at_ span attributes u body) := by
  refine andThen (modify (fun _ => rfl) fun _ => ⟨rfl, rfl, rfl⟩) fun _ => reportIf ?_
  exact (attributeNames _ _ _ _).andThen fun _ => (h _).after fun _ => .pure _

theorem loopBody (item : Binding) (index : Option Binding) (u : Usage) :
    Notes tagged headed (loopBody item index u body) := by
  unfold Survey.loopBody
  split
  · exact (report _ _).after fun _ => .pure _
  · exact (h _).after fun _ => .pure _

end Tags

/-! ### References -/

theorem include? (loader : Loader) (including : Include) (span : Span) (path : String) (given : Names) :
    Notes false false (include? loader including span path given) := by
  have failed {defect : Defect} : Notes false false (do Survey.report defect span; return none : Survey (Option (List Char))) :=
    (report _ _).andThen fun _ => .pure _
  refine get.andThen fun s => ite failed ?_
  split
  · exact failed
  · exact failed
  · dsimp only
    refine andThen (modify (fun _ => rfl) fun _ => ⟨rfl, rfl, rfl⟩) fun _ => (reportMissing _ _ _).andThen fun _ => ?_
    refine (forM (fun _ => report _ _) _).andThen fun _ => ?_
    exact andThen (modify (fun _ => rfl) fun _ => ⟨rfl, rfl, rfl⟩) fun _ => .pure _

theorem replaceReference (loader : Loader) (including : Include) (span : Span) (attributes : List Attribute) (path : String)
    (given : Names) : Notes false false (replaceReference loader including span attributes path given) :=
  get.andThen fun _ => (include? _ _ _ _ _).andThen fun _ => get.andThen fun _ => splice _ _

theorem follow (loader : Option Loader) (including : Option Include) (span : Span) (attributes : List Attribute)
    (body : List Node) (u : Usage) : Notes false false (follow loader including span attributes body u) := by
  refine ite ((report _ _).andThen fun _ => .pure _) ((attributeNames _ _ _ _).andThen fun (names, u) => ?_)
  refine ite ((report _ _).andThen fun _ => .pure _) ?_
  dsimp only
  split
  · exact (report _ _).andThen fun _ => .pure _
  · exact (report _ _).andThen fun _ => .pure _
  · exact .pure _
  · exact (replaceReference _ _ _ _ _ _).andThen fun _ => .pure _

/-! ### Nodes -/

variable (check : Option (Config → Option String)) {follow : Follow}

theorem settings (span : Span) (data : String) : Notes false false (settings span data) := by
  unfold Survey.settings
  split
  · exact .pure _
  · exact (report _ _).andThen fun _ => .pure _

theorem checkSettings (span : Span) (config : Config) : Notes false false (checkSettings check span config) := by
  unfold Survey.checkSettings
  split
  · exact report _ _
  · exact .pure _

theorem header (atRoot : Bool) (span : Span) (data : String) : Notes false true (header check atRoot span data) := by
  refine (splice span []).andThen fun _ => get.andThen fun s => reportIf (reportIf (reportIf ?_))
  refine (settings span data).andThen fun config => (checkSettings check span config).andThen fun _ => ?_
  exact ⟨.of_same fun _ => rfl, fun s _ met => by rwa [Bool.or_false] at met, fun _ _ => nofun⟩

mutual

/-- The walk over a node meets content if there is a tag in it, and settings only in a header. -/
theorem walk (follows : ∀ span attributes body u, Notes false false (follow span attributes body u)) (at_ : Setting) :
    ∀ (n : Node) (u : Usage), Notes n.tagged n.headed (walk check follow at_ n u)
  | .group _ body _, u => walkAll follows at_ body u
  | .comment span _ _, _ => (splice span []).andThen fun _ => .pure _
  | .config span data _, _ => (header check _ span data).after fun _ => .pure _
  | .text _ data _, u => by
    unfold Survey.walk
    exact ite (markContent.loosen.andThen fun _ => .pure _) (.pure _)
  | .interpolation _ e _, u => markContent.loosen.andThen fun _ => track e u
  | .choice _ test body none _, u => (track test u).andThen fun _ => (walkAll follows _ body _).after fun _ => .pure _
  | .choice _ test body (some other) _, u =>
    (track test u).andThen fun _ => (walkAll follows _ body _).bind fun _ => (walkAll follows _ other _).after fun _ => .pure _
  | .loop _ items item index body none _, u =>
    (track items u).andThen fun _ => loopBody (fun u => walkAll follows _ body u) _ _ _
  | .loop _ items item index body (some other) _, u => by
    show Notes (Node.taggedAll body || Node.taggedAll other) (Node.headedAll body || Node.headedAll other) _
    rw [Bool.or_comm (Node.taggedAll body), Bool.or_comm (Node.headedAll body)]
    exact (track items u).andThen fun _ => (walkAll follows _ other _).bind fun _ =>
      loopBody (fun u => walkAll follows _ body u) _ _ _
  | .element span tag attributes body _, u => by
    have inside (at_ : Setting) (u : Usage) := walkAll follows at_ body u
    have here {part : Survey Usage} (h : Notes (Node.taggedAll body) (Node.headedAll body) part) :
        Notes true (Node.headedAll body) (do Survey.markContent; part) := markContent.bind fun _ => h
    cases tag with
    | content kind => exact here (contentTag (inside _) _ _ _ _ _)
    | message role => exact here (message (inside _) _ _ _ _ _)
    | reference => exact (markContent.bind fun _ => follows _ _ _ _).unheaded
    | scope => exact here (closed (inside _) _ _ _)
    | step => exact here (step (inside _) _ _ _ _)

theorem walkAll (follows : ∀ span attributes body u, Notes false false (follow span attributes body u)) (at_ : Setting) :
    ∀ (nodes : List Node) (u : Usage),
      Notes (Node.taggedAll nodes) (Node.headedAll nodes) (walkAll check follow at_ nodes u)
  | [], _ => .pure _
  | n :: r, u => (walk follows at_ n u).bind fun u => walkAll follows at_ r u

end

end Notes

theorem walkAll_append (check : Option (Config → Option String)) (follow : Follow) (at_ : Setting) (nodes nodes' : List Node)
    (u : Usage) : walkAll check follow at_ (nodes ++ nodes') u =
      walkAll check follow at_ nodes u >>= fun u => walkAll check follow at_ nodes' u := by
  induction nodes generalizing u with
  | nil => rfl
  | cons n r ih =>
    simp only [List.cons_append, walkAll, bind_assoc]
    congr 1
    funext u
    exact ih u

/-- What a header has to be for no defect to be found in it, and the settings it is read as. -/
structure Heads (check : Option (Config → Option String)) (atRoot : Bool) (data : String) (s : SurveyState) (config : Config) :
    Prop where
  first : s.config.isSome = false
  atRoot : atRoot = true
  fresh : s.hasContent = false
  reads : Config.ofHeader data = .ok config
  accepted : (check.bind fun check => check config) = none

theorem settings_cleanly (span : Span) (data : String) :
    Cleanly (fun config => Config.ofHeader data = .ok config) (settings span data) := by
  unfold settings
  split
  · next config reads => exact .pure reads
  · exact .reported _ _ fun _ => (.pure trivial : Cleanly (fun _ => True) _)

theorem checkSettings_cleanly (check : Option (Config → Option String)) (span : Span) (config : Config) :
    Cleanly (fun _ => (check.bind fun check => check config) = none) (checkSettings check span config) := by
  unfold checkSettings
  split
  · exact (Cleanly.report _ _).mono fun _ => False.elim
  · next accepted => exact .pure accepted

/-- A header in which no defect is found is the first one, and comes before all content. -/
theorem heads_of_clean (check : Option (Config → Option String)) (atRoot : Bool) (span : Span) (data : String)
    {s : SurveyState} (clean : ((header check atRoot span data).run s).2.faults = []) :
    ∃ config, Heads check atRoot data s config := by
  have last : Cleanly (fun _ => ∃ config, Config.ofHeader data = .ok config ∧ (check.bind fun check => check config) = none) (do
      let config ← settings span data
      checkSettings check span config
      modify fun s => { s with configSpan := some span, config := some config }) := by
    refine (settings_cleanly span data).bind fun config => (checkSettings_cleanly check span config).bind fun _ => ?_
    exact (Cleanly.of_same fun _ => rfl).mono fun _ _ accepted reads => ⟨config, reads, accepted⟩
  have refused : Cleanly (fun _ => ¬s.config.isSome = true ∧ ¬(!atRoot) = true ∧ ¬s.hasContent = true ∧
      ∃ config, Config.ofHeader data = .ok config ∧ (check.bind fun check => check config) = none) (do
      if s.config.isSome then report .configAlreadyDeclared span
      if !atRoot then report .configOutsideRoot span
      if s.hasContent then report .invalidConfigPlacement span
      let config ← settings span data
      checkSettings check span config
      modify fun s => { s with configSpan := some span, config := some config }) := .refuses (.refuses (.refuses last))
  obtain ⟨first, root, fresh, config, reads, accepted⟩ := (refused _ clean).2
  refine ⟨config, Bool.eq_false_iff.mpr first, ?_, Bool.eq_false_iff.mpr fresh, reads, accepted⟩
  cases atRoot with
  | false => exact (root rfl).elim
  | true => rfl

/-- Its settings are put down, and where it stands. -/
theorem Heads.run {check : Option (Config → Option String)} {atRoot : Bool} {data : String} {s : SurveyState} {config : Config}
    (h : Heads check atRoot data s config) (span : Span) : (header check atRoot span data).run s =
      (⟨⟩, { s with resolved := s.resolved.replace span [], configSpan := some span, config := some config }) := by
  obtain ⟨first, rfl, fresh, reads, accepted⟩ := h
  have settled : settings span data = pure config := by
    unfold settings
    rw [reads]
  have checked : checkSettings check span config = pure ⟨⟩ := by
    unfold checkSettings
    rw [accepted]
  unfold header
  rw [settled]
  show ((do
    if s.config.isSome then report .configAlreadyDeclared span
    if !true then report .configOutsideRoot span
    if s.hasContent then report .invalidConfigPlacement span
    let config ← (pure config : Survey Config)
    checkSettings check span config
    modify fun s => { s with configSpan := some span, config := some config } : Survey PUnit).run
      { s with resolved := s.resolved.replace span [] }) = _
  rw [first, fresh, pure_bind, checked]
  rfl

end Survey

namespace Source

variable {source : Source} {options : SurveyOptions} {d : Document} {nodes before rest : List Node} {span : Span} {data : String}
  {p : Option Progress}

/-- The part of a survey that walks over nodes outside all blocks and tags. -/
def walk (options : SurveyOptions) (nodes : List Node) (u : Usage) : Survey Usage :=
  Survey.walkAll options.check (Survey.follow options.loader (Survey.including options.loader Survey.referenceLimit))
    { atRoot := true } nodes u

/-- What a survey has gathered when it has walked over the nodes of a document. -/
def walked (source : Source) (options : SurveyOptions) (nodes : List Node) : Usage × SurveyState :=
  (walk options nodes (Usage.start (options.parameters.map Names.ofList))).run (SurveyState.start source)

theorem walk_notes (options : SurveyOptions) (nodes : List Node) (u : Usage) :
    Survey.Notes (Node.taggedAll nodes) (Node.headedAll nodes) (walk options nodes u) :=
  .walkAll options.check (fun span attributes body u => .follow _ _ span attributes body u) _ nodes u

/-- After the walk a survey only looks whether there is a header. -/
theorem survey_of_parsed (options : SurveyOptions) (parsed : Document.parse source.content.toList = .ok d) :
    let report := source.survey options none
    let done := source.walked options d.body
    (report.diagnostics = [] ↔ done.2.faults = [] ∧ (options.requiresConfig && done.2.config.isNone) = false) ∧
      report.parameters = done.1.used.union (done.1.allowed.getD []) ∧ report.config = done.2.config.getD [] ∧
      report.configSpan = done.2.configSpan := by
  let last (u : Usage) (s : SurveyState) : Survey Usage :=
    if options.requiresConfig && s.config.isNone then Survey.report .missingConfig ⟨0, 0⟩ >>= fun _ => pure u else pure u
  have whole (done : Usage × SurveyState) (made : source.walked options d.body = done) : source.survey options none =
      ((last done.1 done.2).run done.2).2.report d ((last done.1 done.2).run done.2).1 := by
    subst made
    exact survey_of_parse parsed
  generalize made : source.walked options d.body = done
  obtain ⟨u, s⟩ := done
  let lack : List Fault := if options.requiresConfig && s.config.isNone then [⟨.missingConfig, ⟨0, 0⟩⟩] else []
  have ended : (last u s).run s = (u, { s with faults := s.faults ++ lack }) := by
    show (if _ then _ else _ : Survey Usage).run s = (u, { s with faults := s.faults ++ if _ then _ else _ })
    split
    · rfl
    · rw [List.append_nil]
      rfl
  have complete : lack = [] ↔ (options.requiresConfig && s.config.isNone) = false := by
    show (if _ then _ else _ : List Fault) = [] ↔ _
    split
    · next lacks => simp [lacks]
    · next has => simp only [Bool.eq_false_iff.mpr has]
  rw [whole _ made, ended]
  exact ⟨List.map_eq_nil_iff.trans (List.append_eq_nil_iff.trans (and_congr_right fun _ => complete)), rfl, rfl, rfl⟩

/-- The walk goes over what stands before a header, the header, and what follows it. -/
theorem walked_header (u : Usage) (s : SurveyState) :
    let first := (walk options before u).run s
    (walk options (before ++ .config span data p :: rest) u).run s =
      (walk options rest first.1).run ((Survey.header options.check true span data).run first.2).2 := by
  unfold walk
  rw [Survey.walkAll_append]
  rfl

/-- Where a survey finds no defect in a document with a header no tag stands before the header, and its settings are those of
the walk. -/
theorem heads_of_walked (bare : Node.headedAll rest = false)
    (clean : (source.walked options (before ++ .config span data p :: rest)).2.faults = []) :
    Node.taggedAll before = false ∧ ∃ config, Survey.Heads options.check true data (source.walked options before).2 config ∧
      (source.walked options (before ++ .config span data p :: rest)).2.config = some config ∧
      (source.walked options (before ++ .config span data p :: rest)).2.configSpan = some span := by
  let first := source.walked options before
  have whole : source.walked options (before ++ .config span data p :: rest) =
      (walk options rest first.1).run ((Survey.header options.check true span data).run first.2).2 := walked_header ..
  rw [whole] at clean ⊢
  have after := walk_notes options rest first.1
  have here := (after.clean _ clean).1
  obtain ⟨config, heads⟩ := Survey.heads_of_clean options.check true span data here
  obtain ⟨settings, place⟩ := after.config _ clean bare
  rw [settings, place, heads.run]
  refine ⟨Bool.eq_false_iff.mpr fun tagged => ?_, config, heads, rfl, rfl⟩
  -- A tag is content, and behind content a header is misplaced.
  have between := ((Survey.Notes.header options.check true span data).clean first.2 here).1
  have marked : first.2.hasContent = true :=
    (walk_notes options before _).content (SurveyState.start source) between (Bool.or_eq_true_iff.mpr (.inr tagged))
  exact nomatch marked.symm.trans heads.fresh

/-- Where a survey finds no defect in a document no tag stands before the header, and the settings of the report are those of
the header. -/
theorem headed_of_clean (parsed : Document.parse source.content.toList = .ok d)
    (clean : (source.survey options none).diagnostics = []) :
    Node.Headed d.body (source.survey options none).config (Node.headless d.body) := by
  obtain ⟨none, -, made, -⟩ := survey_of_parsed options parsed
  obtain ⟨faults, -⟩ := none.mp clean
  rw [made]
  rcases Grammar.headedOnce_of_parse parsed with bare | ⟨before, span, data, rest, whole, bare, bare'⟩
  · have kept := ((walk_notes options d.body _).config (SurveyState.start source) faults bare).1
    rw [show (source.walked options d.body).2.config = Option.none from kept, Node.headless_eq_self bare]
    exact .without _
  · rw [whole] at faults ⊢
    rw [Node.headless_append, Node.headless_eq_self bare,
      show Node.headless (.config span data Option.none :: rest) = rest from Node.headless_eq_self bare']
    obtain ⟨untagged, config, heads, met, -⟩ := heads_of_walked bare' faults
    rw [met]
    exact .header untagged heads.reads

end Source
end PromptScript
