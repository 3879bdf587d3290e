import PromptScript.Proofs.Accepted
import PromptScript.Proofs.Analyses
import PromptScript.Proofs.Raised
import PromptScript.Survey.Report

/-! # What surveys find

A judgement on the parts of a survey: what they find, and on what they find it (`Finds`). It has a rule for each way to
put parts together and for each tag. The tags of a document are listed with the tags around them, so that it can be
said what a tag clashes with. -/
namespace PromptScript

namespace Tag

/-- What is wrong with a tag that stands in another, whatever lies between them. -/
def clash? (outer inner : Tag) : Option Defect :=
  match outer, inner with
  | .content _, .content _ => some .contentTagInsideContent
  | .content _, .message _ | .message _, .message _ => some .messageTagInsideMessage
  | .step, .step => some .stepTagInsideStep
  | _, _ => none

end Tag

/-- A tag in a document, and the tags around it. -/
structure Standing where
  tag : Tag
  span : Span
  around : List Tag

/-- The defect is that the tag stands in one that it must not stand in. -/
def Standing.Clashes (t : Standing) (f : Fault) : Prop :=
  f.span = t.span ∧ ∃ outer ∈ t.around, outer.clash? t.tag = some f.defect

namespace Node

mutual

/-- The tags in a node, given the tags around it. -/
def tags (around : List Tag) : Node → List Standing
  | text _ _ _ | comment _ _ _ | config _ _ _ | interpolation _ _ _ => []
  | group _ body _ | choice _ _ body none _ | loop _ _ _ _ body none _ => tagsAll around body
  | choice _ _ body (some other) _ | loop _ _ _ _ body (some other) _ => tagsAll around body ++ tagsAll around other
  | element span tag _ body _ => ⟨tag, span, around⟩ :: tagsAll (tag :: around) body

def tagsAll (around : List Tag) : List Node → List Standing
  | [] => []
  | n :: r => tags around n ++ tagsAll around r

end

end Node

namespace Survey

variable {α β : Type} {source : Source} {p : Fault → Prop}

/-- A part of the survey of a document finds no defects but those of which something is true. -/
def Finds (source : Source) (p : Fault → Prop) (part : Survey α) : Prop :=
  ∀ s : SurveyState, s.source = source → (part.run s).2.source = source ∧
    ∃ found, (part.run s).2.faults = s.faults ++ found ∧ ∀ f ∈ found, p f

namespace Finds

theorem pure (a : α) : Finds source p (Pure.pure a : Survey α) :=
  fun _ here => ⟨here, [], (List.append_nil _).symm, nofun⟩

theorem bind {x : Survey α} {f : α → Survey β} (hx : Finds source p x) (hf : ∀ a, Finds source p (f a)) :
    Finds source p (x >>= f) := by
  intro s here
  obtain ⟨between, found, first, fine⟩ := hx s here
  obtain ⟨last, found', second, fine'⟩ := hf (x.run s).1 (x.run s).2 between
  refine ⟨last, found ++ found', ?_, ?_⟩
  · show ((f (x.run s).1).run (x.run s).2).2.faults = _
    rw [second, first, List.append_assoc]
  · intro f member
    rcases List.mem_append.mp member with member | member
    · exact fine f member
    · exact fine' f member

/-- A part that is given the state in which it begins. -/
theorem get {f : SurveyState → Survey β} (hf : ∀ s, s.source = source → Finds source p (f s)) :
    Finds source p (MonadState.get >>= f) := fun s here => hf s here s here

/-- What changes neither the document nor the defects finds nothing. -/
theorem of_same {part : Survey α}
    (same : ∀ s, (part.run s).2.source = s.source ∧ (part.run s).2.faults = s.faults) : Finds source p part :=
  fun s here => ⟨(same s).1.trans here, [], (same s).2.trans (List.append_nil _).symm, nofun⟩

theorem report {defect : Defect} {span : Span} (h : p ⟨defect, span⟩) : Finds source p (Survey.report defect span) := by
  refine fun s here => ⟨here, [⟨defect, span⟩], rfl, fun f member => ?_⟩
  obtain rfl := List.mem_singleton.mp member
  exact h

theorem reported {defect : Defect} {span : Span} {rest : PUnit → Survey β} (h : p ⟨defect, span⟩)
    (hr : ∀ a, Finds source p (rest a)) : Finds source p (Survey.report defect span >>= rest) :=
  bind (report h) hr

theorem ite {q : Prop} [Decidable q] {x y : Survey α} (hx : q → Finds source p x) (hy : Finds source p y) :
    Finds source p (if q then x else y) := by
  split
  · next holds => exact hx holds
  · exact hy

theorem reportIf {q : Prop} [Decidable q] {defect : Defect} {span : Span} {rest : Survey α}
    (h : q → p ⟨defect, span⟩) (hr : Finds source p rest) :
    Finds source p (if q then Survey.report defect span >>= fun _ => rest else rest) :=
  ite (fun holds => reported (h holds) fun _ => hr) hr

theorem forM {γ : Type} {f : γ → Survey PUnit} {xs : List γ} (h : ∀ x ∈ xs, Finds source p (f x)) :
    Finds source p (xs.forM f) := by
  induction xs with
  | nil => exact pure _
  | cons x xs ih =>
    exact bind (h x List.mem_cons_self) fun _ => ih fun y member => h y (List.mem_cons_of_mem _ member)

end Finds

/-! ## Parts of documents

All that is found is expected but that tags clash and that references go in a circle. -/

variable (other : ∀ f : Fault, f.defect.isMisplaced true = false → f.defect ≠ .circularReference → p f)

include other

theorem finds_track (e : Expr) (u : Usage) : Finds source p (track e u) :=
  fun _ here => ⟨here, _, rfl, e.found_of_analyze (fun _ _ => other _ rfl nofun) u⟩

theorem finds_reportCalls : Finds source p reportCalls := by
  refine fun s here => ⟨here, _, rfl, fun f member => ?_⟩
  obtain ⟨span, -, rfl⟩ := List.mem_map.mp member
  exact other _ rfl nofun

theorem finds_trackParts (parts : List Node) (u : Usage) : Finds source p (trackParts parts u) := by
  induction parts generalizing u with
  | nil => exact .pure u
  | cons n r ih =>
    cases n with
    | interpolation _ e _ => exact (finds_track other e u).bind fun u => ih u
    | _ => exact ih u

theorem finds_attributeNames (static : List String) (attributes : List Attribute) (names : Names) (u : Usage) :
    Finds source p (attributeNames static attributes names u) := by
  induction attributes generalizing names u with
  | nil => exact .pure _
  | cons a r ih =>
    obtain ⟨_, name, value⟩ := a
    cases value with
    | flag => exact ih _ u
    | nodes parts =>
      unfold attributeNames
      split
      · exact Finds.reported (other _ rfl nofun) fun _ => ih names u
      · exact (finds_trackParts other parts u).bind fun u => ih _ u

theorem finds_reportMissing (names given : Names) (span : Span) :
    Finds source p (reportMissing names given span) :=
  Finds.forM fun _ _ => Finds.report (other _ rfl nofun)

theorem finds_header (check : Option (Config → Option String)) (atRoot : Bool) (span : Span) (data : String) :
    Finds source p (header check atRoot span data) := by
  have read : Finds source p (settings span data) := by
    unfold settings
    split
    · exact .pure _
    · exact Finds.reported (other _ rfl nofun) fun _ => .pure _
  have checked (config : Config) : Finds source p (checkSettings check span config) := by
    unfold checkSettings
    split
    · exact Finds.report (other _ rfl nofun)
    · exact .pure _
  refine (Finds.of_same fun _ => ⟨rfl, rfl⟩).bind fun _ => Finds.get fun s _ => ?_
  refine Finds.reportIf (fun _ => other _ rfl nofun) (Finds.reportIf (fun _ => other _ rfl nofun)
    (Finds.reportIf (fun _ => other _ rfl nofun) ?_))
  exact read.bind fun config => (checked config).bind fun _ => Finds.of_same fun _ => ⟨rfl, rfl⟩

/-! ### Tags -/

section Tags

variable {body : Usage → Survey Usage} (h : ∀ u, Finds source p (body u)) (at_ : Setting) (span : Span)
  (attributes : List Attribute) (u : Usage)

include h

theorem finds_content (kind : Option ContentKind)
    (clash : at_.inContent = true → p ⟨.contentTagInsideContent, span⟩) :
    Finds source p (content at_ span kind attributes u body) := by
  refine Finds.reportIf clash (Finds.ite (fun _ => ?_) (h u))
  refine (Finds.of_same fun _ => ⟨rfl, rfl⟩).bind fun _ => (finds_attributeNames other _ _ _ _).bind fun (names, u) => ?_
  exact Finds.reportIf (fun _ => other _ rfl nofun) (Finds.reportIf (fun _ => other _ rfl nofun) (h u))

theorem finds_messageBody (role : Option Role) : Finds source p (messageBody role u body) := by
  refine (finds_reportCalls other).bind fun _ => (h u).bind fun u => ?_
  have rest : Finds source p (do dropCalls; return u : Survey Usage) :=
    (Finds.of_same fun _ => ⟨rfl, rfl⟩).bind fun _ => .pure u
  exact Finds.ite (fun _ => (finds_reportCalls other).bind fun _ => rest) rest

theorem finds_message (role : Option Role)
    (clash : (at_.inContent || at_.inMessage) = true → p ⟨.messageTagInsideMessage, span⟩) :
    Finds source p (message at_ span role attributes u body) := by
  refine Finds.reportIf clash ((finds_attributeNames other _ _ _ _).bind fun (names, u) => ?_)
  refine Finds.ite (fun _ => Finds.reported (other _ rfl nofun) fun _ => .pure u) ?_
  dsimp only
  split
  · next lack lacking =>
    refine Finds.reported ?_ fun _ => .pure u
    unfold toolLack? at lacking
    split at lacking
    · cases lacking
    · split at lacking
      · cases lacking
        exact other _ rfl nofun
      · split at lacking
        · cases lacking
          exact other _ rfl nofun
        · cases lacking
  · exact finds_messageBody other h u _

theorem finds_closed : Finds source p (closed span attributes u body) :=
  (finds_attributeNames other _ _ _ _).bind fun (names, u) => (h _).bind fun inner =>
    (finds_reportMissing other inner.used names span).bind fun _ => .pure u

theorem finds_step (clash : at_.inStep = true → p ⟨.stepTagInsideStep, span⟩) :
    Finds source p (step at_ span attributes u body) := by
  refine (Finds.of_same fun _ => ⟨rfl, rfl⟩).bind fun _ => Finds.reportIf clash ?_
  exact (finds_attributeNames other _ _ _ _).bind fun (_, u) => (h u).bind fun u => .pure _

theorem finds_loopBody (item : Binding) (index : Option Binding) : Finds source p (loopBody item index u body) := by
  unfold loopBody
  split
  · exact Finds.reported (other _ rfl nofun) fun _ => .pure u
  · exact (h _).bind fun _ => .pure _

end Tags

omit other

/-! ## The walk -/

/-- The setting says which kinds of tags are around. -/
structure Setting.Tells (at_ : Setting) (around : List Tag) : Prop where
  inStep : at_.inStep = true → .step ∈ around
  inMessage : at_.inMessage = true → ∃ role, .message role ∈ around
  inContent : at_.inContent = true → ∃ kind, .content kind ∈ around

namespace Setting.Tells

variable {at_ : Setting} {around : List Tag}

theorem atRoot (h : at_.Tells around) (root : Bool) : { at_ with atRoot := root }.Tells around :=
  ⟨h.inStep, h.inMessage, h.inContent⟩

theorem within (h : at_.Tells around) (tag : Tag) : at_.Tells (tag :: around) where
  inStep inside := List.mem_cons_of_mem _ (h.inStep inside)
  inMessage inside := (h.inMessage inside).imp fun _ => List.mem_cons_of_mem _
  inContent inside := (h.inContent inside).imp fun _ => List.mem_cons_of_mem _

theorem inContentTag (h : at_.Tells around) (kind : Option ContentKind) :
    { at_ with inContent := true }.Tells (.content kind :: around) :=
  { h.within (.content kind) with inContent := fun _ => ⟨kind, List.mem_cons_self⟩ }

theorem inMessageTag (h : at_.Tells around) (role : Option Role) :
    { at_ with inMessage := true }.Tells (.message role :: around) :=
  { h.within (.message role) with inMessage := fun _ => ⟨role, List.mem_cons_self⟩ }

theorem inStepTag (h : at_.Tells around) : { at_ with inStep := true }.Tells (.step :: around) :=
  { h.within .step with inStep := fun _ => List.mem_cons_self }

end Setting.Tells

section Walk

variable (check : Option (Config → Option String)) {follow : Follow}

/-- What is done at the references among some mentions finds what is expected. -/
def Follow.FindsAt (source : Source) (p : Fault → Prop) (follow : Follow) (mentions : List String) : Prop :=
  ∀ span attributes body u, (∀ path, mentioned? attributes = some path → path ∈ mentions) →
    Finds source p (follow span attributes body u)

theorem Follow.FindsAt.mono {mentions fewer : List String} (h : follow.FindsAt source p mentions)
    (less : ∀ path ∈ fewer, path ∈ mentions) : follow.FindsAt source p fewer :=
  fun span attributes body u known => h span attributes body u fun path names => less path (known path names)

mutual

/-- **What a walk finds at tags is that they clash with tags around them.** All else is expected. -/
theorem walk_finds (other : ∀ f : Fault, f.defect.isMisplaced true = false → f.defect ≠ .circularReference → p f)
    {at_ : Setting} {around : List Tag} (tells : at_.Tells around) : ∀ n : Node,
    (∀ t ∈ n.tags around, ∀ f, t.Clashes f → p f) → follow.FindsAt source p n.mentions → ∀ u : Usage,
    Finds source p (walk check follow at_ n u)
  | .text _ data _, _, _, u => by
    unfold walk
    split
    · exact (Finds.of_same fun _ => ⟨rfl, rfl⟩).bind fun _ => .pure u
    · exact .pure u
  | .comment .., _, _, u => (Finds.of_same fun _ => ⟨rfl, rfl⟩).bind fun _ => .pure u
  | .config span data _, _, _, u => (finds_header other check _ span data).bind fun _ => .pure u
  | .interpolation _ e _, _, _, u =>
    (Finds.of_same fun _ => ⟨rfl, rfl⟩).bind fun _ => finds_track other e u
  | .group _ body _, clash, follows, u => walkAll_finds other tells body clash follows u
  | .choice _ test body none _, clash, follows, u =>
    (finds_track other test u).bind fun u => (walkAll_finds other (tells.atRoot false) body clash follows u).bind fun _ => .pure _
  | .choice _ test body (some otherwise) _, clash, follows, u => by
    refine (finds_track other test u).bind fun u => ?_
    refine (walkAll_finds other (tells.atRoot false) body (fun t member => clash t (List.mem_append_left _ member))
      (follows.mono fun _ => List.mem_append_left _) u).bind fun _ => ?_
    exact (walkAll_finds other (tells.atRoot false) otherwise (fun t member => clash t (List.mem_append_right _ member))
      (follows.mono fun _ => List.mem_append_right _) _).bind fun _ => .pure _
  | .loop _ items item index body none _, clash, follows, u =>
    (finds_track other items u).bind fun u =>
      finds_loopBody other (walkAll_finds other (tells.atRoot false) body clash follows) u item index
  | .loop _ items item index body (some otherwise) _, clash, follows, u => by
    refine (finds_track other items u).bind fun u => ?_
    refine (walkAll_finds other (tells.atRoot false) otherwise (fun t member => clash t (List.mem_append_right _ member))
      (follows.mono fun _ => List.mem_append_right _) u).bind fun _ => ?_
    exact finds_loopBody other (walkAll_finds other (tells.atRoot false) body
      (fun t member => clash t (List.mem_append_left _ member)) (follows.mono fun _ => List.mem_append_left _)) _ item index
  | .element span tag attributes body _, clash, follows, u => by
    have here := clash ⟨tag, span, around⟩ List.mem_cons_self
    have inside (t : Standing) (member : t ∈ Node.tagsAll (tag :: around) body) := clash t (List.mem_cons_of_mem _ member)
    have tells := tells.atRoot false
    refine (Finds.of_same fun _ => ⟨rfl, rfl⟩).bind fun _ => ?_
    cases tag with
    | content kind =>
      refine finds_content other (walkAll_finds other (tells.inContentTag kind) body inside follows) _ span attributes u kind ?_
      intro in_
      obtain ⟨kind, outer⟩ := tells.inContent in_
      exact here _ ⟨rfl, _, outer, rfl⟩
    | message role =>
      refine finds_message other (walkAll_finds other (tells.inMessageTag role) body inside follows) _ span attributes u role ?_
      intro in_
      rcases Bool.or_eq_true_iff.mp in_ with in_ | in_
      · obtain ⟨kind, outer⟩ := tells.inContent in_
        exact here _ ⟨rfl, _, outer, rfl⟩
      · obtain ⟨role, outer⟩ := tells.inMessage in_
        exact here _ ⟨rfl, _, outer, rfl⟩
    | scope => exact finds_closed other (walkAll_finds other (tells.within .scope) body inside follows) span attributes u
    | step =>
      refine finds_step other (walkAll_finds other tells.inStepTag body inside follows) _ span attributes u ?_
      exact fun in_ => here _ ⟨rfl, _, tells.inStep in_, rfl⟩
    | reference =>
      refine follows span attributes body u fun path names => ?_
      show path ∈ (mentioned? attributes).toList
      rw [names]
      exact List.mem_singleton.mpr rfl

theorem walkAll_finds (other : ∀ f : Fault, f.defect.isMisplaced true = false → f.defect ≠ .circularReference → p f)
    {at_ : Setting} {around : List Tag} (tells : at_.Tells around) : ∀ nodes : List Node,
    (∀ t ∈ Node.tagsAll around nodes, ∀ f, t.Clashes f → p f) → follow.FindsAt source p (Node.mentionsAll nodes) →
    ∀ u : Usage, Finds source p (walkAll check follow at_ nodes u)
  | [], _, _, u => .pure u
  | n :: r, clash, follows, u => by
    refine (walk_finds other tells n (fun t member => clash t (List.mem_append_left _ member))
      (follows.mono fun _ => List.mem_append_left _) u).bind fun u => ?_
    exact walkAll_finds other tells r (fun t member => clash t (List.mem_append_right _ member))
      (follows.mono fun _ => List.mem_append_right _) u

end

end Walk

end Survey
end PromptScript

/-! ## Tags within tags

Surveys and passes agree on which tags may stand in which. A survey that finds no tag within one that it must not stand
in speaks for all passes, and one that finds such a tag is right about it. -/
namespace PromptScript

/-- What can be wrong with the nesting of tags. -/
def Defect.nesting : List Defect := [.messageTagInsideMessage, .contentTagInsideContent, .stepTagInsideStep]

theorem Defect.isMisplaced_of_mem {refers : Bool} {defect : Defect} (h : defect ∈ nesting) :
    defect.isMisplaced refers = true := by
  rcases List.mem_cons.mp h with rfl | h
  · rfl
  · rcases List.mem_cons.mp h with rfl | h
    · rfl
    · obtain rfl := List.mem_singleton.mp h
      rfl

namespace Survey

variable {source : Source} {p : Fault → Prop}

/-- A defect of a document that is put in is told as one of the reference. -/
theorem isMisplaced_inReference (defect : Defect) : (inReference defect).isMisplaced true = false := by
  cases defect <;> rfl

section Follow

variable (calm : ∀ f : Fault, f.defect.isMisplaced true = false → p f)

include calm

theorem include?_finds (loader : Loader) (including : Include) (span : Span) (path : String) (given : Names) :
    Finds source p (include? loader including span path given) := by
  refine Finds.get fun s _ => Finds.ite (fun _ => Finds.reported (calm _ rfl) fun _ => .pure none) ?_
  split
  · exact Finds.reported (calm _ rfl) fun _ => .pure none
  · exact Finds.reported (calm _ rfl) fun _ => .pure none
  · refine (Finds.of_same fun _ => ⟨rfl, rfl⟩).bind fun _ => ?_
    refine (finds_reportMissing (fun f mild _ => calm f mild) _ given span).bind fun _ => ?_
    refine (Finds.forM fun fault _ => Finds.report (calm _ (isMisplaced_inReference fault.defect))).bind fun _ => ?_
    exact (Finds.of_same fun _ => ⟨rfl, rfl⟩).bind fun _ => .pure _

/-- What is done at a reference finds no tag of this document misplaced. -/
theorem follow_finds (loader : Option Loader) (including : Option Include) (mentions : List String) :
    (follow loader including).FindsAt source p mentions := by
  intro span attributes body u _
  refine Finds.ite (fun _ => Finds.reported (calm _ rfl) fun _ => .pure u) ?_
  refine (finds_attributeNames (fun f mild _ => calm f mild) _ _ _ _).bind fun (names, u) => ?_
  refine Finds.ite (fun _ => Finds.reported (calm _ rfl) fun _ => .pure u) ?_
  dsimp only
  split
  · exact Finds.reported (calm _ rfl) fun _ => .pure u
  · exact Finds.reported (calm _ rfl) fun _ => .pure u
  · exact .pure u
  · refine Finds.bind ?_ fun _ => .pure u
    refine Finds.get fun s _ => (include?_finds calm _ _ span _ names).bind fun _ => Finds.get fun s _ => ?_
    exact Finds.of_same fun _ => ⟨rfl, rfl⟩

end Follow
end Survey

namespace Source

variable {σ : Type} {source : Source} {options : SurveyOptions} {d : Document}

/-- A survey finds a tag misplaced only where it stands in one that it must not stand in. -/
theorem clashes_of_diagnostics (parsed : Document.parse source.content.toList = .ok d) {diagnostic : Diagnostic}
    (told : diagnostic ∈ (source.survey options none).diagnostics) (nesting : diagnostic.defect ∈ Defect.nesting) :
    ∃ t ∈ Node.tagsAll [] d.body, ∃ fault, t.Clashes fault ∧ diagnostic = Diagnostic.of source.content.toList fault := by
  let p (f : Fault) : Prop := f.defect.isMisplaced true = true → ∃ t ∈ Node.tagsAll [] d.body, t.Clashes f
  have calm (f : Fault) (mild : f.defect.isMisplaced true = false) : p f := fun not => nomatch mild.symm.trans not
  have visits : Survey.Finds source p (Survey.visit options d) := by
    have outside : Survey.Setting.Tells { atRoot := true } [] := ⟨nofun, nofun, nofun⟩
    refine (Survey.walkAll_finds options.check (fun f mild _ => calm f mild) outside d.body
      (fun t member f clash _ => ⟨t, member, clash⟩) (Survey.follow_finds calm _ _ _) _).bind fun u => ?_
    exact Survey.Finds.get fun s _ => Survey.Finds.reportIf (fun _ => calm _ rfl) (.pure u)
  obtain ⟨same, found, faults, fine⟩ := visits (SurveyState.start source) rfl
  rw [survey_of_parse parsed] at told
  obtain ⟨fault, member, rfl⟩ := List.mem_map.mp told
  rw [faults] at member
  obtain ⟨t, inside, clash⟩ := fine fault member (Defect.isMisplaced_of_mem nesting)
  exact ⟨t, inside, fault, clash, by rw [same]⟩

/-- **Surveys and passes agree on nesting.** Where the survey of a document finds no defect no call of a chain over it,
with whatever parameters, options and responses, finds a message in a message or a content tag, a content tag in a
content tag, or a step in a step. And a survey finds such a tag only where the tag stands in one of the other kind,
through whatever blocks and tags lie between them. -/
theorem nesting_agrees (host : Host σ) (parsed : Document.parse source.content.toList = .ok d) :
    ((source.survey options none).diagnostics = [] →
      ∀ parameters format settings chain responses world diagnostic,
        Chain.start source.content parameters format settings = .ok chain →
        .error (.document diagnostic) ∈ (Chain.calls (Expr.eval host) responses chain world).1 →
        diagnostic.defect ∉ Defect.nesting) ∧
    ∀ diagnostic ∈ (source.survey options none).diagnostics, diagnostic.defect ∈ Defect.nesting →
      ∃ t ∈ Node.tagsAll [] d.body, ∃ fault, t.Clashes fault ∧
        diagnostic = Diagnostic.of source.content.toList fault := by
  constructor
  · intro clean parameters format settings chain responses world diagnostic begins failed nesting
    obtain ⟨-, -, -, -, -, -, parsed', -⟩ := Chain.start_eq_ok begins
    obtain rfl := Except.ok.inj (parsed.symm.trans parsed')
    have mild := Chain.calls_mild (Expr.mild_eval host) (placed parsed clean) responses world failed
    rw [Defect.isMisplaced_of_mem nesting] at mild
    cases mild
  · intro diagnostic told nesting
    exact clashes_of_diagnostics parsed told nesting

/-- A message in a choice in a closed part, and a content tag in a loop in that message. -/
def nestedGreeting : Source :=
  ⟨"main", "<scope y=\"1\">\x7b\x7b if y \x7d\x7d<user>\x7b\x7b for x in [1] \x7d\x7d<content-text>a</content-text>" ++
    "\x7b\x7b endfor \x7d\x7d</user>\x7b\x7b endif \x7d\x7d</scope><step>b</step>"⟩

/-- A message in a choice in a step in a message. -/
def nestedMessage : Source :=
  ⟨"main", "<user><step>\x7b\x7b if y \x7d\x7d<assistant>a</assistant>\x7b\x7b endif \x7d\x7d</step></user>"⟩

/-- No call finds a tag misplaced in the one; in the other the survey finds the inner message, with the step and the
outer message around it. -/
theorem nesting_of_messages :
    (∃ d, Document.parse nestedGreeting.content.toList = .ok d ∧ (nestedGreeting.survey {} none).diagnostics = [] ∧
      ∀ chain responses world diagnostic, Chain.start nestedGreeting.content [] .canonical {} = .ok chain →
        .error (.document diagnostic) ∈ (Chain.calls (Expr.eval Host.idle) responses chain world).1 →
        diagnostic.defect ∉ Defect.nesting) ∧
    ∃ d, Document.parse nestedMessage.content.toList = .ok d ∧
      ∃ diagnostic ∈ (nestedMessage.survey {} none).diagnostics, diagnostic.defect = .messageTagInsideMessage ∧
        ∃ t ∈ Node.tagsAll [] d.body, ∃ fault, t.Clashes fault ∧
          diagnostic = Diagnostic.of nestedMessage.content.toList fault := by
  constructor
  · have clean : (nestedGreeting.survey {} none).diagnostics = [] := by decide +kernel
    cases parsed : Document.parse nestedGreeting.content.toList with
    | error diagnostic =>
      have fine : (Document.parse nestedGreeting.content.toList).isOk = true := by decide +kernel
      rw [parsed] at fine
      cases fine
    | ok d =>
      refine ⟨d, rfl, clean, fun chain responses world diagnostic => ?_⟩
      exact (nesting_agrees Host.idle parsed).1 clean [] .canonical {} chain responses world diagnostic
  · have told : (nestedMessage.survey {} none).diagnostics.map (·.defect) = [.messageTagInsideMessage] := by decide +kernel
    cases parsed : Document.parse nestedMessage.content.toList with
    | error diagnostic =>
      have fine : (Document.parse nestedMessage.content.toList).isOk = true := by decide +kernel
      rw [parsed] at fine
      cases fine
    | ok d =>
      have member : Defect.messageTagInsideMessage ∈ (nestedMessage.survey {} none).diagnostics.map (·.defect) := by
        rw [told]
        exact List.mem_singleton.mpr rfl
      obtain ⟨diagnostic, member, same⟩ := List.mem_map.mp member
      refine ⟨d, rfl, diagnostic, member, same, ?_⟩
      exact (nesting_agrees Host.idle parsed).2 diagnostic member (same ▸ List.mem_cons_self)

end Source
end PromptScript
