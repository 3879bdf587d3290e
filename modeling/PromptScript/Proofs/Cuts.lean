import PromptScript.Proofs.Splices
import PromptScript.Survey.Report

/-! # The text of a survey

A survey cuts comments and the header out of the text of a document. It comes to the other part of a loop before its
body, so that a loop with something to cut out in both has its body cut in the wrong place; in every other document
without references what is left is the source without comments and header, and nothing else is touched. -/
namespace PromptScript

namespace Node

mutual

/-- The spans of the comments and headers in a node, in the order in which a survey comes to them. -/
def cuts : Node → List Span
  | text _ _ _ | interpolation _ _ _ => []
  | comment span _ _ | config span _ _ => [span]
  | choice _ _ body none _ => cutsAll body
  | choice _ _ body (some other) _ => cutsAll body ++ cutsAll other
  | loop _ _ _ _ body none _ => cutsAll body
  | loop _ _ _ _ body (some other) _ => cutsAll other ++ cutsAll body
  | element _ _ _ body _ => cutsAll body
  | group _ body _ => cutsAll body

def cutsAll : List Node → List Span
  | [] => []
  | n :: r => cuts n ++ cutsAll r

end

mutual

/-- Whether somewhere in the node a loop has something to cut out in its body and in its other part. -/
def crossed : Node → Bool
  | text _ _ _ | comment _ _ _ | config _ _ _ | interpolation _ _ _ => false
  | choice _ _ body none _ => crossedAll body
  | choice _ _ body (some other) _ => crossedAll body || crossedAll other
  | loop _ _ _ _ body none _ => crossedAll body
  | loop _ _ _ _ body (some other) _ =>
    (!(cutsAll body).isEmpty && !(cutsAll other).isEmpty) || (crossedAll body || crossedAll other)
  | element _ _ _ body _ => crossedAll body
  | group _ body _ => crossedAll body

def crossedAll : List Node → Bool
  | [] => false
  | n :: r => crossed n || crossedAll r

end

mutual

/-- Whether a reference to another document stands in the node. -/
def refers : Node → Bool
  | text _ _ _ | comment _ _ _ | config _ _ _ | interpolation _ _ _ => false
  | choice _ _ body none _ => refersAll body
  | choice _ _ body (some other) _ => refersAll body || refersAll other
  | loop _ _ _ _ body none _ => refersAll body
  | loop _ _ _ _ body (some other) _ => refersAll body || refersAll other
  | element _ tag _ body _ => tag = .reference || refersAll body
  | group _ body _ => refersAll body

def refersAll : List Node → Bool
  | [] => false
  | n :: r => refers n || refersAll r

end

variable {source : List Char}

/-- Cuts between two offsets, and in order unless a loop is crossed. -/
structure CutsWithin (source : List Char) (a b : Nat) (cuts : List Span) (crossed : Bool) : Prop where
  le : a ≤ b
  of : ∀ s ∈ cuts, s.Of source
  first : ∀ s ∈ cuts, a ≤ s.start
  last : ∀ s ∈ cuts, s.stop ≤ b
  ordered : cuts.Pairwise Span.Before ↔ crossed = false

namespace CutsWithin

variable {a b c d : Nat} {l l' : List Span} {p p' : Bool}

theorem none (le : a ≤ b) : CutsWithin source a b [] false := ⟨le, nofun, nofun, nofun, by simp⟩

theorem widen (h : CutsWithin source b c l p) (first : a ≤ b) (last : c ≤ d) : CutsWithin source a d l p :=
  ⟨Nat.le_trans first (Nat.le_trans h.le last), h.of, fun s mem => Nat.le_trans first (h.first s mem),
    fun s mem => Nat.le_trans (h.last s mem) last, h.ordered⟩

/-- What lies behind comes after. -/
theorem append (h : CutsWithin source a b l p) (h' : CutsWithin source c d l' p') (between : b ≤ c) :
    CutsWithin source a d (l ++ l') (p || p') := by
  have ab := h.le
  have cd := h'.le
  refine ⟨by omega, ?_, ?_, ?_, ?_⟩
  · intro s mem
    exact (List.mem_append.mp mem).elim (h.of s) (h'.of s)
  · intro s mem
    rcases List.mem_append.mp mem with mem | mem
    · exact h.first s mem
    · have := h'.first s mem
      omega
  · intro s mem
    rcases List.mem_append.mp mem with mem | mem
    · have := h.last s mem
      omega
    · exact h'.last s mem
  · have across : ∀ s ∈ l, ∀ t ∈ l', s.Before t := fun s mem t mem' =>
      Nat.le_trans (h.last s mem) (Nat.le_trans between (h'.first t mem'))
    rw [List.pairwise_append, h.ordered, h'.ordered, Bool.or_eq_false_iff]
    exact ⟨fun ⟨first, second, _⟩ => ⟨first, second⟩, fun ⟨first, second⟩ => ⟨first, second, across⟩⟩

/-- What lies behind but comes before is out of order, unless there is nothing on one side. -/
theorem swap (h : CutsWithin source a b l p) (h' : CutsWithin source c d l' p') (between : b ≤ c) :
    CutsWithin source a d (l' ++ l) ((!l.isEmpty && !l'.isEmpty) || (p || p')) := by
  have ab := h.le
  have cd := h'.le
  refine ⟨by omega, ?_, ?_, ?_, ?_⟩
  · intro s mem
    exact (List.mem_append.mp mem).elim (h'.of s) (h.of s)
  · intro s mem
    rcases List.mem_append.mp mem with mem | mem
    · have := h'.first s mem
      omega
    · exact h.first s mem
  · intro s mem
    rcases List.mem_append.mp mem with mem | mem
    · exact h'.last s mem
    · have := h.last s mem
      omega
  · have across : (∀ t ∈ l', ∀ s ∈ l, t.Before s) ↔ (!l.isEmpty && !l'.isEmpty) = false := by
      cases l with
      | nil => simp
      | cons s l =>
        cases l' with
        | nil => simp
        | cons t l' =>
          refine ⟨fun all => ?_, nofun⟩
          have before : t.stop ≤ s.start := all t List.mem_cons_self s List.mem_cons_self
          have first := h'.first t List.mem_cons_self
          have proper := (h'.of t List.mem_cons_self).proper
          have last := h.last s List.mem_cons_self
          have proper' := (h.of s List.mem_cons_self).proper
          omega
    rw [List.pairwise_append, h.ordered, h'.ordered, across, Bool.or_eq_false_iff, Bool.or_eq_false_iff]
    exact ⟨fun ⟨first, second, third⟩ => ⟨third, second, first⟩, fun ⟨third, second, first⟩ => ⟨first, second, third⟩⟩

end CutsWithin

mutual

theorem cuts_within (n : Node) (laid : n.Laid source) (of : n.span.Of source) :
    CutsWithin source n.span.start n.span.stop n.cuts n.crossed :=
  match n, laid with
  | text _ _ _, _ | interpolation _ _ _, _ => .none (Nat.le_of_lt of.proper)
  | comment span _ _, _ | config span _ _, _ => by
    refine ⟨Nat.le_of_lt of.proper, ?_, ?_, ?_, by simp [cuts, crossed]⟩
    all_goals
      rintro s (_ | ⟨_, ⟨⟩⟩)
    · exact of
    · exact Nat.le_refl _
    · exact Nat.le_refl _
  | choice _ _ body none _, ⟨_, _, first, last, laid⟩ => (cutsAll_within body laid).widen first last
  | choice _ _ body (some other) _, ⟨_, _, _, _, first, between, last, laid, laid'⟩ =>
    ((cutsAll_within body laid).append (cutsAll_within other laid') between).widen first last
  | loop _ _ _ _ body none _, ⟨_, _, first, last, laid⟩ => (cutsAll_within body laid).widen first last
  | loop _ _ _ _ body (some other) _, ⟨_, _, _, _, first, between, last, laid, laid'⟩ =>
    ((cutsAll_within body laid).swap (cutsAll_within other laid') between).widen first last
  | element _ _ _ body _, ⟨_, _, first, last, laid⟩ => (cutsAll_within body laid).widen first last
  | group _ body _, ⟨_, _, first, last, laid⟩ => (cutsAll_within body laid).widen first last

theorem cutsAll_within {a b : Nat} (nodes : List Node) (laid : LaidAll source a nodes b) :
    CutsWithin source a b (cutsAll nodes) (crossedAll nodes) :=
  match nodes, laid with
  | [], same => .none (Nat.le_of_eq same)
  | n :: r, ⟨start, proper, first, last, laid', rest⟩ => by
    subst start
    exact (cuts_within n laid' ⟨proper, first, last⟩).append (cutsAll_within r rest) (Nat.le_refl _)

end

end Node

/-! ## What a survey does to the text -/

namespace Survey

variable {α β : Type} {l l' : List Span}

/-- A part of a survey that cuts the given spans out, one after the other, unless it finds a defect. -/
structure Cuts (l : List Span) (part : Survey α) : Prop where
  le (s : SurveyState) : s.faults.length ≤ (part.run s).2.faults.length
  resolved (s : SurveyState) (clean : (part.run s).2.faults.length = s.faults.length) :
    (part.run s).2.resolved = s.resolved.cutAll l

namespace Cuts

theorem pure (a : α) : Cuts [] (Pure.pure a : Survey α) := ⟨fun _ => Nat.le_refl _, fun _ _ => rfl⟩

theorem bind {x : Survey α} {f : α → Survey β} (hx : Cuts l x) (hf : ∀ a, Cuts l' (f a)) : Cuts (l ++ l') (x >>= f) := by
  refine ⟨fun s => Nat.le_trans (hx.le s) ((hf _).le _), fun s clean => ?_⟩
  have first := hx.le s
  have second := (hf (x.run s).1).le (x.run s).2
  have clean : ((f (x.run s).1).run (x.run s).2).2.faults.length = s.faults.length := clean
  show ((f (x.run s).1).run (x.run s).2).2.resolved = _
  rw [(hf _).resolved _ (by omega), hx.resolved s (by omega), Splicing.cutAll, Splicing.cutAll, Splicing.cutAll,
    List.foldl_append]

/-- What changes neither the faults nor the text cuts nothing out. -/
theorem of_same {part : Survey α}
    (same : ∀ s, (part.run s).2.faults = s.faults ∧ (part.run s).2.resolved = s.resolved) : Cuts [] part :=
  ⟨fun s => Nat.le_of_eq (congrArg List.length (same s).1.symm), fun s _ => (same s).2⟩

/-- A part that finds a defect says nothing of the text. -/
theorem report (defect : Defect) (span : Span) : Cuts l (Survey.report defect span) := by
  have more (s : SurveyState) : ((Survey.report defect span).run s).2.faults.length = s.faults.length + 1 :=
    List.length_append ..
  exact ⟨fun s => by rw [more]; exact Nat.le_succ _, fun s clean => by rw [more] at clean; omega⟩

theorem adds {part : Survey α} (more : ∀ s, ∃ faults, (part.run s).2.faults = s.faults ++ faults)
    (same : ∀ s, (part.run s).2.resolved = s.resolved) : Cuts [] part := by
  refine ⟨fun s => ?_, fun s _ => same s⟩
  obtain ⟨faults, more⟩ := more s
  rw [more, List.length_append]
  exact Nat.le_add_right ..

/-- Parts that cut nothing out may stand anywhere. -/
theorem andThen {x : Survey α} {f : α → Survey β} (hx : Cuts [] x) (hf : ∀ a, Cuts l (f a)) : Cuts l (x >>= f) :=
  hx.bind hf

theorem after {x : Survey α} {f : α → Survey β} (hx : Cuts l x) (hf : ∀ a, Cuts [] (f a)) : Cuts l (x >>= f) := by
  have both := hx.bind hf
  rwa [List.append_nil] at both

theorem ite {p : Prop} [Decidable p] {x y : Survey α} (hx : Cuts l x) (hy : Cuts l y) :
    Cuts l (if p then x else y) := by
  split
  · exact hx
  · exact hy

/-- A defect that is found on the way to anything. -/
theorem reportIf {p : Prop} [Decidable p] {defect : Defect} {span : Span} {rest : Survey α} (h : Cuts l rest) :
    Cuts l (if p then Survey.report defect span >>= fun _ => rest else rest) := by
  split
  · exact (report (l := []) defect span).andThen fun _ => h
  · exact h

theorem get : Cuts [] (MonadState.get : Survey SurveyState) := of_same fun _ => ⟨rfl, rfl⟩

theorem markContent : Cuts [] markContent := of_same fun _ => ⟨rfl, rfl⟩

theorem dropCalls : Cuts [] dropCalls := of_same fun _ => ⟨rfl, rfl⟩

theorem reportCalls : Cuts [] reportCalls := adds (fun _ => ⟨_, rfl⟩) fun _ => rfl

theorem track (e : Expr) (u : Usage) : Cuts [] (track e u) := adds (fun _ => ⟨_, rfl⟩) fun _ => rfl

theorem splice (span : Span) : Cuts [span] (splice span []) := ⟨fun _ => Nat.le_refl _, fun _ _ => rfl⟩

theorem forM {γ : Type} {f : γ → Survey PUnit} (h : ∀ x, Cuts [] (f x)) (xs : List γ) : Cuts [] (xs.forM f) := by
  induction xs with
  | nil => exact .pure _
  | cons x xs ih => exact (h x).andThen fun _ => ih

theorem reportMissing (names given : Names) (span : Span) : Cuts [] (reportMissing names given span) :=
  forM (fun _ => report ..) _

theorem trackParts (parts : List Node) (u : Usage) : Cuts [] (trackParts parts u) := by
  induction parts generalizing u with
  | nil => exact .pure _
  | cons n r ih =>
    cases n with
    | interpolation span e p => exact (track e u).andThen fun u => ih u
    | _ => exact ih u

theorem attributeNames (static : List String) (attributes : List Attribute) (names : Names) (u : Usage) :
    Cuts [] (attributeNames static attributes names u) := by
  induction attributes generalizing names u with
  | nil => exact .pure _
  | cons a r ih =>
    obtain ⟨span, name, value⟩ := a
    cases value with
    | flag => exact ih ..
    | nodes parts =>
      unfold Survey.attributeNames
      split
      · exact (report ..).andThen fun _ => ih ..
      · exact (trackParts parts u).andThen fun _ => ih ..

/-! ### Nodes -/

theorem settings (span : Span) (data : String) : Cuts [] (settings span data) := by
  unfold Survey.settings
  split
  · exact .pure _
  · exact (report ..).andThen fun _ => .pure _

theorem checkSettings (check : Option (Config → Option String)) (span : Span) (config : Config) :
    Cuts [] (checkSettings check span config) := by
  unfold Survey.checkSettings
  split
  · exact report ..
  · exact .pure _

theorem header (check : Option (Config → Option String)) (atRoot : Bool) (span : Span) (data : String) :
    Cuts [span] (header check atRoot span data) := by
  refine (splice span).after fun _ => get.andThen fun s => reportIf (reportIf (reportIf ?_))
  exact (settings ..).andThen fun _ => (checkSettings ..).andThen fun _ => of_same fun _ => ⟨rfl, rfl⟩

section Tags

variable {body : Usage → Survey Usage} (h : ∀ u, Cuts l (body u))

include h

theorem content (at_ : Setting) (span : Span) (kind : Option ContentKind) (attributes : List Attribute) (u : Usage) :
    Cuts l (content at_ span kind attributes u body) := by
  refine reportIf (ite ?_ (h _))
  refine andThen (of_same fun _ => ⟨rfl, rfl⟩) fun _ => (attributeNames ..).andThen fun _ => ?_
  exact reportIf (reportIf (h _))

theorem messageBody (role : Option Role) (u : Usage) : Cuts l (messageBody role u body) := by
  refine reportCalls.andThen fun _ => (h u).after fun _ => ?_
  have rest (u : Usage) : Cuts [] (do Survey.dropCalls; return u) := dropCalls.andThen fun _ => .pure _
  exact ite (reportCalls.andThen fun _ => rest _) (rest _)

theorem message (at_ : Setting) (span : Span) (role : Option Role) (attributes : List Attribute) (u : Usage) :
    Cuts l (message at_ span role attributes u body) := by
  refine reportIf ((attributeNames ..).andThen fun _ => ite ?_ ?_)
  · exact (report ..).after fun _ => .pure _
  · dsimp only
    split
    · exact (report ..).after fun _ => .pure _
    · exact messageBody h ..

theorem closed (span : Span) (attributes : List Attribute) (u : Usage) : Cuts l (closed span attributes u body) :=
  (attributeNames ..).andThen fun _ => (h _).after fun _ => (reportMissing ..).andThen fun _ => .pure _

theorem step (at_ : Setting) (span : Span) (attributes : List Attribute) (u : Usage) :
    Cuts l (step at_ span attributes u body) := by
  refine andThen (of_same fun _ => ⟨rfl, rfl⟩) fun _ => reportIf ?_
  exact (attributeNames ..).andThen fun _ => (h _).after fun _ => .pure _

theorem loopBody (item : Binding) (index : Option Binding) (u : Usage) : Cuts l (loopBody item index u body) := by
  unfold Survey.loopBody
  split
  · exact (report ..).after fun _ => .pure _
  · exact (h _).after fun _ => .pure _

end Tags

variable (check : Option (Config → Option String)) (follow : Follow)

mutual

/-- The walk over a node without references cuts out its comments and headers. -/
theorem walk (at_ : Setting) (n : Node) (u : Usage) (plain : n.refers = false) :
    Cuts n.cuts (walk check follow at_ n u) :=
  match n, plain with
  | .group _ body _, plain => walkAll at_ body u plain
  | .comment span _ _, _ => (splice span).after fun _ => .pure _
  | .config span data _, _ => (header ..).after fun _ => .pure _
  | .text _ data _, _ => ite (markContent.andThen fun _ => .pure _) (.pure _)
  | .interpolation _ e _, _ => markContent.andThen fun _ => track e u
  | .choice _ test body none _, plain =>
    (track test u).andThen fun _ => (walkAll _ body _ plain).after fun _ => .pure _
  | .choice _ test body (some other) _, plain =>
    (track test u).andThen fun _ => (walkAll _ body _ (Bool.or_eq_false_iff.mp plain).1).bind fun _ =>
      (walkAll _ other _ (Bool.or_eq_false_iff.mp plain).2).after fun _ => .pure _
  | .loop _ items item index body none _, plain =>
    (track items u).andThen fun _ => loopBody (fun u => walkAll _ body u plain) ..
  | .loop _ items item index body (some other) _, plain =>
    (track items u).andThen fun _ => (walkAll _ other _ (Bool.or_eq_false_iff.mp plain).2).bind fun _ =>
      loopBody (fun u => walkAll _ body u (Bool.or_eq_false_iff.mp plain).1) ..
  | .element span tag attributes body _, plain => by
    have inside (at_ : Setting) (u : Usage) := walkAll at_ body u (Bool.or_eq_false_iff.mp plain).2
    refine markContent.andThen fun _ => ?_
    cases tag with
    | content kind => exact content (inside _) ..
    | message role => exact message (inside _) ..
    | reference => exact nomatch plain
    | scope => exact closed (inside _) ..
    | step => exact step (inside _) ..

theorem walkAll (at_ : Setting) (nodes : List Node) (u : Usage) (plain : Node.refersAll nodes = false) :
    Cuts (Node.cutsAll nodes) (walkAll check follow at_ nodes u) :=
  match nodes, plain with
  | [], _ => .pure _
  | n :: r, plain => (walk at_ n u (Bool.or_eq_false_iff.mp plain).1).bind fun u => walkAll at_ r u (Bool.or_eq_false_iff.mp plain).2

end

end Cuts
end Survey

/-! ## The text of a document without comments and header -/

namespace Source

variable {source : Source} {options : SurveyOptions} {d : Document}

/-- A survey that finds no defect in a document without references makes just the cuts of the document. -/
theorem resolved_eq_cutAll (parsed : Document.parse source.content.toList = .ok d)
    (plain : Node.refersAll d.body = false) (clean : (source.survey options none).diagnostics = []) :
    (source.survey options none).resolved = String.ofList (Report.underHeader (source.survey options none).config
      ((Splicing.start source.content.toList).cutAll (Node.cutsAll d.body)).text) := by
  let start := SurveyState.start source
  let run := Survey.visit options d
  have cuts : Survey.Cuts (Node.cutsAll d.body) run :=
    (Survey.Cuts.walkAll _ _ _ _ _ plain).after fun _ => Survey.Cuts.get.andThen fun _ =>
      Survey.Cuts.reportIf (.pure _)
  rw [survey_of_parse parsed] at clean ⊢
  have none : (run.run start).2.faults = [] := List.map_eq_nil_iff.mp clean
  show String.ofList (Report.underHeader _ (run.run start).2.resolved.text) = _
  rw [cuts.resolved start (by rw [none]; rfl)]
  rfl

/-- **What is left of a source.** Where no loop has something to cut out in its body and in its other part, and only
there, every comment and header is looked for where it stands. The text is then the source without them: each is
found as whole characters, and nothing else is touched. -/
theorem resolved_exact_iff (parsed : Document.parse source.content.toList = .ok d)
    (plain : Node.refersAll d.body = false) (clean : (source.survey options none).diagnostics = []) :
    let text := source.content.toList
    let cuts := Node.cutsAll d.body
    let report := source.survey options none
    report.resolved = String.ofList
        (Report.underHeader report.config ((Splicing.start text).cutAll cuts).text) ∧
      (Splicing.Exact text cuts ↔ Node.crossedAll d.body = false) ∧
      (Node.crossedAll d.body = false →
        report.resolved = String.ofList (Report.underHeader report.config (Text.outside cuts 0 text)) ∧
        ∀ before span after, cuts = before ++ span :: after →
          Splicing.Takes text ((Splicing.start text).cutAll before) span) := by
  have within := Node.cutsAll_within d.body (Grammar.laidAll_of_parse parsed).2
  have made := resolved_eq_cutAll parsed plain clean
  refine ⟨made, ?_, fun straight => ⟨?_, fun before span after split => ?_⟩⟩
  · rw [Splicing.exact_iff_ordered within.of, within.ordered]
  · rw [made, Splicing.text_cutAll (within.ordered.mpr straight) within.of]
  · exact Splicing.takes_of_ordered (within.ordered.mpr straight) within.of split

/-- A choice with comments in both branches. -/
def commentedChoice : Source := ⟨"main", "\x7b\x7b if x \x7d\x7d/*a*/é\x7b\x7b else \x7d\x7d/*c*/d\x7b\x7b endif \x7d\x7d"⟩

/-- Comments in both branches of a choice are gone, and all else is left. -/
theorem resolved_of_commentedChoice : ∃ d, Document.parse commentedChoice.content.toList = .ok d ∧
    (commentedChoice.survey {} none).resolved =
      String.ofList (Report.underHeader [] (Text.outside (Node.cutsAll d.body) 0 commentedChoice.content.toList)) := by
  have straight : (Document.parse commentedChoice.content.toList).toOption.map (fun d =>
      (Node.refersAll d.body, Node.crossedAll d.body)) = some (false, false) := by decide +kernel
  have clean : (commentedChoice.survey {} none).diagnostics = [] := by decide +kernel
  have config : (commentedChoice.survey {} none).config = [] := by decide +kernel
  cases parsed : Document.parse commentedChoice.content.toList with
  | error diagnostic => rw [parsed] at straight; cases straight
  | ok d =>
    rw [parsed] at straight
    obtain ⟨plain, straight⟩ := Prod.mk.inj (Option.some.inj straight)
    have exact := ((@resolved_exact_iff commentedChoice {} d parsed plain clean).2.2 straight).1
    rw [config] at exact
    exact ⟨d, rfl, exact⟩

/-- A loop with comments in its body and in its other part. -/
def crossedLoop : Source := ⟨"main", "\x7b\x7b for x in y \x7d\x7d/*a*/b\x7b\x7b else \x7d\x7d/*c*/d\x7b\x7b endfor \x7d\x7d"⟩

/-- Of such a loop other text is cut out than its comments, without any defect found. -/
theorem resolved_of_crossedLoop :
    (crossedLoop.survey {} none).diagnostics = [] ∧
      (crossedLoop.survey {} none).resolved = "\x7b\x7b for x in/*a*/b\x7b\x7b else \x7d\x7dd\x7b\x7b endfor \x7d\x7d" ∧
      (Document.parse crossedLoop.content.toList).toOption.map (fun d =>
        (Node.refersAll d.body, String.ofList (Text.outside (Node.cutsAll d.body) 0 crossedLoop.content.toList))) =
        some (false, "\x7b\x7b for x in y \x7d\x7db\x7b\x7b else \x7d\x7dd\x7b\x7b endfor \x7d\x7d") := by
  decide +kernel

end Source
end PromptScript
