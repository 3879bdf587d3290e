import PromptScript.Proofs.Changes
import PromptScript.Proofs.Findings
import PromptScript.Proofs.Tandem

/-! # Documents that are put in

A survey that finds no defect has made the changes of its document, and has put in a document at every reference, in
which it has found no defect either. -/
namespace PromptScript

/-- Whether the document that a change puts in is there. -/
def Change.Loaded (loaded : String → Prop) : Change → Prop
  | .cut _ => True
  | .inclusion _ _ path => loaded path

namespace Survey

variable {α β : Type} {source : Source} {loaded : String → Prop} {included : String → List Char}

/-- A part of the survey of a source that makes changes one after the other, for documents that are there, unless it
finds a defect. -/
structure Makes (source : Source) (loaded : String → Prop) (included : String → List Char) (l : List Change)
    (part : Survey α) : Prop where
  stays : ∀ s : SurveyState, s.source = source → (part.run s).2.source = source
  le : ∀ s : SurveyState, s.source = source → s.faults.length ≤ (part.run s).2.faults.length
  made : ∀ s : SurveyState, s.source = source → (part.run s).2.faults.length = s.faults.length →
    (∀ change ∈ l, change.Loaded loaded) ∧ (part.run s).2.resolved = s.resolved.changeAll included l

namespace Makes

variable {l l' : List Change} {x : Survey α} {f : α → Survey β}

theorem pure (a : α) : Makes source loaded included [] (Pure.pure a : Survey α) :=
  ⟨fun _ here => here, fun _ _ => Nat.le_refl _, fun _ _ _ => ⟨List.forall_mem_nil _, rfl⟩⟩

theorem bind (hx : Makes source loaded included l x) (hf : ∀ a, Makes source loaded included l' (f a)) :
    Makes source loaded included (l ++ l') (x >>= f) := by
  have later (s : SurveyState) (here : s.source = source) := (hf (x.run s).1).le _ (hx.stays s here)
  refine ⟨fun s here => (hf _).stays _ (hx.stays s here), fun s here => Nat.le_trans (hx.le s here) (later s here), ?_⟩
  intro s here clean
  have first := hx.le s here
  have second := later s here
  have clean : ((f (x.run s).1).run (x.run s).2).2.faults.length = s.faults.length := clean
  obtain ⟨ready, text⟩ := hx.made s here (by omega)
  obtain ⟨ready', text'⟩ := (hf (x.run s).1).made _ (hx.stays s here) (by omega)
  refine ⟨fun change mem => (List.mem_append.mp mem).elim (ready change) (ready' change), text'.trans ?_⟩
  rw [text, Splicing.changeAll, Splicing.changeAll, Splicing.changeAll, List.foldl_append]

/-- What a part cuts out that stays in the document. -/
theorem of_cuts {cuts : List Span} {part : Survey α} (h : Cuts cuts part) (stays : Finds source (fun _ => True) part) :
    Makes source loaded included (cuts.map .cut) part where
  stays s here := (stays s here).1
  le s _ := h.le s
  made s _ clean := by
    refine ⟨fun change mem => ?_, (h.resolved s clean).trans ?_⟩
    · obtain ⟨span, -, rfl⟩ := List.mem_map.mp mem
      trivial
    · rw [Splicing.changeAll, List.foldl_map]
      rfl

/-- A part that finds a defect says nothing of what it makes. -/
theorem report (defect : Defect) (span : Span) : Makes source loaded included l (Survey.report defect span) := by
  have more (s : SurveyState) : ((Survey.report defect span).run s).2.faults.length = s.faults.length + 1 :=
    List.length_append ..
  refine ⟨fun _ here => here, fun s _ => ?_, fun s _ clean => ?_⟩
  · rw [more]
    exact Nat.le_succ _
  · rw [more] at clean
    omega

/-- Parts that make nothing may stand before and after others. -/
theorem andThen (hx : Makes source loaded included [] x) (hf : ∀ a, Makes source loaded included l (f a)) :
    Makes source loaded included l (x >>= f) := hx.bind hf

theorem after (hx : Makes source loaded included l x) (hf : ∀ a, Makes source loaded included [] (f a)) :
    Makes source loaded included l (x >>= f) := by
  have both := hx.bind hf
  rwa [List.append_nil] at both

theorem ite {p : Prop} [Decidable p] {x y : Survey α} (hx : Makes source loaded included l x)
    (hy : Makes source loaded included l y) : Makes source loaded included l (if p then x else y) := by
  split
  · exact hx
  · exact hy

theorem reportIf {p : Prop} [Decidable p] {defect : Defect} {span : Span} {rest : Survey α}
    (h : Makes source loaded included l rest) :
    Makes source loaded included l (if p then Survey.report defect span >>= fun _ => rest else rest) :=
  ite (andThen (report defect span) fun _ => h) h

/-! ### Leaves -/

theorem quiet {part : Survey α} (same : ∀ s, (part.run s).2.source = s.source ∧ (part.run s).2.faults = s.faults ∧
    (part.run s).2.resolved = s.resolved) : Makes source loaded included [] part :=
  of_cuts (.of_same fun s => (same s).2) (.of_same fun s => ⟨(same s).1, (same s).2.1⟩)

theorem track (e : Expr) (u : Usage) : Makes source loaded included [] (track e u) :=
  of_cuts (.track e u) (finds_track (fun _ _ _ => trivial) e u)

theorem attributeNames (static : List String) (attributes : List Attribute) (names : Names) (u : Usage) :
    Makes source loaded included [] (attributeNames static attributes names u) :=
  of_cuts (.attributeNames static attributes names u) (finds_attributeNames (fun _ _ _ => trivial) static attributes names u)

theorem reportCalls : Makes source loaded included [] reportCalls :=
  of_cuts .reportCalls (finds_reportCalls fun _ _ _ => trivial)

theorem reportMissing (names given : Names) (span : Span) :
    Makes source loaded included [] (reportMissing names given span) :=
  of_cuts (.reportMissing names given span) (finds_reportMissing (fun _ _ _ => trivial) names given span)

theorem header (check : Option (Config → Option String)) (atRoot : Bool) (span : Span) (data : String) :
    Makes source loaded included [.cut span] (header check atRoot span data) :=
  of_cuts (.header check atRoot span data) (finds_header (fun _ _ _ => trivial) check atRoot span data)

theorem splice (span : Span) : Makes source loaded included [.cut span] (splice span []) :=
  of_cuts (.splice span) (.of_same fun _ => ⟨rfl, rfl⟩)

/-! ### Tags -/

section Tags

variable {body : Usage → Survey Usage} (h : ∀ u, Makes source loaded included l (body u)) (at_ : Setting) (span : Span)
  (attributes : List Attribute) (u : Usage)

include h

theorem content (kind : Option ContentKind) :
    Makes source loaded included l (content at_ span kind attributes u body) := by
  refine reportIf (ite ?_ (h u))
  refine (quiet fun _ => ⟨rfl, rfl, rfl⟩).andThen fun _ => (attributeNames ..).andThen fun _ => ?_
  exact reportIf (reportIf (h _))

theorem messageBody (role : Option Role) : Makes source loaded included l (messageBody role u body) := by
  refine reportCalls.andThen fun _ => (h u).after fun u => ?_
  have rest : Makes source loaded included [] (do dropCalls; return u : Survey Usage) :=
    (quiet fun _ => ⟨rfl, rfl, rfl⟩).andThen fun _ => .pure u
  exact ite (reportCalls.andThen fun _ => rest) rest

theorem message (role : Option Role) : Makes source loaded included l (message at_ span role attributes u body) := by
  refine reportIf ((attributeNames ..).andThen fun _ => ite ?_ ?_)
  · exact (report _ span).after fun _ => .pure _
  · dsimp only
    split
    · exact (report _ span).after fun _ => .pure _
    · exact messageBody h _ _

theorem closed : Makes source loaded included l (closed span attributes u body) :=
  (attributeNames ..).andThen fun _ => (h _).after fun _ => (reportMissing ..).andThen fun _ => .pure _

theorem step : Makes source loaded included l (step at_ span attributes u body) := by
  refine (quiet fun _ => ⟨rfl, rfl, rfl⟩).andThen fun _ => reportIf ?_
  exact (attributeNames ..).andThen fun _ => (h _).after fun _ => .pure _

theorem loopBody (item : Binding) (index : Option Binding) :
    Makes source loaded included l (loopBody item index u body) := by
  unfold Survey.loopBody
  split
  · exact (report _ _).after fun _ => .pure _
  · exact (h _).after fun _ => .pure _

end Tags

/-! ### The walk -/

/-- What is done at references makes their changes. -/
def AtReferences (source : Source) (loaded : String → Prop) (included : String → List Char) (follow : Follow) : Prop :=
  ∀ span attributes body u, Makes source loaded included (Attribute.changes span attributes) (follow span attributes body u)

mutual

/-- **A walk makes the changes of its nodes.** -/
theorem walk (check : Option (Config → Option String)) {follow : Follow} (follows : AtReferences source loaded included follow)
    (at_ : Setting) : ∀ (n : Node) (u : Usage), Makes source loaded included n.changes (walk check follow at_ n u)
  | .group _ body _, u => walkAll check follows at_ body u
  | .comment span _ _, u => (splice span).after fun _ => .pure u
  | .config span data _, u => (header check _ span data).after fun _ => .pure u
  | .text _ _ _, u => ite ((quiet fun _ => ⟨rfl, rfl, rfl⟩).andThen fun _ => .pure u) (.pure u)
  | .interpolation _ e _, u => (quiet fun _ => ⟨rfl, rfl, rfl⟩).andThen fun _ => track e u
  | .choice _ test body none _, u => (track test u).andThen fun _ => (walkAll check follows _ body _).after fun _ => .pure _
  | .choice _ test body (some other) _, u =>
    (track test u).andThen fun _ => (walkAll check follows _ body _).bind fun _ => (walkAll check follows _ other _).after fun _ => .pure _
  | .loop _ items item index body none _, u => (track items u).andThen fun _ => loopBody (walkAll check follows _ body) _ item index
  | .loop _ items item index body (some other) _, u =>
    (track items u).andThen fun _ => (walkAll check follows _ other _).bind fun _ => loopBody (walkAll check follows _ body) _ item index
  | .element span tag attributes body _, u => by
    refine (quiet fun _ => ⟨rfl, rfl, rfl⟩).andThen fun _ => ?_
    cases tag with
    | content kind => exact content (walkAll check follows _ body) _ span attributes u kind
    | message role => exact message (walkAll check follows _ body) _ span attributes u role
    | reference => exact follows span attributes body u
    | scope => exact closed (walkAll check follows _ body) span attributes u
    | step => exact step (walkAll check follows _ body) _ span attributes u

theorem walkAll (check : Option (Config → Option String)) {follow : Follow} (follows : AtReferences source loaded included follow)
    (at_ : Setting) : ∀ (nodes : List Node) (u : Usage),
    Makes source loaded included (Node.changesAll nodes) (walkAll check follow at_ nodes u)
  | [], u => .pure u
  | n :: r, u => (walk check follows at_ n u).bind fun u => walkAll check follows at_ r u

end

end Makes
end Survey

/-! ## Documents in documents -/

namespace Source

/-- The text of a source after its changes, with the documents it refers to put in down to a depth. -/
def spliced (loader : Loader) : Nat → Source → List Char
  | 0, _ => []
  | n + 1, source => ((Splicing.start source.content.toList).changeAll (fun path =>
      match loader path source.path with
      | .ok (some next) => spliced loader n next
      | _ => []) (Node.changesAll (Survey.parsed source).1.body)).text

variable {loader : Loader} {source : Source} {n : Nat}

end Source

namespace Survey

variable {loader : Loader}

/-- A reference that is followed without a defect puts in what it names. -/
theorem Makes.reference {source : Source} {including : Include} {span : Span} {attributes : List Attribute} {path : String}
    {given : Names} {loaded : String → Prop} {included : String → List Char} (mention : mentioned? attributes = some path)
    (sound : ∀ next, loader path source.path = .ok (some next) → ∀ calls followed,
      (including next calls followed).state.faults = [] →
        loaded path ∧ (including next calls followed).state.resolved.text = included path) :
    Makes source loaded included (Attribute.changes span attributes)
      (replaceReference loader including span attributes path given) := by
  have one : Attribute.changes span attributes =
      [.inclusion span ((attributes.filter (·.name != "path")).map Attribute.span) path] := by
    rw [Attribute.changes, mention]
    rfl
  have both (s : SurveyState) (here : s.source = source) :
      let done := ((replaceReference loader including span attributes path given).run s).2
      s.faults.length ≤ done.faults.length ∧ (done.faults.length = s.faults.length →
        loaded path ∧ done.resolved = s.resolved.changeAll included (Attribute.changes span attributes)) := by
    rw [run_replaceReference, one]
    by_cases refused : ((Fields.get? s.source.path s.followed).getD []).contains path = true ∨
        ∀ next, loader path s.source.path ≠ .ok (some next)
    · obtain ⟨defect, run, -⟩ := include?_of_refused including span given refused
      rw [run]
      have more : (s.faults ++ [(⟨defect, span⟩ : Fault)]).length = s.faults.length + 1 := List.length_append ..
      exact ⟨by dsimp only; omega, fun clean => by dsimp only at clean; omega⟩
    · obtain ⟨open_, loads⟩ := not_or.mp refused
      obtain ⟨next, loads⟩ := Classical.not_forall_not.mp loads
      obtain ⟨text, -, -, resolved, missing, -, faults⟩ := include?_of_loads including span given
        (Bool.eq_false_iff.mpr open_) loads
      dsimp only
      rw [faults, text, resolved]
      refine ⟨by simp, fun clean => ?_⟩
      have none : (including next s.calls (Fields.set s.source.path
          ((Fields.get? s.source.path s.followed).getD [] ++ [path]) s.followed)).state.faults = [] := by
        rw [List.length_append, List.length_append, List.length_map] at clean
        exact List.length_eq_zero_iff.mp (by omega)
      obtain ⟨ready, same⟩ := sound next (here ▸ loads) _ _ none
      refine ⟨ready, ?_⟩
      rw [Option.getD_some, same]
      show _ = s.resolved.replace span (closedText (List.map s.resolved.slice (List.map Attribute.span _)) (included path))
      rw [List.map_map]
      rfl
  refine ⟨fun s here => ?_, fun s here => (both s here).1, fun s here clean => ?_⟩
  · exact include?_stays.1.trans here
  · obtain ⟨ready, text⟩ := (both s here).2 clean
    refine ⟨fun change mem => ?_, text⟩
    rw [one] at mem
    obtain rfl := List.mem_singleton.mp mem
    exact ready

end Survey
end PromptScript
