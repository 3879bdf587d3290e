import PromptScript.Proofs.ForkedNodes
import PromptScript.Proofs.Rejoined
import PromptScript.Proofs.Tandem

/-! # Surveys of nodes in other places

A survey of the same nodes in other places goes the same way: where it turns, and which defects it finds, depends neither on
where the nodes stand nor on the text that it makes. `Survey.Alike` compares two parts of surveys that are alike in this
sense, and a node is compared with itself without its places. -/
namespace PromptScript

/-! ## Attributes -/

theorem AttributeValue.textOfParts?_unplaced : ∀ parts : List Node,
    textOfParts? (Node.unplacedAll parts) = textOfParts? parts
  | [] => rfl
  | .text _ data _ :: r => congrArg (Option.map (data ++ ·)) (textOfParts?_unplaced r)
  | .comment .. :: _ | .config .. :: _ | .interpolation .. :: _ | .group .. :: _ | .choice _ _ _ none _ :: _
  | .choice _ _ _ (some _) _ :: _ | .loop _ _ _ _ _ none _ :: _ | .loop _ _ _ _ _ (some _) _ :: _ | .element .. :: _ => rfl

namespace Attribute

theorem staticText?_unplaced : ∀ a : Attribute, a.unplaced.value.staticText? = a.value.staticText?
  | mk _ _ .flag => rfl
  | mk _ _ (.nodes parts) => AttributeValue.textOfParts?_unplaced parts

theorem find?_unplaced (name : String) (attributes : List Attribute) :
    find? name (Node.attributesUnplaced attributes) = (find? name attributes).map .unplaced := by
  unfold find?
  rw [Node.attributesUnplaced_eq_map, List.find?_map]
  refine congrArg (Option.map _) (congrArg (List.find? · attributes) (funext fun a => ?_))
  rw [Function.comp_apply, name_unplaced]

/-- What an attribute is written out as does not depend on where it stands. -/
theorem written_unplaced (name : String) (attributes : List Attribute) :
    (find? name (Node.attributesUnplaced attributes)).bind (·.value.staticText?) =
      (find? name attributes).bind (·.value.staticText?) := by
  rw [find?_unplaced]
  cases find? name attributes with
  | none => rfl
  | some a => exact staticText?_unplaced a

end Attribute

theorem stepResults_unplaced (attributes : List Attribute) :
    stepResults (Node.attributesUnplaced attributes) = stepResults attributes :=
  congrArg (List.filterMap · stepResultNames) (funext fun name => Attribute.written_unplaced name attributes)

theorem mentioned?_unplaced (attributes : List Attribute) :
    mentioned? (Node.attributesUnplaced attributes) = mentioned? attributes := Attribute.written_unplaced "path" attributes

/-! ## Parts of surveys -/

/-- What two surveys have gathered is alike in what they go by, and in the defects that they have found. -/
structure SurveyState.Alike (s t : SurveyState) : Prop where
  path : s.source.path = t.source.path
  headed : s.config.isSome = t.config.isSome
  hasContent : s.hasContent = t.hasContent
  calls : s.calls.length = t.calls.length
  defects : s.faults.map Fault.defect = t.faults.map Fault.defect
  followed : s.followed = t.followed

namespace SurveyState.Alike

variable {s t r : SurveyState}

theorem refl (s : SurveyState) : s.Alike s := ⟨rfl, rfl, rfl, rfl, rfl, rfl⟩

theorem symm (h : s.Alike t) : t.Alike s :=
  ⟨h.path.symm, h.headed.symm, h.hasContent.symm, h.calls.symm, h.defects.symm, h.followed.symm⟩

theorem trans (h : s.Alike t) (h' : t.Alike r) : s.Alike r :=
  ⟨h.path.trans h'.path, h.headed.trans h'.headed, h.hasContent.trans h'.hasContent, h.calls.trans h'.calls,
    h.defects.trans h'.defects, h.followed.trans h'.followed⟩

/-- Both find defects, and the same ones. -/
theorem found (h : s.Alike t) {l l' : List Fault} (same : l.map Fault.defect = l'.map Fault.defect) :
    SurveyState.Alike { s with faults := s.faults ++ l } { t with faults := t.faults ++ l' } :=
  { h with defects := by rw [List.map_append, List.map_append, h.defects, same] }

/-- Neither has found a defect, or both have. -/
theorem clean_iff (h : s.Alike t) : s.faults = [] ↔ t.faults = [] := by
  rw [← List.map_eq_nil_iff (f := Fault.defect), h.defects, List.map_eq_nil_iff]

end SurveyState.Alike

namespace Survey

variable {α β : Type}

/-- What is done may depend on what has been gathered. -/
theorem Beside.get {R : SurveyState → SurveyState → Prop} {V : α → β → Prop} {f : SurveyState → Survey α}
    {g : SurveyState → Survey β} (h : ∀ s t, R s t → Beside R V (f s) (g t)) :
    Beside R V (MonadState.get >>= f) (MonadState.get >>= g) := fun s t related => h s t related s t related

/-- From states that are alike two parts give the same and leave states that are alike. -/
abbrev Alike (x y : Survey α) : Prop := Beside SurveyState.Alike Eq x y

namespace Alike

variable {x y z : Survey α} {f g : α → Survey β}

theorem symm (h : Alike x y) : Alike y x := fun s t related => by
  obtain ⟨same, after⟩ := h t s related.symm
  exact ⟨same.symm, after.symm⟩

theorem trans (h : Alike x y) (h' : Alike y z) : Alike x z := fun s t related => by
  obtain ⟨same, after⟩ := h s t related
  obtain ⟨same', after'⟩ := h' t t (.refl t)
  exact ⟨same.trans same', after.trans after'⟩

theorem pure (a : α) : Alike (Pure.pure a : Survey α) (Pure.pure a) := Beside.pure rfl

theorem bind (hx : Alike x y) (hf : ∀ a, Alike (f a) (g a)) : Alike (x >>= f) (y >>= g) :=
  Beside.bind hx fun a _ same => same ▸ hf a

theorem ite {p : Prop} [Decidable p] {x' y' : Survey α} (h : Alike x y) (h' : Alike x' y') :
    Alike (if p then x else x') (if p then y else y') := Beside.ite (fun _ => h) fun _ => h'

theorem modify {f g : SurveyState → SurveyState} (h : ∀ s t, s.Alike t → (f s).Alike (g t)) :
    Alike (modify f : Survey PUnit) (modify g) := fun s t related => ⟨rfl, h s t related⟩

theorem report (defect : Defect) (span span' : Span) : Alike (Survey.report defect span) (Survey.report defect span') :=
  .modify fun _ _ h => h.found rfl

theorem reportIf {p : Prop} [Decidable p] {defect : Defect} (span span' : Span) (h : Alike x y) :
    Alike (if p then Survey.report defect span >>= fun _ => x else x)
      (if p then Survey.report defect span' >>= fun _ => y else y) :=
  .ite ((report defect span span').bind fun _ => h) h

theorem markContent : Alike markContent markContent := .modify fun _ _ h => { h with hasContent := rfl }

theorem splice (span span' : Span) (new new' : List Char) : Alike (splice span new) (splice span' new') :=
  .modify fun _ _ h => { h with }

theorem dropCalls : Alike dropCalls dropCalls := .modify fun _ _ h => { h with calls := rfl }

theorem reportCalls : Alike reportCalls reportCalls := by
  have same (l : List Span) : (l.map (Fault.mk .invalidToolCallPlacement)).map Fault.defect =
      List.replicate l.length .invalidToolCallPlacement := by
    rw [List.map_map]
    exact List.map_const' ..
  refine fun s t h => ⟨rfl, ?_⟩
  have kinds : (s.calls.map (Fault.mk .invalidToolCallPlacement)).map Fault.defect =
      (t.calls.map (Fault.mk .invalidToolCallPlacement)).map Fault.defect := by rw [same, same, h.calls]
  exact { h.found kinds with calls := rfl }

/-- Defects of the same kinds are reported. -/
theorem forM_report {γ δ : Type} {xs : List γ} {ys : List δ} {as : γ → Defect} {as' : δ → Defect}
    (same : xs.map as = ys.map as') (span span' : Span) :
    Alike (xs.forM fun x => Survey.report (as x) span) (ys.forM fun y => Survey.report (as' y) span') := by
  intro s t h
  rw [run_forM_report, run_forM_report]
  refine ⟨rfl, h.found ?_⟩
  rw [List.map_map, List.map_map]
  exact same

theorem reportMissing (names given : Names) (span span' : Span) :
    Alike (reportMissing names given span) (reportMissing names given span') := forM_report rfl span span'

theorem track (e : Expr) (u : Usage) : Alike (track e u) (track e.unplaced u) := fun s t h => by
  obtain ⟨same, found⟩ := Expr.found_unplaced e (s := (u, [])) (t := (u, [])) ⟨rfl, rfl⟩
  exact ⟨same.symm, h.found found.symm⟩

theorem trackParts (parts : List Node) (u : Usage) : Alike (trackParts parts u) (trackParts (Node.unplacedAll parts) u) := by
  induction parts generalizing u with
  | nil => exact .pure u
  | cons n r ih =>
    match n with
    | .interpolation _ e _ => exact (track e u).bind ih
    | .text .. | .comment .. | .config .. | .group .. | .choice _ _ _ none _ | .choice _ _ _ (some _) _ |
      .loop _ _ _ _ _ none _ | .loop _ _ _ _ _ (some _) _ | .element .. => exact ih u

theorem firstInterpolation?_unplaced : ∀ parts : List Node, firstInterpolation? (Node.unplacedAll parts) =
    (firstInterpolation? parts).map fun _ => ⟨0, 0⟩
  | [] | .interpolation .. :: _ => rfl
  | .text .. :: r | .comment .. :: r | .config .. :: r | .group .. :: r | .choice _ _ _ none _ :: r
  | .choice _ _ _ (some _) _ :: r | .loop _ _ _ _ _ none _ :: r | .loop _ _ _ _ _ (some _) _ :: r | .element .. :: r =>
    firstInterpolation?_unplaced r

theorem attributeNames (static : List String) (attributes : List Attribute) (names : Names) (u : Usage) :
    Alike (attributeNames static attributes names u)
      (attributeNames static (Node.attributesUnplaced attributes) names u) := by
  induction attributes generalizing names u with
  | nil => exact .pure _
  | cons a r ih =>
    obtain ⟨span, name, value⟩ := a
    cases value with
    | flag => exact ih _ _
    | nodes parts =>
      have first : (if static.contains name then firstInterpolation? (Node.unplacedAll parts) else none) =
          (if static.contains name then firstInterpolation? parts else none).map fun _ => (⟨0, 0⟩ : Span) := by
        rw [firstInterpolation?_unplaced]
        split <;> rfl
      rw [Node.attributesUnplaced]
      unfold Survey.attributeNames
      rw [first]
      cases if static.contains name then firstInterpolation? parts else none with
      | some span => exact (report _ _ _).bind fun _ => ih _ _
      | none => exact (trackParts parts u).bind fun u => ih _ _

/-! ### Tags -/

section Tags

variable {body body' : Usage → Survey Usage} (inside : ∀ u, Alike (body u) (body' u)) (at_ : Setting) (span span' : Span)
  (attributes : List Attribute) (u : Usage)

include inside

theorem content (kind : Option ContentKind) : Alike (content at_ span kind attributes u body)
    (content at_ span' kind (Node.attributesUnplaced attributes) u body') := by
  refine reportIf _ _ (.ite ?_ (inside u))
  refine bind (.modify fun s t h => { h with calls := ?_ }) fun _ => (attributeNames _ _ _ _).bind fun _ => ?_
  · dsimp only
    rw [List.length_append, List.length_append, h.calls]
    rfl
  · exact reportIf _ _ (reportIf _ _ (inside _))

theorem messageBody (role : Option Role) : Alike (messageBody role u body) (messageBody role u body') := by
  refine reportCalls.bind fun _ => (inside u).bind fun u => ?_
  have rest : Alike (do Survey.dropCalls; return u : Survey Usage) (do Survey.dropCalls; return u) :=
    dropCalls.bind fun _ => .pure u
  exact .ite (reportCalls.bind fun _ => rest) rest

theorem message (role : Option Role) : Alike (message at_ span role attributes u body)
    (message at_ span' role (Node.attributesUnplaced attributes) u body') := by
  refine reportIf _ _ ((attributeNames _ _ _ _).bind fun (names, u) => .ite ?_ ?_)
  · exact (report _ _ _).bind fun _ => .pure u
  · dsimp only
    rw [Attribute.written_unplaced]
    split
    · exact (report _ _ _).bind fun _ => .pure u
    · exact messageBody inside u _

theorem closed : Alike (closed span attributes u body) (closed span' (Node.attributesUnplaced attributes) u body') :=
  (attributeNames _ _ _ _).bind fun (_, u) => (inside _).bind fun _ => (reportMissing _ _ _ _).bind fun _ => .pure u

theorem step : Alike (step at_ span attributes u body)
    (step at_ span' (Node.attributesUnplaced attributes) u body') := by
  refine bind (.modify fun _ _ h => { h with }) fun _ => reportIf _ _ ?_
  refine (attributeNames _ _ _ _).bind fun (_, u) => (inside u).bind fun u => ?_
  rw [stepResults_unplaced]
  exact .pure _

theorem loopBody (item : Binding) (index : Option Binding) : Alike (loopBody item index u body)
    (loopBody item.unplaced (index.map .unplaced) u body') := by
  have names (bindings : List Binding) :
      loopNames u (bindings.map .unplaced) = (loopNames u bindings).mapError Binding.unplaced := by
    induction bindings with
    | nil => rfl
    | cons b r ih =>
      rw [List.map_cons, loopNames, loopNames, ih]
      show (if u.defined.contains b.name then _ else _ : Except Binding _) = _
      split
      · rfl
      · cases loopNames u r <;> rfl
  have bound : item.unplaced :: (index.map Binding.unplaced).toList = (item :: index.toList).map .unplaced := by
    cases index <;> rfl
  unfold Survey.loopBody
  rw [bound, names]
  cases loopNames u (item :: index.toList) with
  | error b => exact (report _ _ _).bind fun _ => .pure u
  | ok names => exact (inside _).bind fun branch => .pure _

end Tags

theorem settings (span span' : Span) (data : String) : Alike (settings span data) (settings span' data) := by
  unfold Survey.settings
  split
  · exact .pure _
  · exact (report _ _ _).bind fun _ => .pure _

theorem checkSettings (check : Option (Config → Option String)) (span span' : Span) (config : Config) :
    Alike (checkSettings check span config) (checkSettings check span' config) := by
  unfold Survey.checkSettings
  split
  · exact report _ _ _
  · exact .pure _

theorem header (check : Option (Config → Option String)) (atRoot : Bool) (span span' : Span) (data : String) :
    Alike (header check atRoot span data) (header check atRoot span' data) := by
  refine (splice span span' [] []).bind fun _ => Beside.get fun s t h => ?_
  rw [h.headed, h.hasContent]
  refine reportIf _ _ (reportIf _ _ (reportIf _ _ ((settings span span' data).bind fun config => ?_)))
  exact (checkSettings check span span' config).bind fun _ => .modify fun _ _ h => { h with headed := rfl }

end Alike

/-! ### References -/

/-- How a document in another is surveyed does not depend on where the open requests for tools stand. -/
def Include.Placeless (including : Include) : Prop := ∀ source calls calls' followed, calls.length = calls'.length →
  (including source calls followed).used = (including source calls' followed).used ∧
    (including source calls followed).state.Alike (including source calls' followed).state

/-- What is done at a reference does not depend on where it stands. -/
def Follow.Placeless (follow : Follow) : Prop := ∀ span span' attributes body u,
  Alike (follow span attributes body u) (follow span' (Node.attributesUnplaced attributes) (Node.unplacedAll body) u)

theorem Include.Placeless.include? {including : Include} (placeless : including.Placeless) (loader : Loader) (span span' : Span)
    (path : String) (given : Names) : Beside SurveyState.Alike (fun _ _ => True)
      (include? loader including span path given) (include? loader including span' path given) := by
  have failed (defect : Defect) : Beside SurveyState.Alike (fun _ _ => True)
      (do report defect span; return none : Survey (Option (List Char)))
      (do report defect span'; return none : Survey (Option (List Char))) :=
    Beside.andThen (Alike.report _ _ _) fun _ _ => .pure trivial
  refine Beside.get fun s t h => ?_
  dsimp only
  rw [h.path, h.followed]
  refine .ite (fun _ => failed _) fun _ => ?_
  cases loader path t.source.path with
  | error reason => exact failed _
  | ok found =>
    cases found with
    | none => exact failed _
    | some source =>
      dsimp only
      obtain ⟨used, state⟩ := placeless source s.calls t.calls
        (Fields.set t.source.path ((Fields.get? t.source.path t.followed).getD [] ++ [path]) t.followed) h.calls
      rw [used]
      refine Beside.andThen (Alike.modify fun _ _ h => { h with }) fun _ _ => ?_
      refine Beside.andThen (Alike.reportMissing _ _ _ _) fun _ _ => ?_
      refine Beside.andThen (Alike.forM_report ?_ _ _) fun _ _ => ?_
      · have named := congrArg (List.map inReference) state.defects
        rwa [List.map_map, List.map_map] at named
      · exact Beside.andThen (Alike.modify fun _ _ h => { h with calls := state.calls }) fun _ _ => .pure trivial

theorem Include.Placeless.replaceReference {including : Include} (placeless : including.Placeless) (loader : Loader)
    (span span' : Span) (attributes attributes' : List Attribute) (path : String) (given : Names) :
    Alike (replaceReference loader including span attributes path given)
      (replaceReference loader including span' attributes' path given) := by
  refine Beside.get fun _ _ _ => (placeless.include? loader span span' path given).andThen fun _ _ => ?_
  exact Beside.get fun _ _ _ => Alike.splice _ _ _ _

theorem follow_placeless (loader : Option Loader) {including : Option Include} (placeless : ∀ i ∈ including, i.Placeless) :
    (follow loader including).Placeless := by
  intro span span' attributes body u
  have empty : (Node.unplacedAll body).isEmpty = body.isEmpty := by cases body <;> rfl
  unfold follow
  rw [empty]
  refine .ite ((Alike.report _ _ _).bind fun _ => .pure u) ((Alike.attributeNames _ _ _ _).bind fun (names, u) => ?_)
  refine .ite ((Alike.report _ _ _).bind fun _ => .pure u) ?_
  dsimp only
  rw [mentioned?_unplaced]
  cases loader with
  | none => exact (Alike.report _ _ _).bind fun _ => .pure u
  | some loader =>
    cases including with
    | none => exact (Alike.report _ _ _).bind fun _ => .pure u
    | some including =>
      cases mentioned? attributes with
      | none => exact .pure u
      | some path => exact ((placeless including rfl).replaceReference _ _ _ _ _ _ _).bind fun _ => .pure u

/-! ### Nodes -/

variable (check : Option (Config → Option String)) {follow : Follow}

mutual

theorem walk_unplaced (follows : follow.Placeless) (at_ : Setting) : ∀ (n : Node) (u : Usage),
    Alike (walk check follow at_ n u) (walk check follow at_ n.unplaced u)
  | .group _ body _, u => walkAll_unplaced follows at_ body u
  | .comment .., u => (Alike.splice _ _ _ _).bind fun _ => .pure u
  | .config _ data _, u => (Alike.header _ _ _ _ data).bind fun _ => .pure u
  | .text _ data _, u => by
    rw [Node.unplaced]
    unfold Survey.walk
    exact .ite (Alike.markContent.bind fun _ => .pure u) (.pure u)
  | .interpolation _ e _, u => Alike.markContent.bind fun _ => .track e u
  | .choice _ test body none _, u =>
    (Alike.track test u).bind fun u => (walkAll_unplaced follows _ body u).bind fun _ => .pure _
  | .choice _ test body (some other) _, u =>
    (Alike.track test u).bind fun u => (walkAll_unplaced follows _ body u).bind fun _ =>
      (walkAll_unplaced follows _ other _).bind fun _ => .pure _
  | .loop _ items item index body none _, u =>
    (Alike.track items u).bind fun u => .loopBody (walkAll_unplaced follows _ body) u item index
  | .loop _ items item index body (some other) _, u =>
    (Alike.track items u).bind fun u => (walkAll_unplaced follows _ other u).bind fun _ =>
      .loopBody (walkAll_unplaced follows _ body) _ item index
  | .element span tag attributes body _, u => by
    refine Alike.markContent.bind fun _ => ?_
    cases tag with
    | content kind => exact .content (walkAll_unplaced follows _ body) _ span _ attributes u kind
    | message role => exact .message (walkAll_unplaced follows _ body) _ span _ attributes u role
    | reference => exact follows span _ attributes body u
    | scope => exact .closed (walkAll_unplaced follows _ body) span _ attributes u
    | step => exact .step (walkAll_unplaced follows _ body) _ span _ attributes u

theorem walkAll_unplaced (follows : follow.Placeless) (at_ : Setting) : ∀ (nodes : List Node) (u : Usage),
    Alike (walkAll check follow at_ nodes u) (walkAll check follow at_ (Node.unplacedAll nodes) u)
  | [], u => .pure u
  | n :: r, u => (walk_unplaced follows at_ n u).bind fun u => walkAll_unplaced follows at_ r u

end

/-- **Nodes that differ only in their places** are surveyed alike. -/
theorem walkAll_elsewhere (follows : follow.Placeless) {nodes nodes' : List Node}
    (same : Node.unplacedAll nodes = Node.unplacedAll nodes') (at_ : Setting) (u : Usage) :
    Alike (walkAll check follow at_ nodes u) (walkAll check follow at_ nodes' u) := by
  have here := walkAll_unplaced check follows at_ nodes u
  rw [same] at here
  exact here.trans (walkAll_unplaced check follows at_ nodes' u).symm

theorem including_placeless (loader : Option Loader) (n : Nat) : ∀ i ∈ including loader n, i.Placeless := by
  induction n with
  | zero => exact nofun
  | succ n ih =>
    intro i here source calls calls' followed same
    obtain rfl := Option.some.inj here
    -- The document that is referred to is the same one on both sides, only the requests before it stand elsewhere.
    have begins : SurveyState.Alike { SurveyState.start source with calls, followed, faults := (parsed source).2 }
        { SurveyState.start source with calls := calls', followed, faults := (parsed source).2 } :=
      ⟨rfl, rfl, rfl, same, rfl, rfl⟩
    obtain ⟨used, after⟩ := walkAll_elsewhere none (follow_placeless loader ih) rfl { atRoot := true } (Usage.start none)
      _ _ begins
    exact ⟨congrArg Usage.used used, after⟩

end Survey
end PromptScript
