import PromptScript.Proofs.Analyses
import PromptScript.Proofs.Readings
import PromptScript.Survey.Report

/-! # Two surveys in tandem

Two surveys of one document go the same way: where they turn depends on its tags and on the names that are declared,
and not on what they have found. A relation between their states that each kind of thing done on the way keeps
(`Kept`) is therefore kept by the whole walk, if what they do at references keeps it. -/
namespace PromptScript

namespace Survey

variable {α β γ δ : Type} {R : SurveyState → SurveyState → Prop}

/-- From related states two parts give related values and leave related states. -/
def Beside (R : SurveyState → SurveyState → Prop) (V : α → β → Prop) (x : Survey α) (y : Survey β) : Prop :=
  ∀ s t, R s t → V (x.run s).1 (y.run t).1 ∧ R (x.run s).2 (y.run t).2

namespace Beside

variable {V : α → β → Prop} {W : γ → δ → Prop} {x : Survey α} {y : Survey β} {f : α → Survey γ} {g : β → Survey δ}

theorem pure {a : α} {b : β} (h : V a b) : Beside R V (Pure.pure a : Survey α) (Pure.pure b : Survey β) :=
  fun _ _ related => ⟨h, related⟩

theorem bind (first : Beside R V x y) (rest : ∀ a b, V a b → Beside R W (f a) (g b)) :
    Beside R W (x >>= f) (y >>= g) := by
  intro s t related
  obtain ⟨values, between⟩ := first s t related
  exact rest _ _ values _ _ between

/-- A part whose value does not matter. -/
theorem andThen (first : Beside R V x y) (rest : ∀ a b, Beside R W (f a) (g b)) : Beside R W (x >>= f) (y >>= g) :=
  first.bind fun a b _ => rest a b

theorem of_states {x : Survey PUnit} {y : Survey PUnit} (h : ∀ s t, R s t → R (x.run s).2 (y.run t).2) :
    Beside R (fun _ _ => True) x y :=
  fun s t related => ⟨trivial, h s t related⟩

theorem ite {p : Prop} [Decidable p] {x' : Survey α} {y' : Survey β} (h : p → Beside R V x y) (h' : ¬p → Beside R V x' y') :
    Beside R V (if p then x else x') (if p then y else y') := by
  split
  · next holds => exact h holds
  · next fails => exact h' fails

end Beside

/-- A relation `R` between the states of two surveys that goes with a relation `V` between what they know of names, and
lets them find what `Q` relates. -/
structure Kept (check check' : Option (Config → Option String)) (V : Usage → Usage → Prop)
    (Q : List Fault → List Fault → Prop) (R : SurveyState → SurveyState → Prop) : Prop where
  defined : ∀ {u v}, V u v → u.defined = v.defined
  analyze : ∀ {u v}, V u v → ∀ e : Expr, V (e.analyze (u, [])).1 (e.analyze (v, [])).1 ∧
    Q (e.analyze (u, [])).2 (e.analyze (v, [])).2
  absorb : ∀ {u v b c}, V u v → V b c → V (u.absorb b) (v.absorb c)
  defineAll : ∀ {u v}, V u v → ∀ names, V (u.defineAll names) (v.defineAll names)
  closed : ∀ {u v}, V u v → ∀ names, V ⟨u.allowed, [], names⟩ ⟨v.allowed, [], names⟩
  missing : ∀ {u v}, V u v → ∀ given span s t, R s t →
    R ((reportMissing u.used given span).run s).2 ((reportMissing v.used given span).run t).2
  same : ∀ defect span, defect.isLocal = true → Q [⟨defect, span⟩] [⟨defect, span⟩]
  found : ∀ {s t l l'}, R s t → Q l l' → R { s with faults := s.faults ++ l } { t with faults := t.faults ++ l' }
  calls : ∀ {s t}, R s t → R (reportCalls.run s).2 (reportCalls.run t).2
  header : ∀ {s t}, R s t → ∀ atRoot span data,
    R ((header check atRoot span data).run s).2 ((header check' atRoot span data).run t).2
  still : ∀ {s t}, R s t → ∀ f : SurveyState → SurveyState,
    (∀ s, (f s).source = s.source ∧ (f s).followed = s.followed ∧ (f s).faults = s.faults) → R (f s) (f t)

section Walk

variable {check check' : Option (Config → Option String)} {V : Usage → Usage → Prop} {Q : List Fault → List Fault → Prop}
  (kept : Kept check check' V Q R)

include kept

theorem Kept.report {defect : Defect} (span : Span) (h : defect.isLocal = true) :
    Beside R (fun _ _ => True) (Survey.report defect span) (Survey.report defect span) :=
  .of_states fun _ _ related => kept.found related (kept.same defect span h)

theorem Kept.reportIf {p : Prop} [Decidable p] {defect : Defect} {span : Span} {W : α → β → Prop} {x : Survey α}
    {y : Survey β} (h : defect.isLocal = true) (rest : Beside R W x y) :
    Beside R W (if p then Survey.report defect span >>= fun _ => x else x)
      (if p then Survey.report defect span >>= fun _ => y else y) :=
  .ite (fun _ => (kept.report span h).andThen fun _ _ => rest) fun _ => rest

/-- A part that looks for nothing and stays in the document. -/
theorem Kept.quiet {x : Survey PUnit}
    (h : ∀ s, (x.run s).2.source = s.source ∧ (x.run s).2.followed = s.followed ∧ (x.run s).2.faults = s.faults) :
    Beside R (fun _ _ => True) x x :=
  .of_states fun _ _ related => kept.still related (fun s => (x.run s).2) h

theorem Kept.reportCalls : Beside R (fun _ _ => True) Survey.reportCalls Survey.reportCalls :=
  .of_states fun _ _ related => kept.calls related

theorem Kept.track (e : Expr) {u v : Usage} (names : V u v) : Beside R V (track e u) (track e v) := by
  intro s t related
  obtain ⟨names, found⟩ := kept.analyze names e
  exact ⟨names, kept.found related found⟩

theorem Kept.trackParts (parts : List Node) {u v : Usage} (names : V u v) :
    Beside R V (trackParts parts u) (trackParts parts v) := by
  induction parts generalizing u v with
  | nil => exact .pure names
  | cons n r ih =>
    cases n with
    | interpolation _ e _ => exact (kept.track e names).bind fun _ _ names => ih names
    | _ => exact ih names

theorem Kept.attributeNames (static : List String) (attributes : List Attribute) (given : Names) {u v : Usage}
    (names : V u v) : Beside R (fun a b => a.1 = b.1 ∧ V a.2 b.2) (attributeNames static attributes given u)
      (attributeNames static attributes given v) := by
  induction attributes generalizing given u v with
  | nil => exact .pure ⟨rfl, names⟩
  | cons a r ih =>
    obtain ⟨_, name, value⟩ := a
    cases value with
    | flag => exact ih _ names
    | nodes parts =>
      unfold Survey.attributeNames
      split
      · exact (kept.report _ rfl).andThen fun _ _ => ih given names
      · exact (kept.trackParts parts names).bind fun _ _ names => ih _ names

/-! ## Tags -/

section Tags

variable {body body' : Usage → Survey Usage} (inside : ∀ u v, V u v → Beside R V (body u) (body' v)) (at_ : Setting)
  (span : Span) (attributes : List Attribute) {u v : Usage} (names : V u v)

include inside names

theorem Kept.content (kind : Option ContentKind) :
    Beside R V (content at_ span kind attributes u body) (content at_ span kind attributes v body') := by
  refine kept.reportIf rfl (.ite (fun _ => ?_) fun _ => inside u v names)
  refine (kept.quiet fun _ => ⟨rfl, rfl, rfl⟩).andThen fun _ _ => (kept.attributeNames _ _ _ names).bind ?_
  rintro ⟨given, u⟩ ⟨_, v⟩ ⟨rfl, names⟩
  exact kept.reportIf rfl (kept.reportIf rfl (inside u v names))

theorem Kept.messageBody (role : Option Role) : Beside R V (messageBody role u body) (messageBody role v body') := by
  refine kept.reportCalls.andThen fun _ _ => (inside u v names).bind fun u v names => ?_
  have rest : Beside R V (do dropCalls; return u : Survey Usage) (do dropCalls; return v : Survey Usage) :=
    (kept.quiet fun _ => ⟨rfl, rfl, rfl⟩).andThen fun _ _ => .pure names
  exact .ite (fun _ => kept.reportCalls.andThen fun _ _ => rest) fun _ => rest

theorem Kept.message (role : Option Role) :
    Beside R V (message at_ span role attributes u body) (message at_ span role attributes v body') := by
  refine kept.reportIf rfl ((kept.attributeNames _ _ _ names).bind ?_)
  rintro ⟨given, u⟩ ⟨_, v⟩ ⟨rfl, names⟩
  refine .ite (fun _ => (kept.report _ rfl).andThen fun _ _ => .pure names) fun _ => ?_
  dsimp only
  split
  · next lack lacking =>
    refine (kept.report _ ?_).andThen fun _ _ => .pure names
    unfold toolLack? at lacking
    split at lacking
    · cases lacking
    · split at lacking
      · cases lacking
        rfl
      · split at lacking
        · cases lacking
          rfl
        · cases lacking
  · exact kept.messageBody inside names _

theorem Kept.closedPart : Beside R V (Survey.closed span attributes u body) (Survey.closed span attributes v body') := by
  refine (kept.attributeNames _ _ _ names).bind ?_
  rintro ⟨given, u⟩ ⟨_, v⟩ ⟨rfl, names⟩
  refine (inside _ _ (kept.closed names given)).bind fun inner inner' read => ?_
  exact (Beside.of_states fun s t => kept.missing read given span s t).andThen fun _ _ => .pure names

theorem Kept.step : Beside R V (step at_ span attributes u body) (step at_ span attributes v body') := by
  refine (kept.quiet fun _ => ⟨rfl, rfl, rfl⟩).andThen fun _ _ => kept.reportIf rfl ?_
  refine (kept.attributeNames _ _ _ names).bind ?_
  rintro ⟨given, u⟩ ⟨_, v⟩ ⟨rfl, names⟩
  exact (inside u v names).bind fun _ _ names => .pure (kept.defineAll names _)

theorem Kept.loopBody (item : Binding) (index : Option Binding) :
    Beside R V (loopBody item index u body) (loopBody item index v body') := by
  have same (bindings : List Binding) : loopNames u bindings = loopNames v bindings := by
    induction bindings with
    | nil => rfl
    | cons b r ih =>
      unfold loopNames
      rw [kept.defined names, ih]
  unfold Survey.loopBody
  rw [same]
  split
  · exact (kept.report _ rfl).andThen fun _ _ => .pure names
  · exact (inside _ _ (kept.defineAll names _)).bind fun _ _ branch => .pure (kept.absorb names branch)

end Tags

/-! ## The walk -/

variable {follow follow' : Follow}

omit kept

/-- What two surveys do at the references among some mentions keeps the relation. -/
def Follow.Beside (R : SurveyState → SurveyState → Prop) (V : Usage → Usage → Prop) (follow follow' : Follow)
    (mentions : List String) : Prop :=
  ∀ span attributes body u v, (∀ path, mentioned? attributes = some path → path ∈ mentions) → V u v →
    Survey.Beside R V (follow span attributes body u) (follow' span attributes body v)

theorem Follow.Beside.mono {mentions fewer : List String} (h : Follow.Beside R V follow follow' mentions)
    (less : ∀ path ∈ fewer, path ∈ mentions) : Follow.Beside R V follow follow' fewer :=
  fun span attributes body u v known => h span attributes body u v fun path names => less path (known path names)

mutual

/-- **Two walks keep what they keep at references.** -/
theorem Kept.walk (kept : Kept check check' V Q R) (at_ : Setting) : ∀ n : Node,
    Follow.Beside R V follow follow' n.mentions → ∀ {u v : Usage}, V u v →
      Survey.Beside R V (walk check follow at_ n u) (walk check' follow' at_ n v)
  | .text _ data _, _, u, v, names => by
    unfold Survey.walk
    have rest : Survey.Beside R V (Pure.pure u : Survey Usage) (Pure.pure v) := .pure names
    split
    · exact (kept.quiet fun _ => ⟨rfl, rfl, rfl⟩).andThen fun _ _ => rest
    · exact rest
  | .comment .., _, _, _, names => (kept.quiet fun _ => ⟨rfl, rfl, rfl⟩).andThen fun _ _ => .pure names
  | .config span data _, _, _, _, names =>
    (Beside.of_states fun _ _ related => kept.header related _ span data).andThen fun _ _ => .pure names
  | .interpolation _ e _, _, _, _, names => (kept.quiet fun _ => ⟨rfl, rfl, rfl⟩).andThen fun _ _ => kept.track e names
  | .group _ body _, follows, _, _, names => kept.walkAll at_ body follows names
  | .choice _ test body none _, follows, _, _, names =>
    (kept.track test names).bind fun _ _ names => (kept.walkAll _ body follows names).bind fun _ _ branch =>
      .pure (kept.absorb names branch)
  | .choice _ test body (some other) _, follows, _, _, names => by
    refine (kept.track test names).bind fun u v names => ?_
    refine (kept.walkAll _ body (follows.mono fun _ => List.mem_append_left _) names).bind fun b c branch => ?_
    have names := kept.absorb names branch
    exact (kept.walkAll _ other (follows.mono fun _ => List.mem_append_right _) names).bind fun _ _ branch =>
      .pure (kept.absorb names branch)
  | .loop _ items item index body none _, follows, _, _, names =>
    (kept.track items names).bind fun _ _ names =>
      kept.loopBody (fun _ _ names => kept.walkAll _ body follows names) names item index
  | .loop _ items item index body (some other) _, follows, _, _, names => by
    refine (kept.track items names).bind fun u v names => ?_
    refine (kept.walkAll _ other (follows.mono fun _ => List.mem_append_right _) names).bind fun b c branch => ?_
    exact kept.loopBody (fun _ _ names => kept.walkAll _ body (follows.mono fun _ => List.mem_append_left _) names)
      (kept.absorb names branch) item index
  | .element span tag attributes body _, follows, u, v, names => by
    refine (kept.quiet fun _ => ⟨rfl, rfl, rfl⟩).andThen fun _ _ => ?_
    cases tag with
    | content kind => exact kept.content (fun _ _ names => kept.walkAll _ body follows names) _ span attributes names kind
    | message role => exact kept.message (fun _ _ names => kept.walkAll _ body follows names) _ span attributes names role
    | scope => exact kept.closedPart (fun _ _ names => kept.walkAll _ body follows names) span attributes names
    | step => exact kept.step (fun _ _ names => kept.walkAll _ body follows names) _ span attributes names
    | reference =>
      refine follows span attributes body u v (fun path names => ?_) names
      show path ∈ (mentioned? attributes).toList
      rw [names]
      exact List.mem_singleton.mpr rfl

theorem Kept.walkAll (kept : Kept check check' V Q R) (at_ : Setting) : ∀ nodes : List Node,
    Follow.Beside R V follow follow' (Node.mentionsAll nodes) → ∀ {u v : Usage}, V u v →
      Survey.Beside R V (walkAll check follow at_ nodes u) (walkAll check' follow' at_ nodes v)
  | [], _, _, _, names => .pure names
  | n :: r, follows, _, _, names =>
    (kept.walk at_ n (follows.mono fun _ => List.mem_append_left _) names).bind fun _ _ names =>
      kept.walkAll at_ r (follows.mono fun _ => List.mem_append_right _) names

end

end Walk
end Survey
end PromptScript

/-! ## References that are followed

What a survey does at a reference, and what it is told by the survey of the document there. Which documents it looks for
depends only on those within reach: for a loader that finds the same for them the survey is the same. -/
namespace PromptScript

namespace Survey

/-- Before a document is read to which requests for tools and references have led. -/
def entering (source : Source) (calls : List Span) (followed : List (String × List String)) : SurveyState :=
  { SurveyState.start source with calls, followed, faults := (parsed source).2 }

/-- The survey of the document of a source that starts with requests for tools and references followed before. -/
def through (check : Option (Config → Option String)) (follow : Follow) (source : Source) (calls : List Span)
    (followed : List (String × List String)) (allowed : Option Names) : Usage × SurveyState :=
  (walkAll check follow { atRoot := true } (parsed source).1.body (Usage.start allowed)).run
    (entering source calls followed)

/-- What is done at the references of a document that may have others in it up to a depth. -/
abbrev followTo (loader : Loader) (depth : Nat) : Follow := follow (some loader) (including (some loader) depth)

/-- The survey of a document within another. -/
abbrev within (loader : Loader) (depth : Nat) (source : Source) (calls : List Span)
    (followed : List (String × List String)) : Usage × SurveyState :=
  through none (followTo loader depth) source calls followed none

/-- What a survey of a document within another amounts to. -/
def inclusion (loader : Loader) (depth : Nat) : Include := fun source calls followed =>
  ⟨(within loader depth source calls followed).1.used, (within loader depth source calls followed).2⟩

theorem including_succ (loader : Loader) (n : Nat) : including (some loader) (n + 1) = some (inclusion loader n) := rfl

end Survey

namespace Source

/-- The paths in the references of a source. -/
def mentions (source : Source) : List String := (Survey.parsed source).1.mentions

/-- A reference in one document names the other. -/
def Leads (loader : Loader) (a b : Source) : Prop := ∃ path ∈ a.mentions, loader path a.path = .ok (some b)

/-- So many references lead from one document to another. -/
inductive Reaches (loader : Loader) : Nat → Source → Source → Prop
  | refl (a : Source) : Reaches loader 0 a a
  | head {k : Nat} {a b c : Source} : Leads loader a b → Reaches loader k b c → Reaches loader (k + 1) a c

variable {loader : Loader} {a b c : Source} {j k : Nat}

theorem Reaches.trans (h : Reaches loader j a b) (h' : Reaches loader k b c) : Reaches loader (j + k) a c := by
  induction h with
  | refl => rwa [Nat.zero_add]
  | head leads _ ih =>
    rw [Nat.add_right_comm]
    exact .head leads (ih h')

theorem Reaches.tail (h : Reaches loader k a b) (leads : Leads loader b c) : Reaches loader (k + 1) a c :=
  h.trans (.head leads (.refl c))

end Source

namespace Survey

variable {loader : Loader}

/-! ### Following references in tandem -/

section Following

variable {check check' : Option (Config → Option String)} {V : Usage → Usage → Prop} {Q : List Fault → List Fault → Prop}
  {R : SurveyState → SurveyState → Prop} {loader loader' : Loader} {including including' : Option Include}
  {mentions : List String}

/-- What the limit of depth and the names of documents decide at a reference. -/
def reach (loader : Loader) (including : Option Include) (span : Span) (attributes : List Attribute) (given : Names) :
    Survey Unit :=
  match including, mentioned? attributes with
  | none, _ => report .referenceDepthLimit span
  | some _, none => pure ()
  | some including, some path => replaceReference loader including span attributes path given

theorem follow_some (loader : Loader) (including : Option Include) (span : Span) (attributes : List Attribute) (u : Usage) :
    follow (some loader) including span attributes [] u = (do
      let (names, u) ← attributeNames ["path"] attributes [] u
      if !names.contains "path" then
        report .referenceTagWithoutPath span
        return u
      else
        reach loader including span attributes names
        return u) := by
  refine congrArg (attributeNames ["path"] attributes [] u >>= ·) (funext fun (names, u) => ?_)
  dsimp only
  unfold reach
  split
  · rfl
  · cases including <;> cases mentioned? attributes <;> rfl

theorem reach_of_none {including : Include} {span : Span} {attributes : List Attribute} {given : Names}
    (h : mentioned? attributes = none) : reach loader (some including) span attributes given = pure () := by
  unfold reach
  rw [h]

theorem reach_of_some {including : Include} {span : Span} {attributes : List Attribute} {given : Names} {path : String}
    (h : mentioned? attributes = some path) :
    reach loader (some including) span attributes given = replaceReference loader including span attributes path given := by
  unfold reach
  rw [h]

/-- What is reached in tandem is followed in tandem. -/
theorem Kept.follow (kept : Kept check check' V Q R)
    (h : ∀ span attributes given, (∀ path, mentioned? attributes = some path → path ∈ mentions) →
      Beside R (fun _ _ => True) (reach loader including span attributes given)
        (reach loader' including' span attributes given)) :
    Follow.Beside R V (follow (some loader) including) (follow (some loader') including') mentions := by
  intro span attributes body u v known names
  cases body with
  | cons => exact (kept.report _ rfl).andThen fun _ _ => .pure names
  | nil =>
    rw [follow_some, follow_some]
    refine (kept.attributeNames ["path"] attributes [] names).bind ?_
    rintro ⟨given, u⟩ ⟨_, v⟩ ⟨rfl, names⟩
    refine .ite (fun _ => (kept.report _ rfl).andThen fun _ _ => .pure names) fun _ => ?_
    exact (h span attributes given known).andThen fun _ _ => .pure names

/-- Surveys in tandem of a whole document. -/
theorem Kept.through (kept : Kept check check' V Q R) {source : Source} {follow follow' : Follow}
    (follows : Follow.Beside R V follow follow' source.mentions) (calls calls' : List Span)
    (followed followed' : List (String × List String)) (allowed allowed' : Option Names)
    (names : V (Usage.start allowed) (Usage.start allowed'))
    (begins : R (entering source calls followed) (entering source calls' followed')) :
    V (through check follow source calls followed allowed).1 (through check' follow' source calls' followed' allowed').1 ∧
      R (through check follow source calls followed allowed).2 (through check' follow' source calls' followed' allowed').2 :=
  kept.walkAll { atRoot := true } (parsed source).1.body follows names _ _ begins

end Following

/-! ### What a document finds by itself -/

/-- Reports of several defects. -/
theorem run_forM_report {γ : Type} (xs : List γ) (as : γ → Defect) (span : Span) (s : SurveyState) :
    (xs.forM fun x => report (as x) span : Survey Unit).run s =
      ((), { s with faults := s.faults ++ xs.map fun x => ⟨as x, span⟩ }) := by
  induction xs generalizing s with
  | nil =>
    rw [List.map_nil, List.append_nil]
    rfl
  | cons x r ih =>
    show (r.forM fun x => report (as x) span : Survey Unit).run { s with faults := s.faults ++ [⟨as x, span⟩] } = _
    rw [ih, List.append_assoc]
    rfl

section Stays

variable {α β : Type}

/-- A part that stays in the document and finds only what the document has by itself. -/
def Stays (part : Survey α) : Prop := ∀ s, (part.run s).2.source = s.source ∧ (part.run s).2.followed = s.followed ∧
  ∃ more, (part.run s).2.faults = s.faults ++ more ∧ ∀ fault ∈ more, fault.defect.isLocal = true

namespace Stays

theorem of_same {part : Survey α} (same : ∀ s, (part.run s).2.source = s.source ∧ (part.run s).2.followed = s.followed ∧
    (part.run s).2.faults = s.faults) : Stays part := fun s => by
  obtain ⟨source, followed, faults⟩ := same s
  exact ⟨source, followed, [], by rw [faults, List.append_nil], nofun⟩

theorem pure (a : α) : Stays (Pure.pure a : Survey α) := .of_same fun _ => ⟨rfl, rfl, rfl⟩

theorem bind {x : Survey α} {f : α → Survey β} (hx : Stays x) (hf : ∀ a, Stays (f a)) : Stays (x >>= f) := by
  intro s
  obtain ⟨source, followed, more, found, fine⟩ := hx s
  obtain ⟨source', followed', more', found', fine'⟩ := hf (x.run s).1 (x.run s).2
  refine ⟨source'.trans source, followed'.trans followed, more ++ more', ?_, fun fault mem => ?_⟩
  · rw [← List.append_assoc, ← found]
    exact found'
  · exact (List.mem_append.mp mem).elim (fine fault) (fine' fault)

theorem report {defect : Defect} (span : Span) (h : defect.isLocal = true) : Stays (Survey.report defect span) :=
  fun _ => ⟨rfl, rfl, _, rfl, fun _ mem => List.mem_singleton.mp mem ▸ h⟩

theorem reportIf {p : Prop} [Decidable p] {defect : Defect} {span : Span} {rest : Survey α}
    (h : defect.isLocal = true) (hr : Stays rest) :
    Stays (if p then Survey.report defect span >>= fun _ => rest else rest) := by
  split
  · exact (report span h).bind fun _ => hr
  · exact hr

theorem reportMissing (names given : Names) (span : Span) : Stays (reportMissing names given span) := fun s => by
  unfold Survey.reportMissing
  rw [run_forM_report]
  refine ⟨rfl, rfl, _, rfl, fun fault mem => ?_⟩
  obtain ⟨name, -, rfl⟩ := List.mem_map.mp mem
  rfl

theorem reportCalls : Stays reportCalls := fun s => by
  refine ⟨rfl, rfl, _, rfl, fun fault mem => ?_⟩
  obtain ⟨span, -, rfl⟩ := List.mem_map.mp mem
  rfl

theorem header (check : Option (Config → Option String)) (atRoot : Bool) (span : Span) (data : String) :
    Stays (header check atRoot span data) := by
  have read : Stays (settings span data) := by
    unfold settings
    split
    · exact .pure _
    · exact (report span rfl).bind fun _ => .pure _
  have checked (config : Config) : Stays (checkSettings check span config) := by
    unfold checkSettings
    split
    · exact report span rfl
    · exact .pure _
  refine (of_same fun _ => ⟨rfl, rfl, rfl⟩).bind fun _ => (of_same fun _ => ⟨rfl, rfl, rfl⟩).bind fun _ => ?_
  refine reportIf rfl (reportIf rfl (reportIf rfl ?_))
  exact read.bind fun config => (checked config).bind fun _ => of_same fun _ => ⟨rfl, rfl, rfl⟩

end Stays

end Stays

/-! ### Documents that are never looked for -/

/-- The same survey, in a document. -/
def SameAt (source : Source) (s t : SurveyState) : Prop := s = t ∧ s.source = source

theorem SameAt.kept (check : Option (Config → Option String)) (source : Source) :
    Kept check check Eq Eq (SameAt source) where
  defined same := by rw [same]
  analyze same e := by rw [same]; exact ⟨rfl, rfl⟩
  absorb same same' := by rw [same, same']
  defineAll same names := by rw [same]
  closed same names := by rw [same]
  missing := by
    rintro u _ rfl given span s _ ⟨rfl, here⟩
    exact ⟨rfl, (Stays.reportMissing _ _ _ s).1.trans here⟩
  same _ _ _ := rfl
  found := by
    rintro s _ l _ ⟨rfl, here⟩ rfl
    exact ⟨rfl, here⟩
  calls := by
    rintro s _ ⟨rfl, here⟩
    exact ⟨rfl, here⟩
  header := by
    rintro s _ ⟨rfl, here⟩ atRoot span data
    exact ⟨rfl, (Stays.header check atRoot span data s).1.trans here⟩
  still := by
    rintro s _ ⟨rfl, here⟩ f stays
    exact ⟨rfl, (stays s).1.trans here⟩

theorem run_get {α : Type} (f : SurveyState → Survey α) (s : SurveyState) : (get >>= f).run s = (f s).run s := rfl

theorem run_bind {α β : Type} (x : Survey α) (f : α → Survey β) (s : SurveyState) :
    (x >>= f).run s = (f (x.run s).1).run (x.run s).2 := rfl

section Replacing

variable {including including' : Include} {loader' : Loader} {span : Span} {path : String} {given : Names} {s : SurveyState}

/-- What is found at a reference to a document that is there: what is missing, and what is wrong with the document. -/
theorem include?_of_loads (including : Include) (span : Span) (given : Names) {next : Source}
    (open_ : ((Fields.get? s.source.path s.followed).getD []).contains path = false)
    (loads : loader path s.source.path = .ok (some next)) :
    let followed := (Fields.get? s.source.path s.followed).getD []
    let i := including next s.calls (Fields.set s.source.path (followed ++ [path]) s.followed)
    let done := (include? loader including span path given).run s
    done.1 = some i.state.resolved.text ∧ done.2.source = s.source ∧ done.2.followed = s.followed ∧
      done.2.resolved = s.resolved ∧ ∃ missing, (∀ fault ∈ missing, fault.defect.isLocal = true) ∧
        done.2.faults = s.faults ++ missing ++ i.state.faults.map fun fault => ⟨inReference fault.defect, span⟩ := by
  intro followed i done
  have split : done = ((do
      modify fun s => { s with paths := s.paths.union i.state.paths }
      reportMissing i.used given span
      i.state.faults.forM fun fault => report (inReference fault.defect) span
      modify fun s => { s with calls := i.state.calls, hashes := s.hashes ++ [i.state.hash] }
      return some i.state.resolved.text : Survey (Option (List Char)))).run s := by
    show (include? loader including span path given).run s = _
    unfold include?
    rw [run_get]
    dsimp only
    rw [open_, loads]
    rfl
  rw [split, reportMissing, run_bind, run_bind, run_forM_report, run_bind, run_forM_report]
  refine ⟨rfl, rfl, rfl, rfl, _, fun fault mem => ?_, rfl⟩
  obtain ⟨name, -, rfl⟩ := List.mem_map.mp mem
  rfl

/-- Where nothing is put in only the reason for it is found. -/
theorem include?_of_refused (including : Include) (span : Span) (given : Names)
    (refused : ((Fields.get? s.source.path s.followed).getD []).contains path = true ∨
      ∀ next, loader path s.source.path ≠ .ok (some next)) :
    ∃ defect, (include? loader including span path given).run s =
        (none, { s with faults := s.faults ++ [⟨defect, span⟩] }) ∧
      (defect = .circularReference ↔ ((Fields.get? s.source.path s.followed).getD []).contains path = true) := by
  unfold include?
  rw [run_get]
  dsimp only
  cases open_ : ((Fields.get? s.source.path s.followed).getD []).contains path with
  | true => exact ⟨.circularReference, rfl, fun _ => rfl, fun _ => rfl⟩
  | false =>
    rw [open_] at refused
    cases loads : loader path s.source.path with
    | error reason => exact ⟨.referenceFailed reason, rfl, nofun, nofun⟩
    | ok found =>
      cases found with
      | none => exact ⟨.referenceNotFound, rfl, nofun, nofun⟩
      | some next => exact (refused.resolve_left nofun next loads).elim

theorem include?_stays : ((include? loader including span path given).run s).2.source = s.source ∧
    ((include? loader including span path given).run s).2.followed = s.followed := by
  by_cases refused : ((Fields.get? s.source.path s.followed).getD []).contains path = true ∨
      ∀ next, loader path s.source.path ≠ .ok (some next)
  · obtain ⟨defect, run, -⟩ := include?_of_refused including span given refused
    rw [run]
    exact ⟨rfl, rfl⟩
  · obtain ⟨open_, loads⟩ := not_or.mp refused
    obtain ⟨next, loads⟩ := Classical.not_forall_not.mp loads
    obtain ⟨-, source, followed, -⟩ := include?_of_loads including span given
      (Bool.eq_false_iff.mpr open_) loads
    exact ⟨source, followed⟩

/-- A replaced reference leaves all but the text as putting the document in does. -/
theorem run_replaceReference (loader : Loader) (including : Include) (span : Span) (attributes : List Attribute)
    (path : String) (given : Names) (s : SurveyState) :
    let done := (include? loader including span path given).run s
    (replaceReference loader including span attributes path given).run s = ((), { done.2 with
      resolved := done.2.resolved.replace span (closedText ((attributes.filter (·.name != "path")).map fun a =>
        done.2.resolved.slice a.span) (done.1.getD (s.resolved.slice span))) }) := rfl

end Replacing

end Survey
end PromptScript
