import PromptScript.Proofs.Attributes
import PromptScript.Proofs.Guarded
import PromptScript.Proofs.Turns
import PromptScript.Proofs.Unseen

/-! # Tables sit on the way to a stop

Whatever a pass does, its scope stays sound; so it does the same with anything else put in the place of what is done
with a name without a cell. Where it goes on it leaves no table in the marks; where it stops, exactly the choices, loops
and closed parts around the step hold one. -/
namespace PromptScript

variable {σ : Type} {α : Type}

namespace Pass

variable {around : Surroundings} {size : Nat} {clean : α → Prop} {held : Config → Nat → α → Prop}

/-! ## Rounds -/

section Rounds

variable {resume resume' again again' : Pass σ (List Node × Flow)} {item : Binding} {index : Option Binding}

/-- After all rounds of a loop there is no table. -/
structure CleanRounds (r : Rounds) : Prop where
  body : Node.UntabledAll r.body
  table : r.table = none

/-- The pass has stopped in one of some number of rounds, whose table is sound. -/
structure HeldRound (total : Nat) (config : Config) (size : Nat) (r : Rounds) : Prop where
  body : Node.StopsAll config size r.body
  table : ∃ own, r.table = some own ∧ own.Sound size
  round : ∃ n, r.round = some n ∧ n < total

theorem carries_rounds
    (h : ∀ k, size ≤ k → Carries around k Node.UntabledAll (fun config => Node.StopsAll config) again again')
    (items : List Value) {n total : Nat} {body : List Node} (round : Option Nat) (inside : Node.UntabledAll body)
    (room : items = [] ∨ n + items.length ≤ total) : Carries around size CleanRounds (HeldRound total)
      (rounds item index again items n body round) (rounds item index again' items n body round) := by
  induction items generalizing n body round with
  | nil => exact Carries.goesOn ⟨inside, rfl⟩
  | cons v r ih =>
    have room : n + (r.length + 1) ≤ total := room.resolve_left (List.cons_ne_nil v r)
    refine (Carries.inView (show ∀ own : Pointers, none = some own → own.Sound size by rintro _ ⟨⟩) fun k le =>
      (sustains_declareItem item index v n).bind fun _ _ => h k le).goingOn ?_ fun (body, _) inside => ?_
    · rintro config k ⟨body, own⟩ ⟨sound, stops⟩
      exact ⟨stops, ⟨own, rfl, sound⟩, n, rfl, by omega⟩
    · exact ih (some n) inside (.inr (by omega))

theorem carries_roundsFrom
    (resumes : ∀ k, size ≤ k → Carries around k Node.UntabledAll (fun config => Node.StopsAll config) resume resume')
    (h : ∀ k, size ≤ k → Carries around k Node.UntabledAll (fun config => Node.StopsAll config) again again')
    {p : Progress} {items : List Value} {body : List Node} (sound : ∀ own, p.pointers = some own → own.Sound size)
    (fits : p.pointers = none ∧ Node.UntabledAll body ∨
      (∃ own, p.pointers = some own) ∧ p.round.getD 0 < items.length) :
    Carries around size CleanRounds (HeldRound items.length) (roundsFrom p item index items body resume again)
      (roundsFrom p item index items body resume' again') := by
  unfold roundsFrom
  dsimp only
  rcases fits with ⟨unheld, inside⟩ | ⟨⟨own, here⟩, there⟩
  · rw [unheld]
    refine carries_rounds h _ p.round inside ?_
    rcases Nat.lt_or_ge (p.round.getD 0) items.length with lt | ge
    · exact .inr (by rw [List.length_drop]; omega)
    · exact .inl (List.drop_eq_nil_of_le ge)
  · obtain ⟨v, r, left⟩ : ∃ v r, items.drop (p.round.getD 0) = v :: r :=
      List.exists_cons_of_ne_nil fun none_ => absurd (List.drop_eq_nil_iff.mp none_) (Nat.not_le_of_lt there)
    have length : (items.drop (p.round.getD 0)).length = r.length + 1 := by rw [left, List.length_cons]
    rw [List.length_drop] at length
    rw [here, left]
    refine (Carries.inView (fun table same => ?_) resumes).goingOn ?_ fun (body, _) inside => ?_
    · exact sound table (here.trans same)
    · rintro config k ⟨body, table⟩ ⟨sound, stops⟩
      exact ⟨stops, ⟨table, rfl, sound⟩, _, rfl, there⟩
    · exact carries_rounds h r _ inside (.inr (by omega))

end Rounds

/-! ## Tags -/

section Tags

variable (other : Fallback) (host : Host σ) (options : Options)

theorem carries_content (around₀ : Surroundings) (span : Span) (kind : Option ContentKind) (attributes : Attributes)
    {body : Pass σ (α × Flow)} {body' : ContentKind → Pass σ (α × Flow)}
    (h : ∀ kind, Carries around size clean held body (body' kind)) :
    Carries around size clean held (content options around₀ span kind attributes body)
      ((Acts.otherwise other host).content options around₀ span kind attributes body') := by
  refine (Sustains.of_blind (still_openContent _ _ _ _).apart).bind ?_
  rintro ⟨kind, attributes⟩ _
  exact (h kind).closing (Sustains.of_blind (apart_closeContent options span kind attributes))

theorem carries_message (around₀ : Surroundings) (span : Span) (role : Option Role) (attributes : Attributes)
    {body body' : Pass σ (α × Flow)} (h : Carries around size clean held body body') :
    Carries around size clean held (message options around₀ span role attributes body)
      ((Acts.otherwise other host).message options around₀ span role attributes body') := by
  refine (Sustains.of_blind (apart_openMessage options around₀ span role attributes)).bind ?_
  rintro ⟨role, attributes⟩ _
  exact h.closing (Sustains.of_blind (apart_closeMessage options span role attributes))

theorem yields_settings (around : Surroundings) (span : Span) (tags : List Attribute) (attributes : Attributes) :
    Yields (fun head => around.inStep = false ∧
        head.config = Attributes.toJson (Fields.erase "raw" (Fields.erase "as" attributes)))
      (openStep around span tags attributes : Pass σ StepHead) := by
  by_cases inside : around.inStep = true
  · exact fun _ _ _ ran => (not_runs_openStep inside ran).elim
  · unfold openStep
    rw [if_neg inside]
    refine (View.yields_staticAttribute "as" tags).bind fun _ _ => ?_
    exact (View.yields_staticAttribute "raw" tags).bind fun _ _ => yields_pure ⟨Bool.eq_false_iff.mpr inside, rfl⟩

theorem sustains_takeResponse : Sustains size (takeResponse : Pass σ _) (takeResponse : Pass σ _) fun _ => True := by
  intro s t safe
  obtain rfl := safe.same
  exact .ok ⟨⟨trivial, rfl⟩, rfl, safe.sound, safe.cells⟩

/-- A pass stops after the body of a step, in which it does not stop, and leaves the settings. -/
theorem carries_step (span : Span) (tags : List Attribute) (attributes : Attributes) {body body' : Pass σ (α × Flow)}
    (h : Carries { around with inStep := true } size clean held body body') :
    Carries around size (fun visited => visited = none)
      (fun config _ visited => (∃ a, visited = some a ∧ clean a) ∧
        config = Attributes.toJson (Fields.erase "raw" (Fields.erase "as" attributes)))
      (step options around span tags attributes body)
      ((Acts.otherwise other host).step options around span tags attributes body') := by
  refine (Sustains.of_apart (still_openStep _ _ _ _).apart (yields_settings around span tags attributes)).bind
    fun head ⟨outside, settings⟩ => sustains_takeResponse.bind fun response _ => ?_
  cases response with
  | none =>
    refine Abreast.bind h fun (a, flow) r' => ?_
    cases flow with
    | goesOn =>
      rintro s t ⟨⟨fine, rfl⟩, safe⟩
      obtain rfl := safe.same
      exact .ok ⟨⟨⟨outside, head.config, rfl, ⟨a, rfl, fine⟩, settings⟩, rfl⟩, rfl, safe.sound, safe.cells⟩
    | stops =>
      rintro s t ⟨⟨⟨within_, -⟩, -⟩, -⟩
      cases within_
  | some response =>
    exact (sustains_closeStep other host span head response).bind fun _ _ =>
      (Sustains.of_blind (apart_flushContent options)).bind fun _ _ => Carries.goesOn rfl

end Tags

/-! ## The walk -/

section Walk

variable (other : Fallback) (host : Host σ) (options : Options)

/-- Where a closed part is left, its table is gone. -/
theorem closedMarks_tableless {p : Progress} {scope : Scope} (h : p.stash = none → p.pointers = none) :
    Node.Tableless (some (closedMarks p .goesOn scope)) := by
  show (if p.stash.isSome then none else p.pointers) = none
  cases here : p.stash with
  | none => exact h here
  | some stash => rfl

mutual

theorem carries_walk (around : Surroundings) (inCall anew : Bool) : ∀ (n : Node) (size : Nat),
    (anew = false → n.isDone = false) → n.Ready size anew →
    Carries around size Node.Untabled (fun config => Node.Stops config) (walk (Expr.eval host) options around anew n)
      ((Acts.otherwise other host).walk options around inCall anew n)
  | .text span data p, _, _, ready => by
    have kept := ready.kept (by rintro _ ⟨⟩)
    exact (Sustains.of_blind (apart_addSegment _)).bind fun _ _ => Carries.goesOn (by cases anew <;> exact kept)
  | .comment span data p, _, _, ready => by
    have kept := ready.kept (by rintro _ ⟨⟩)
    exact Carries.goesOn (by cases anew <;> exact kept)
  | .config span data p, _, _, ready => by
    have kept := ready.kept (by rintro _ ⟨⟩)
    exact (Sustains.of_blind (apart_meetHeader span data)).bind fun _ _ =>
      Carries.goesOn (by cases anew <;> exact kept)
  | .interpolation span e p, _, _, ready => by
    have kept := ready.kept (by rintro _ ⟨⟩)
    exact (sustains_interpolate other host options around inCall span e).bind fun _ _ =>
      Carries.goesOn (by cases anew <;> exact kept)
  | .group _ body p, size, open_, ready => by
    obtain ⟨own, inside⟩ := ready.group
    rw [walk, Acts.walk]
    refine (carries_walkAll around inCall anew body size inside).into ?_ fun config k body' stops => ?_
    · exact fun _ clean => Node.untabled_group.mpr ⟨own, clean⟩
    · refine .group ?_ own stops
      cases anew with
      | true => exact Bool.false_ne_true
      | false => exact Bool.eq_false_iff.mp (open_ rfl)
  | .choice span test body none p, size, open_, ready => by
    have open_ := Node.open_marks open_
    obtain ⟨sound, branches⟩ := ready.choice rfl
    rw [walk, Acts.walk]
    refine (sustains_remembered _ (sustains_evaluate other host test)).bind fun v known => ?_
    by_cases holds : v.isTruthy = true
    · simp only [if_pos holds]
      obtain ⟨inside, beside⟩ := (branches v known).1 holds
      refine (Carries.inView sound fun k le => carries_walkAll around inCall anew body k (inside.mono le)).into ?_ ?_
      · exact fun _ clean => Node.untabled_choice.mpr ⟨rfl, clean, by rintro _ ⟨⟩⟩
      · exact fun config k x ⟨sound, stops⟩ => .holds open_ rfl holds rfl sound stops (by rintro _ ⟨⟩)
    · simp only [if_neg holds]
      obtain ⟨inside, -⟩ := (branches v known).2 (Bool.eq_false_iff.mpr holds)
      exact Carries.goesOn (Node.untabled_choice.mpr ⟨rfl, inside, by rintro _ ⟨⟩⟩)
  | .choice span test body (some others) p, size, open_, ready => by
    have open_ := Node.open_marks open_
    obtain ⟨sound, branches⟩ := ready.choice rfl
    rw [walk, Acts.walk]
    refine (sustains_remembered _ (sustains_evaluate other host test)).bind fun v known => ?_
    by_cases holds : v.isTruthy = true
    · simp only [if_pos holds]
      obtain ⟨inside, beside⟩ := (branches v known).1 holds
      refine (Carries.inView sound fun k le => carries_walkAll around inCall anew body k (inside.mono le)).into ?_ ?_
      · exact fun _ clean => Node.untabled_choice.mpr ⟨rfl, clean, by rintro _ ⟨⟩; exact beside _ rfl⟩
      · exact fun config k x ⟨sound, stops⟩ =>
          .holds open_ rfl holds rfl sound stops (by rintro _ ⟨⟩; exact beside _ rfl)
    · simp only [if_neg holds]
      obtain ⟨inside, beside⟩ := (branches v known).2 (Bool.eq_false_iff.mpr holds)
      refine (Carries.inView sound fun k le =>
        carries_walkAll around inCall anew others k ((beside others rfl).mono le)).into ?_ ?_
      · exact fun _ clean => Node.untabled_choice.mpr ⟨rfl, inside, by rintro _ ⟨⟩; exact clean⟩
      · exact fun config k x ⟨sound, stops⟩ => .fails open_ rfl (Bool.eq_false_iff.mpr holds) rfl sound stops inside
  | .loop span e item index body none p, size, open_, ready => by
    have open_ := Node.open_marks open_
    obtain ⟨sound, parts⟩ := ready.loop rfl
    rw [walk, Acts.walk]
    refine (sustains_remembered _ (sustains_evaluate other host e)).bind fun v known => ?_
    refine (Sustains.of_apart (still_itemsOf e v).apart (View.yields_itemsOf e v)).bind fun vs list => ?_
    subst list
    obtain ⟨inside, -, fits⟩ : _ ∧ _ ∧ _ :=
      (parts vs known).resolve_right fun ⟨_, _, _, here, _⟩ => by cases here
    refine (carries_roundsFrom (fun k le => carries_walkAll around inCall anew body k (inside.mono le))
      (fun k _ => carries_walkAll around inCall true body k inside.again) sound fits).into ?_ ?_
    · exact fun r clean => Node.untabled_loop.mpr ⟨clean.table, clean.body, by rintro _ ⟨⟩⟩
    · rintro config k r ⟨stops, ⟨table, held, sound⟩, n, round, there⟩
      exact .round open_ rfl round there held sound stops (by rintro _ ⟨⟩)
  | .loop span e item index body (some others) p, size, open_, ready => by
    have open_ := Node.open_marks open_
    obtain ⟨sound, parts⟩ := ready.loop rfl
    rw [walk, Acts.walk]
    refine (sustains_remembered _ (sustains_evaluate other host e)).bind fun v known => ?_
    refine (Sustains.of_apart (still_itemsOf e v).apart (View.yields_itemsOf e v)).bind fun vs list => ?_
    subst list
    cases vs with
    | nil =>
      obtain ⟨inside, beside⟩ : Node.UntabledAll (untouched anew body) ∧ Node.ReadyAll size anew others := by
        rcases parts [] known with ⟨-, beside, ⟨-, inside⟩ | ⟨-, there⟩⟩ | ⟨-, inside, _, here, beside⟩
        · exact ⟨inside, .inl (beside others rfl)⟩
        · cases there
        · obtain rfl := Option.some.inj here
          exact ⟨inside, beside⟩
      refine (Carries.inView sound fun k le => carries_walkAll around inCall anew others k (beside.mono le)).into ?_ ?_
      · exact fun _ clean => Node.untabled_loop.mpr ⟨rfl, inside, by rintro _ ⟨⟩; exact clean⟩
      · exact fun config k x ⟨sound, stops⟩ => .idle open_ rfl rfl sound stops inside
    | cons w vs =>
      obtain ⟨inside, beside, fits⟩ : _ ∧ _ ∧ _ :=
        (parts (w :: vs) known).resolve_right fun ⟨none_, _⟩ => List.cons_ne_nil w vs none_
      have beside := beside others rfl
      refine (carries_roundsFrom (fun k le => carries_walkAll around inCall anew body k (inside.mono le))
        (fun k _ => carries_walkAll around inCall true body k inside.again) sound fits).into ?_ ?_
      · exact fun r clean => Node.untabled_loop.mpr ⟨clean.table, clean.body, by rintro _ ⟨⟩; exact beside⟩
      · rintro config k r ⟨stops, ⟨table, held, sound⟩, n, round, there⟩
        exact .round open_ rfl round there held sound stops (by rintro _ ⟨⟩; exact beside)
  | .element span tag attributes body p, size, open_, ready => by
    have open_ := Node.open_marks open_
    have parts := ready.parts
    rw [walk, Acts.walk]
    refine (Sustains.of_blind (apart_flushPassage options)).bind fun _ _ => ?_
    refine (sustains_rememberedAttributes other host _ attributes).bind fun values _ => ?_
    cases tag with
    | content kind =>
      obtain ⟨own, inside⟩ := ready.inside (by rintro ⟨⟩) rfl
      refine (carries_content other host options around span kind values fun kind =>
        carries_walkAll { around with inContent := true } _ anew body size inside).into ?_ ?_
      · exact fun _ clean => Node.untabled_element.mpr ⟨own, parts, clean⟩
      · exact fun config k _ stops => .content open_ rfl own parts stops
    | message role =>
      obtain ⟨own, inside⟩ := ready.inside (by rintro ⟨⟩) rfl
      refine (carries_message other host options around span role values
        (carries_walkAll { around with inMessage := true } inCall anew body size inside)).into ?_ ?_
      · exact fun _ clean => Node.untabled_element.mpr ⟨own, parts, clean⟩
      · exact fun config k _ stops => .message open_ rfl own parts stops
    | scope =>
      obtain ⟨unsaved, saved, inside⟩ := ready.scope rfl
      refine (sustains_closedScope other host _ values body saved).bind fun scope ⟨sound, known⟩ => ?_
      refine (Carries.inScope sound (carries_walkAll around inCall anew body _ (inside scope known))).into ?_ ?_
      · exact fun _ clean => Node.untabled_element.mpr ⟨closedMarks_tableless unsaved, parts, clean⟩
      · exact fun config _ x ⟨sound, stops⟩ => .scope open_ rfl rfl rfl sound parts stops
    | step =>
      obtain ⟨own, inside⟩ := ready.inside (by rintro ⟨⟩) rfl
      refine (carries_step other host options span attributes values
        (carries_walkAll { around with inStep := true } inCall anew body size inside)).into ?_ ?_
      · rintro _ rfl
        exact Node.untabled_element.mpr ⟨own, parts, ready.step⟩
      · rintro config k _ ⟨⟨_, rfl, clean⟩, settings⟩
        exact .step open_ rfl own settings parts clean
    | reference => exact safe_fail _

theorem carries_walkAll (around : Surroundings) (inCall anew : Bool) : ∀ (nodes : List Node) (size : Nat),
    Node.ReadyAll size anew nodes →
    Carries around size Node.UntabledAll (fun config => Node.StopsAll config)
      (walkAll (Expr.eval host) options around anew nodes)
      ((Acts.otherwise other host).walkAll options around inCall anew nodes)
  | [], _, _ => Carries.goesOn Node.untabledAll_nil
  | n :: r, size, ready => by
    rw [walkAll, Acts.walkAll]
    by_cases done : (!anew && n.isDone) = true
    · rw [if_pos done, if_pos done]
      obtain ⟨first, rest⟩ := ready.done done
      have finished : n.isDone = true := (Bool.and_eq_true_iff.mp done).2
      refine (carries_walkAll around inCall anew r size rest).into ?_ ?_
      · exact fun _ clean => Node.untabledAll_cons.mpr ⟨first, clean⟩
      · exact fun config k _ stops => .done finished first stops
    · rw [if_neg done, if_neg done]
      obtain ⟨first, rest⟩ := ready.open_ done
      have open_ : anew = false → n.isDone = false := by
        rintro rfl
        exact Bool.eq_false_iff.mpr done
      refine (carries_walk around inCall anew n size open_ first).goingOn ?_ fun n clean => ?_
      · exact fun config k _ stops => .here stops rest
      · refine (carries_walkAll around inCall anew r size (.inl rest)).into ?_ ?_
        · exact fun _ later => Node.untabledAll_cons.mpr ⟨clean.finished, later⟩
        · exact fun config k _ stops => .done n.isDone_finished clean.finished stops

end

/-- What is left over becomes a message; the settings stay. -/
theorem stepConfig_of_flushContent {s t : PassState σ} (ran : Runs (flushContent options) s () t) :
    t.stepConfig = s.stepConfig := by
  have flushed {s t : PassState σ} (ran : Runs (flushPassage options) s () t) : t.stepConfig = s.stepConfig := by
    obtain ⟨p, s', taken, added⟩ := runs_bind.mp ran
    obtain ⟨-, rfl⟩ := Prod.mk.inj taken
    cases p with
    | none =>
      obtain ⟨-, rfl⟩ := runs_pure.mp added
      rfl
    | some p =>
      obtain ⟨-, rfl⟩ := Prod.mk.inj added
      rfl
  obtain ⟨content, s', taken, rest⟩ := runs_bind.mp ran
  obtain ⟨⟨⟩, s₁, first, taken⟩ := runs_bind.mp taken
  have same := flushed first
  obtain ⟨-, rfl⟩ := Prod.mk.inj taken
  cases content with
  | nil =>
    obtain ⟨-, rfl⟩ := runs_pure.mp rest
    exact same
  | cons c content =>
    obtain ⟨m, s₂, made, added⟩ := runs_bind.mp rest
    obtain ⟨rfl, -⟩ := (still_messageOf _ _ _).runs made
    obtain ⟨-, rfl⟩ := Prod.mk.inj added
    exact same

theorem ends_flushContent {around : Surroundings} {size : Nat} {r r' : α × Flow} {clean : α → Prop}
    {held : Config → Nat → α → Prop} :
    Abreast Eq (fun s t => (Ends around clean held r s ∧ r = r') ∧ Safe size s t) (flushContent options : Pass σ Unit)
      (flushContent options) fun _ _ s t => (Ends around clean held r s ∧ r = r') ∧ Safe size s t := by
  rintro s t ⟨⟨ends, same⟩, safe⟩
  obtain rfl := safe.same
  generalize ran : (flushContent options).run.run s = x
  obtain ⟨_ | ⟨⟨⟩⟩, u⟩ := x
  · exact .error rfl
  · have machine := (apart_flushContent options).machine_eq ran
    have settings := stepConfig_of_flushContent options ran
    refine .ok ⟨⟨?_, same⟩, rfl, by rw [machine]; exact safe.sound, by rw [machine]; exact safe.cells⟩
    unfold Ends at ends ⊢
    rw [machine, settings]
    exact ends

end Walk
end Pass

namespace Document

open Pass

variable (other : Fallback) (host : Host σ) (options : Options)

theorem carries_visit {d : Document} {size : Nat} (ready : d.Ready size) :
    Carries {} size Untabled (fun config => Stops config) (d.visit (Expr.eval host) options)
      (d.visitActing (Acts.otherwise other host) options) := by
  obtain ⟨sound, inside⟩ := ready.inside
  refine Abreast.bind (Carries.inView sound fun k le =>
    carries_walkAll other host options {} false false d.body k (inside.mono le)) fun r r' => ?_
  refine Abreast.bind (ends_flushContent options) fun _ _ => Abreast.pure ?_
  obtain ⟨⟨body, table⟩, flow⟩ := r
  rintro s t ⟨⟨ends, rfl⟩, safe⟩
  refine ⟨⟨?_, rfl⟩, safe⟩
  cases flow with
  | goesOn => exact untabled_iff.mpr ⟨rfl, ends⟩
  | stops =>
    obtain ⟨outside, config, settings, sound, stops⟩ := ends
    exact ⟨outside, config, settings, ⟨table, rfl, sound⟩, stops⟩

/-- Where the tables of a document are after a pass. -/
def TabledBy (outcome : Outcome) : Prop :=
  (outcome.completed = true → outcome.document.Untabled) ∧
    (outcome.completed = false → ∃ config, outcome.stepConfig = some config ∧
      outcome.document.Stops config outcome.stash.size)

/-- **A pass with a sound scope never comes to a name without a cell**, whether it ends with a fault or not: with
something else in the place of what is done then, it does the same. Cells are added, and the tables in the marks are on
the way to the step where it stopped. -/
theorem pass_otherwise {d : Document} {m : Machine σ} (sound : m.scope.Sound) (ready : d.Ready m.scope.stash.size)
    (response : Option (List Content)) :
    d.passOtherwise other host options response m = d.pass (Expr.eval host) options response m ∧
      ∀ outcome m', d.pass (Expr.eval host) options response m = (.ok outcome, m') →
        m.scope.stash.size ≤ outcome.stash.size ∧ TabledBy outcome := by
  have both := carries_visit other host options ready (.opening m response) _ ⟨rfl, sound, Nat.le_refl _⟩
  unfold passOtherwise pass
  rw [show (visit (Expr.eval host) options d).run.run ⟨m, #[], [], [], response, none, none⟩ =
    (visit (Expr.eval host) options d).run.run (.opening m response) from rfl]
  generalize (visit (Expr.eval host) options d).run.run (.opening m response) = x at both ⊢
  generalize (d.visitActing (Acts.otherwise other host) options).run.run (.opening m response) = y at both ⊢
  cases both with
  | error same =>
    obtain rfl := same
    exact ⟨rfl, by rintro _ _ ⟨⟩⟩
  | @ok r r' s t both =>
    obtain ⟨⟨ends, rfl⟩, rfl, -, cells⟩ := both
    refine ⟨rfl, ?_⟩
    obtain ⟨document, flow⟩ := r
    rintro _ _ ⟨⟩
    refine ⟨cells, ?_⟩
    cases flow with
    | goesOn => exact ⟨fun _ => ends, by rintro ⟨⟩⟩
    | stops => exact ⟨by rintro ⟨⟩, fun _ => ends.2⟩

end Document
end PromptScript

/-! ## The tables of a chain

A chain starts with a sound scope and a document without tables. After each turn its scope is sound, and the tables in
its document are on the way to the step where the turn has stopped; so no turn ever comes to a name without a cell. -/
namespace PromptScript

namespace Node

variable {nodes : List Node} {attributes : List Attribute}

theorem untabledAll_of_forall (h : ∀ n ∈ nodes, n.Untabled) : UntabledAll nodes := by
  induction nodes with
  | nil => exact untabledAll_nil
  | cons n r ih =>
    obtain ⟨first, rest⟩ := List.forall_mem_cons.mp h
    exact untabledAll_cons.mpr ⟨first, ih rest⟩

theorem untabledAttributes_of_forall (h : ∀ a ∈ attributes, a.Holds Untabled) : UntabledAttributes attributes := by
  intro size
  induction attributes with
  | nil => rfl
  | cons a r ih =>
    obtain ⟨first, rest⟩ := List.forall_mem_cons.mp h
    obtain ⟨span, name, _ | parts⟩ := a
    · exact ih rest
    · exact List.append_eq_nil_iff.mpr ⟨untabledAll_of_forall first size, ih rest⟩

theorem built_untabled : Grammar.Built Untabled Untabled where
  text _ _ _ := rfl
  value _ _ _ := rfl
  words _ _ _ := rfl
  comment _ _ _ := rfl
  header _ _ _ := rfl
  interpolation _ _ _ := rfl
  choice _ _ _ _ inside beside := untabled_choice.mpr
    ⟨rfl, untabledAll_of_forall inside, fun nodes here => untabledAll_of_forall (beside nodes here)⟩
  loop _ _ _ _ _ _ inside beside := untabled_loop.mpr
    ⟨rfl, untabledAll_of_forall inside, fun nodes here => untabledAll_of_forall (beside nodes here)⟩
  element _ _ _ _ parts _ inside := untabled_element.mpr
    ⟨rfl, untabledAttributes_of_forall parts, untabledAll_of_forall inside⟩

end Node

/-- A document that has just been read has no tables. -/
theorem Document.untabled_of_parse {source : List Char} {d : Document} (h : parse source = .ok d) : d.Untabled := by
  obtain ⟨-, unmarked⟩ := Grammar.unmarked_of_parse h
  refine untabled_iff.mpr ⟨?_, Node.untabledAll_of_forall (Node.built_untabled.of_parse h)⟩
  rw [unmarked]
  rfl

namespace Chain

variable {σ : Type} {host : Host σ}

/-- The tables of a chain whose last turn is given, if it has taken one: its scope is sound; its document has tables on
the way to the step where the turn stopped, and none if it did not stop. -/
structure Tabled (last : Option Turn) (chain : Chain) : Prop where
  scope : chain.scope.Sound
  whole : (∀ turn, last = some turn → turn.outcome.completed = true) → chain.document.Untabled
  stopped : ∀ turn, last = some turn → turn.outcome.completed = false →
    ∃ config, turn.outcome.stepConfig = some config ∧ chain.document.Stops config chain.scope.stash.size

section Tabled

variable {last : Option Turn} {chain : Chain}

theorem tabled_of_start {source : String} {parameters : List (String × Value)} {format : Format} {options : Options}
    (begins : start source parameters format options = .ok chain) : chain.Tabled none := by
  obtain ⟨-, -, -, -, -, -, parsed, scope⟩ := start_eq_ok begins
  refine ⟨?_, fun _ => Document.untabled_of_parse parsed, by rintro _ ⟨⟩⟩
  rw [scope]
  exact (Scope.ofListOr_eq ⟨fun _ _ => .ok none, fun scope _ _ => .ok scope⟩ parameters).2

theorem Tabled.untabled_or_stops (h : chain.Tabled last) :
    chain.document.Untabled ∨ ∃ turn config, last = some turn ∧ turn.outcome.completed = false ∧
      turn.outcome.stepConfig = some config ∧ chain.document.Stops config chain.scope.stash.size := by
  cases last with
  | none => exact .inl (h.whole (by rintro _ ⟨⟩))
  | some turn =>
    cases completed : turn.outcome.completed with
    | true => exact .inl (h.whole (by rintro _ ⟨⟩; exact completed))
    | false =>
      obtain ⟨config, settings, stops⟩ := h.stopped turn rfl completed
      exact .inr ⟨turn, config, rfl, completed, settings, stops⟩

theorem Tabled.ready (h : chain.Tabled last) : chain.document.Ready chain.scope.stash.size :=
  h.untabled_or_stops.imp_right fun ⟨_, config, _, _, _, stops⟩ => ⟨config, stops⟩

theorem Tabled.sound (h : chain.Tabled last) : Node.AllSound (chain.document.tables chain.scope.stash.size) := by
  rcases h.untabled_or_stops with untabled | ⟨_, _, _, _, _, stops⟩
  · exact Node.allSound_of_eq_nil (untabled _)
  · exact stops.sound

/-- A turn leaves the tables on the way to its own stop. -/
theorem Tabled.after (h : chain.Tabled last) {response : Option Response} {world world' : World σ} {turn : Turn}
    (taken : Taken (Expr.eval host) chain response world turn world') : (chain.after turn).Tabled (some turn) := by
  obtain ⟨machine, -, passed⟩ := taken.passed
  obtain ⟨cells, whole, stopped⟩ := (Document.pass_otherwise ⟨fun _ _ => .ok none, fun scope _ _ => .ok scope⟩ host
    chain.options h.scope h.ready (turn.answer.map Answer.content)).2 _ _ passed
  refine ⟨h.scope.mono cells, fun all => whole (all turn rfl), ?_⟩
  rintro _ ⟨⟩ open_
  exact stopped open_

theorem Run.tabled {world world' : World σ} {turns : List (Option Response × Turn)} {final : Chain}
    (run : Run (Expr.eval host) chain world turns final world') (h : chain.Tabled last) :
    final.Tabled ((turns.getLast?.map Prod.snd).or last) := by
  induction run generalizing last with
  | none => exact h
  | @turn _ _ _ _ _ _ turn turns taken _ ih =>
    have later := ih (h.after taken)
    rw [List.getLast?_cons]
    cases final : turns.getLast? with
    | none =>
      rw [final] at later
      exact later
    | some t =>
      rw [final] at later
      exact later

end Tabled

/-- **Tables are sound, and sit on the way to the stop.** In every state that a chain comes to, its scope is sound and
so are all tables in the marks of its document, each for the cells that it belongs to; the document and exactly the
choices, loops and closed parts around the step where the last pass stopped hold one. So neither at the start nor in
any pass, even one that fails, does it ever come to a name whose cell is not there: with something else in the place of
what is done then, all is the same. -/
theorem tables_lead_to_stop {source : String} {parameters : List (String × Value)} {format : Format} {options : Options}
    {first last : Chain} {turns : List (Option Response × Turn)} {world world' : World σ}
    (begins : start source parameters format options = .ok first)
    (run : Run (Expr.eval host) first world turns last world') :
    last.Tabled (turns.getLast?.map Prod.snd) ∧
      Node.AllSound (last.document.tables last.scope.stash.size) ∧
      (∀ other, Scope.ofListOr other parameters = .ok first.scope) ∧
      ∀ other response w, last.document.passOtherwise other host last.options response ⟨w, last.scope⟩ =
        last.document.pass (Expr.eval host) last.options response ⟨w, last.scope⟩ := by
  have tabled := run.tabled (tabled_of_start begins)
  rw [Option.or_none] at tabled
  obtain ⟨-, -, -, -, -, -, -, scope⟩ := start_eq_ok begins
  refine ⟨tabled, tabled.sound, fun other => ?_, fun other response w => ?_⟩
  · rw [scope]
    exact (Scope.ofListOr_eq other parameters).1
  · exact (Document.pass_otherwise other host last.options tabled.scope tabled.ready response).1

/-- A step in a choice in a loop in a closed part: where the second round has stopped there, the document and all three
hold a table. -/
theorem tables_in_rounds : ∃ first last turns world,
    start "<scope items=\x7b\x7b items \x7d\x7d>\x7b\x7b for x in items \x7d\x7d\x7b\x7b if x \x7d\x7d<step>?</step>\x7b\x7b endif \x7d\x7d\x7b\x7b endfor \x7d\x7d</scope>"
        [("items", .array [.bool true, .bool true])] .canonical {} = .ok first ∧
      Run (Expr.eval Host.idle) first ⟨0, ()⟩ turns last world ∧ turns.map Prod.fst = [none, some (.text "1")] ∧
      (last.document.tables last.scope.stash.size).map Prod.snd = [1, 3, 3, 3] ∧
      (∃ config, last.document.Stops config last.scope.stash.size) ∧
      Node.AllSound (last.document.tables last.scope.stash.size) := by
  have made : reaches (Expr.eval Host.idle)
      "<scope items=\x7b\x7b items \x7d\x7d>\x7b\x7b for x in items \x7d\x7d\x7b\x7b if x \x7d\x7d<step>?</step>\x7b\x7b endif \x7d\x7d\x7b\x7b endfor \x7d\x7d</scope>"
      [("items", .array [.bool true, .bool true])] .canonical {} [none, some (.text "1")] ⟨0, ()⟩
      (fun last _ => (last.document.tables last.scope.stash.size).map Prod.snd = [1, 3, 3, 3]) := by
    decide +kernel
  obtain ⟨first, last, turns, world, begins, run, answers, cells⟩ := exists_run_of_reaches made
  have cells : (last.document.tables last.scope.stash.size).map Prod.snd = [1, 3, 3, 3] := of_decide_eq_true cells
  obtain ⟨tabled, sound, -⟩ := tables_lead_to_stop begins run
  refine ⟨first, last, turns, world, begins, run, answers, cells, ?_, sound⟩
  rcases tabled.untabled_or_stops with untabled | ⟨_, config, _, _, _, stops⟩
  · rw [untabled] at cells
    cases cells
  · exact ⟨config, stops⟩

end Chain
end PromptScript
