import PromptScript.Proofs.Asides
import PromptScript.Proofs.RejoinedPasses

/-! # Walks over nodes that say the same

Nodes that say the same are visited with the same effect, stop at the same steps, and say the same afterwards. -/
namespace PromptScript.Pass

open Node (Like LikeAll Run)

variable {σ : Type} {g g' : Option Config} (options : Options)

/-! ## Evaluations -/

section Evaluate

variable {eval : Evaluator σ} (placeless : Expr.Placeless eval)

include placeless

theorem likewise_evaluate {e e' : Expr} (same : e.unplaced = e'.unplaced) :
    Likewise g g' (evaluate eval e) (evaluate eval e') := by
  intro s t here
  show Agree _ _ _ ((evaluate eval e).result s) ((evaluate eval e').result t)
  have both := placeless e e' same s.machine t.machine here.machine
  rw [result_evaluate, result_evaluate]
  generalize (eval e).run.run s.machine = x at both
  generalize (eval e').run.run t.machine = y at both
  cases both with
  | ok same h => exact .ok same { here with machine := h }
  | error h => exact .error { here with machine := h }

theorem likewise_interpolate (around : Surroundings) (span span' : Span) {e e' : Expr} (same : e.unplaced = e'.unplaced) :
    Likewise g g' (interpolate eval options around span e) (interpolate eval options around span' e') := by
  have names : e.name? = e'.name? := by rw [← Expr.name?_unplaced, same, Expr.name?_unplaced]
  have assigns : e.isAssignment = e'.isAssignment := by
    rw [← Expr.isAssignment_unplaced, same, Expr.isAssignment_unplaced]
  refine (likewise_evaluate placeless same).next fun v => ?_
  rw [names, assigns]
  split
  · exact .pure rfl
  · split
    · exact .pure rfl
    · exact likewise_putValue options _ _ _ _ _

theorem likewise_attributeParts {parts parts' : List Node} (like : Node.PartsLike parts parts') :
    Likewise g g' (attributeParts eval parts) (attributeParts eval parts') := by
  induction like with
  | nil => exact .pure rfl
  | text _ ih => exact ih.next fun _ => .pure rfl
  | interpolation same _ ih =>
    refine (likewise_evaluate placeless same).next fun v => ?_
    -- What is undefined does not count.
    cases v <;> first | exact ih | exact ih.next fun _ => .pure rfl
  | other n _ ih =>
    cases n with
    | text => exact ih.next fun _ => .pure rfl
    | interpolation =>
      refine (likewise_evaluate placeless rfl).next fun v => ?_
      cases v <;> first | exact ih | exact ih.next fun _ => .pure rfl
    | _ => exact ih

theorem likewise_attributeValues {attributes attributes' : List Attribute} (like : Attribute.Like attributes attributes')
    (acc : Attributes) : Likewise g g' (attributeValues eval attributes acc) (attributeValues eval attributes' acc) := by
  induction like generalizing acc with
  | nil => exact .pure rfl
  | flag _ ih => exact ih _
  | nodes same _ ih =>
    refine (likewise_attributeParts placeless same).next fun vs => ?_
    match vs with
    | [] => exact ih _
    | [_] => exact ih _
    | _ :: _ :: _ => exact ih _

theorem likewise_rememberedAttributes {attributes attributes' : List Attribute} (like : Attribute.Like attributes attributes')
    (p : Progress) : Likewise g g' (rememberedAttributes eval p attributes) (rememberedAttributes eval p attributes') := by
  unfold rememberedAttributes
  split
  · exact .pure rfl
  · exact likewise_attributeValues placeless like _

theorem likewise_remembered {e e' : Expr} (same : e.unplaced = e'.unplaced) (p : Progress) :
    Likewise g g' (remembered p (evaluate eval e)) (remembered p (evaluate eval e')) := by
  unfold remembered
  split
  · exact .pure rfl
  · exact likewise_evaluate placeless same

end Evaluate

/-! ## Closed parts and rounds -/

theorem likewise_closedScope {body body' : List Node} (like : LikeAll body body') (p : Progress) (attributes : Attributes) :
    Likewise (σ := σ) g g' (closedScope p attributes body) (closedScope p attributes body') := by
  unfold closedScope
  split
  · exact .pure rfl
  · have found := like.closureFaults (Fields.names attributes)
    unfold newScope
    generalize Node.closureFaults _ body = x at found
    generalize Node.closureFaults _ body' = y at found
    match x, y, found with
    | [], [], _ => exact .pure rfl
    | ⟨_, _⟩ :: _, ⟨_, _⟩ :: _, found =>
      cases (List.cons.inj found).1
      exact .throw _ _ _

/-- The rounds of two loops leave the same behind. -/
structure Rounds.Like (a b : Rounds) : Prop where
  body : LikeAll a.body b.body
  round : a.round = b.round
  table : a.table = b.table

section Rounds

variable {item item' : Binding} {index index' : Option Binding}
  (names : item.name = item'.name ∧ index.map Binding.name = index'.map Binding.name)

include names

theorem likewise_declareItem (v : Value) (n : Nat) :
    Likewise (σ := σ) g g' (declareItem item index v n) (declareItem item' index' v n) := by
  obtain ⟨items, indices⟩ := names
  unfold declareItem declare
  rw [items]
  refine (likewise_modifyScope _).next fun _ => ?_
  match index, index', indices with
  | none, none, _ => exact .pure rfl
  | some index, some index', indices =>
    dsimp only
    rw [show index.name = index'.name from Option.some.inj indices]
    exact likewise_modifyScope _

variable {again again' : Pass σ (List Node × Flow)} (inside : Alongside LikeAll g g' again again')

include inside

theorem rounds_elsewhere (vs : List Value) : ∀ (n : Nat) {body body' : List Node} (_ : LikeAll body body')
    (round : Option Nat), Alongside Rounds.Like g g' (rounds item index again vs n body round)
      (rounds item' index' again' vs n body' round) := by
  induction vs with
  | nil => exact fun _ _ _ like _ => .pure ⟨⟨like, rfl, rfl⟩, rfl⟩
  | cons v vs ih =>
    intro n body body' like round
    have each : Alongside LikeAll g g' (do declareItem item index v n; again) (do declareItem item' index' v n; again') :=
      (likewise_declareItem names v n).next fun _ => inside
    refine (each.inView none).goingOn ?_ ?_
    · rintro ⟨body, _⟩ ⟨body', _⟩ ⟨like, rfl⟩
      exact ⟨like, rfl, rfl⟩
    · rintro ⟨body, _⟩ ⟨body', _⟩ ⟨like, rfl⟩
      exact ih _ like _

theorem roundsFrom_elsewhere (p : Progress) (vs : List Value) {body body' : List Node} (like : LikeAll body body')
    {resume resume' : Pass σ (List Node × Flow)} (resumes : Alongside LikeAll g g' resume resume') :
    Alongside Rounds.Like g g' (roundsFrom p item index vs body resume again)
      (roundsFrom p item' index' vs body' resume' again') := by
  unfold roundsFrom
  dsimp only
  split
  · refine (resumes.inView _).goingOn ?_ ?_
    · rintro ⟨body, _⟩ ⟨body', _⟩ ⟨like, rfl⟩
      exact ⟨like, rfl, rfl⟩
    · rintro ⟨body, _⟩ ⟨body', _⟩ ⟨like, rfl⟩
      exact rounds_elsewhere names inside _ _ like _
  · exact rounds_elsewhere names inside _ _ like _

end Rounds

/-! ## Runs of text -/

/-- Adds pieces to the passage. -/
def addPieces (pieces : Passage) : Pass σ Unit := modify fun s => { s with passage := s.passage ++ pieces }

/-- Pieces that are the given text of the document. -/
structure Spells (pieces : Passage) (text : String) : Prop where
  stream : ∀ n, pieces.stream n = text.toList.map (·, 0)
  identifiers : pieces.identifiers = []

theorem likewise_addPieces {pieces pieces' : Passage} {text : String} (h : Spells pieces text) (h' : Spells pieces' text) :
    Likewise (σ := σ) g g' (addPieces pieces) (addPieces pieces') :=
  .modify fun _ _ here => { here with
    passage := here.passage.append (fun n => (h'.stream n).trans (h.stream n).symm) (h'.identifiers.trans h.identifiers.symm) }

theorem into_into {α β γ : Type} (f : α → Flow → β) (k : β → Flow → γ) (part : Pass σ (α × Flow)) :
    into k (into f part) = into (fun a flow => k (f a flow) flow) part := by
  simp only [into, bind_assoc, pure_bind]

section Run

variable (eval : Evaluator σ) {around : Surroundings} {done : Bool} {nodes : List Node} {text : String}

/-- Nodes that are done are left out. -/
theorem walkAll_of_doneBefore {done : List Node} (h : ∀ n ∈ done, n.isDone = true) (r : List Node) :
    walkAll eval options around false (done ++ r) = into (fun r _ => done ++ r) (walkAll eval options around false r) := by
  induction done with
  | nil => exact (bind_pure _).symm
  | cons n nodes ih =>
    obtain ⟨marks, later⟩ := List.forall_mem_cons.mp h
    rw [List.cons_append, walkAll, ih later, into_into, marks]
    rfl

/-- A run that is visited adds its text to the passage. -/
theorem walkAll_of_run (around : Surroundings) {anew : Bool} (fresh : (!anew && done) = false) (h : Run done nodes text) :
    ∃ pieces nodes', Spells pieces text ∧ Run true nodes' text ∧ ∀ r, walkAll eval options around anew (nodes ++ r) = (do
      addPieces pieces
      into (fun r _ => nodes' ++ r) (walkAll eval options around anew r)) := by
  have open_ (n : Node) (marks : n.isDone = done) : (!anew && n.isDone) = false := marks ▸ fresh
  induction h with
  | nil =>
    refine ⟨[], [], ⟨fun _ => rfl, rfl⟩, .nil, fun r => ?_⟩
    have none : (addPieces [] : Pass σ Unit) = pure () := by
      funext s
      show (Except.ok (), { s with passage := s.passage ++ [] }) = _
      rw [List.append_nil]
      rfl
    rw [none, pure_bind]
    exact (bind_pure _).symm
  | @text span data p r s marks _ ih =>
    obtain ⟨pieces, nodes', spells, run, same⟩ := ih
    refine ⟨.literal data :: pieces, (Node.text span data (if anew then none else p)).finished :: nodes', ⟨fun n => ?_, ?_⟩,
      .text rfl run, fun r => ?_⟩
    · rw [Passage.stream, spells.stream, ← List.map_append, String.toList_append]
    · exact spells.identifiers
    · have both (c : Pass σ (List Node × Flow)) : (do addSegment (.literal data); addPieces pieces; c) =
          (do addPieces (.literal data :: pieces); c) := by
        funext s
        show c { s with passage := s.passage ++ [.literal data] ++ pieces } =
          c { s with passage := s.passage ++ .literal data :: pieces }
        rw [List.append_assoc]
        rfl
      rw [List.cons_append, walkAll, open_ (.text ..) marks, if_neg Bool.false_ne_true, walk]
      simp only [goingOn, bind_assoc, pure_bind, same, into, List.cons_append]
      exact both _
  | @comment span data p r s marks _ ih =>
    obtain ⟨pieces, nodes', spells, run, same⟩ := ih
    refine ⟨pieces, (Node.comment span data (if anew then none else p)).finished :: nodes', spells, .comment rfl run,
      fun r => ?_⟩
    rw [List.cons_append, walkAll, open_ (.comment ..) marks, if_neg Bool.false_ne_true, walk]
    simp only [goingOn, pure_bind, same, into, bind_assoc, List.cons_append]

end Run

/-! ## Walks -/

section Walk

variable {eval : Evaluator σ} (placeless : Expr.Placeless eval)

/-- A node before others that say the same. -/
theorem walkAll_cons {n m : Node} (like : Like n m) {r r' : List Node} (rest : LikeAll r r') {around : Surroundings}
    {anew : Bool} (here : Alongside Like g g' (walk eval options around anew n) (walk eval options around anew m))
    (later : Alongside LikeAll g g' (walkAll eval options around anew r) (walkAll eval options around anew r')) :
    Alongside LikeAll g g' (walkAll eval options around anew (n :: r)) (walkAll eval options around anew (m :: r')) := by
  rw [walkAll, walkAll, like.isDone]
  split
  · exact later.into fun _ _ _ same => like.cons same
  · refine here.goingOn (fun _ _ same => same.cons (rest.untouched anew)) fun _ _ same => ?_
    exact later.into fun _ _ _ more => same.finished.append more

include placeless

/-- **Nodes that say the same are visited to the same effect.** -/
theorem walkAll_elsewhere {nodes nodes' : List Node} (like : LikeAll nodes nodes') (around : Surroundings) (anew : Bool) :
    Alongside LikeAll g g' (walkAll eval options around anew nodes) (walkAll eval options around anew nodes') := by
  induction like generalizing around anew with
  | nil => exact .pure ⟨.nil, rfl⟩
  | @run done xs ys text r r' first second rest ih =>
    cases fresh : !anew && done with
    | true =>
      obtain ⟨old, rfl⟩ := Bool.and_eq_true_iff.mp fresh
      obtain rfl := (Bool.not_eq_true' _).mp old
      rw [walkAll_of_doneBefore options eval first.isDone, walkAll_of_doneBefore options eval second.isDone]
      exact (ih around false).into fun _ _ _ like => .run first second like
    | false =>
      obtain ⟨pieces, xs', spells, left, same⟩ := walkAll_of_run options eval around fresh first
      obtain ⟨pieces', ys', spells', left', same'⟩ := walkAll_of_run options eval around fresh second
      rw [same, same']
      exact (likewise_addPieces spells spells').next fun _ => (ih around anew).into fun _ _ _ like => .run left left' like
  | @interpolation span span' e e' p _ _ same rest ih =>
    have made (p : Option Progress) : Like (.interpolation span e p) (.interpolation span' e' p) :=
      ⟨rfl, fun _ => .interpolation same .nil⟩
    refine walkAll_cons options (made p) rest ?_ (ih around anew)
    unfold walk
    exact (likewise_interpolate options placeless _ _ _ same).next fun _ => .pure ⟨made _, rfl⟩
  | @choice span span' test test' body body' p _ _ same like rest inside ih =>
    have made {body body' : List Node} (like : LikeAll body body') (p : Option Progress) :
        Like (.choice span test body none p) (.choice span' test' body' none p) :=
      ⟨rfl, fun _ => .choice same like .nil⟩
    refine walkAll_cons options (made like p) rest ?_ (ih around anew)
    unfold walk
    dsimp only
    refine (likewise_remembered placeless same _).next fun holds => ?_
    split
    · refine ((inside around anew).inView _).into ?_
      rintro ⟨body, _⟩ ⟨body', _⟩ flow ⟨like, rfl⟩
      exact made like _
    · exact .pure ⟨made (like.untouched anew) _, rfl⟩
  | @choiceElse span span' test test' body body' other other' p _ _ same like otherwise rest inside inside' ih =>
    have made {body body' other other' : List Node} (like : LikeAll body body') (otherwise : LikeAll other other')
        (p : Option Progress) : Like (.choice span test body (some other) p) (.choice span' test' body' (some other') p) :=
      ⟨rfl, fun _ => .choiceElse same like otherwise .nil⟩
    refine walkAll_cons options (made like otherwise p) rest ?_ (ih around anew)
    unfold walk
    dsimp only
    refine (likewise_remembered placeless same _).next fun holds => ?_
    split
    · refine ((inside around anew).inView _).into ?_
      rintro ⟨body, _⟩ ⟨body', _⟩ flow ⟨like, rfl⟩
      exact made like (otherwise.untouched anew) _
    · refine ((inside' around anew).inView _).into ?_
      rintro ⟨other, _⟩ ⟨other', _⟩ flow ⟨otherwise, rfl⟩
      exact made (like.untouched anew) otherwise _
  | @loop span span' items items' item item' index index' body body' p _ _ same names like rest inside ih =>
    have made {body body' : List Node} (like : LikeAll body body') (p : Option Progress) :
        Like (.loop span items item index body none p) (.loop span' items' item' index' body' none p) :=
      ⟨rfl, fun _ => .loop same names like .nil⟩
    refine walkAll_cons options (made like p) rest ?_ (ih around anew)
    unfold walk
    dsimp only
    refine (likewise_remembered placeless same _).next fun v => (likewise_itemsOf _ _ v).next fun vs => ?_
    refine (roundsFrom_elsewhere names (inside around true) _ vs (like.untouched anew) (inside around anew)).into ?_
    rintro ⟨body, round, table⟩ ⟨body', _, _⟩ flow ⟨like, rfl, rfl⟩
    exact made like _
  | @loopElse span span' items items' item item' index index' body body' other other' p _ _ same names like otherwise rest
      inside inside' ih =>
    have made {body body' other other' : List Node} (like : LikeAll body body') (otherwise : LikeAll other other')
        (p : Option Progress) :
        Like (.loop span items item index body (some other) p) (.loop span' items' item' index' body' (some other') p) :=
      ⟨rfl, fun _ => .loopElse same names like otherwise .nil⟩
    refine walkAll_cons options (made like otherwise p) rest ?_ (ih around anew)
    unfold walk
    dsimp only
    refine (likewise_remembered placeless same _).next fun v => (likewise_itemsOf _ _ v).next fun vs => ?_
    cases vs with
    | nil =>
      refine ((inside' around anew).inView _).into ?_
      rintro ⟨other, _⟩ ⟨other', _⟩ flow ⟨otherwise, rfl⟩
      exact made (like.untouched anew) otherwise _
    | cons v vs =>
      refine (roundsFrom_elsewhere names (inside around true) _ (v :: vs) (like.untouched anew) (inside around anew)).into ?_
      rintro ⟨body, round, table⟩ ⟨body', _, _⟩ flow ⟨like, rfl, rfl⟩
      exact made like (otherwise.untouched anew) _
  | @element span span' tag attributes attributes' body body' p _ _ same like rest inside ih =>
    have made {body body' : List Node} (like : LikeAll body body') (p : Option Progress) :
        Like (.element span tag attributes body p) (.element span' tag attributes' body' p) :=
      ⟨rfl, fun _ => .element same like .nil⟩
    refine walkAll_cons options (made like p) rest ?_ (ih around anew)
    unfold walk
    dsimp only
    refine (likewise_flushPassage options).next fun _ => (likewise_rememberedAttributes placeless same _).next fun values => ?_
    cases tag with
    | content kind => exact (content_elsewhere options (inside _ anew) _ _ _ _ _).into fun _ _ _ like => made like _
    | message role => exact (message_elsewhere options (inside _ anew) _ _ _ _ _).into fun _ _ _ like => made like _
    | scope =>
      refine (likewise_closedScope like _ values).next fun scope => ((inside around anew).inScope scope).into ?_
      rintro ⟨body, _⟩ ⟨body', _⟩ flow ⟨like, rfl⟩
      exact made like _
    | step =>
      refine (step_elsewhere options (inside _ anew) same _ _ _ _).into fun body body' flow like' => ?_
      cases like' with
      | some like => exact made like _
      | none => exact made (like.untouched anew) _
    | reference => exact .throw _ _ _
  | @group span span' body body' p _ _ like rest inside ih =>
    have made {body body' : List Node} (like : LikeAll body body') (p : Option Progress) :
        Like (.group span body p) (.group span' body' p) := ⟨rfl, fun _ => .group like .nil⟩
    refine walkAll_cons options (made like p) rest ?_ (ih around anew)
    unfold walk
    exact (inside around anew).into fun _ _ _ like => made like _

end Walk

end PromptScript.Pass
