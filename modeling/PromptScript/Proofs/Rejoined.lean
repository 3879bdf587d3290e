import PromptScript.Proofs.Analyses
import PromptScript.Proofs.Elsewhere

/-! # Documents that say the same

Two documents say the same if they differ in nothing but the places of their nodes, in comments, and in how their text is
cut into nodes. The marks that passes have left on them agree: those of a run of text and comments in whether they are
done, all others in everything. -/
namespace PromptScript

/-- The parts of two attributes say the same. -/
inductive Node.PartsLike : List Node → List Node → Prop
  | nil : PartsLike [] []
  | text {span span' data p p' r r'} (rest : PartsLike r r') :
    PartsLike (.text span data p :: r) (.text span' data p' :: r')
  | interpolation {span span' e e' p p' r r'} (same : e.unplaced = e'.unplaced) (rest : PartsLike r r') :
    PartsLike (.interpolation span e p :: r) (.interpolation span' e' p' :: r')
  | other (n : Node) {r r'} (rest : PartsLike r r') : PartsLike (n :: r) (n :: r')

/-- Two lists of attributes say the same. -/
inductive Attribute.Like : List Attribute → List Attribute → Prop
  | nil : Like [] []
  | flag {span span' name r r'} (rest : Like r r') : Like (.mk span name .flag :: r) (.mk span' name .flag :: r')
  | nodes {span span' name parts parts' r r'} (same : Node.PartsLike parts parts') (rest : Like r r') :
    Like (.mk span name (.nodes parts) :: r) (.mk span' name (.nodes parts') :: r')

namespace Node

/-- Texts and comments, all of them done or none, and their text. -/
inductive Run (done : Bool) : List Node → String → Prop
  | nil : Run done [] ""
  | text {span data p r s} (marks : p.any Progress.done = done) (rest : Run done r s) :
    Run done (.text span data p :: r) (data ++ s)
  | comment {span data p r s} (marks : p.any Progress.done = done) (rest : Run done r s) :
    Run done (.comment span data p :: r) s

/-- Two lists of nodes say the same. -/
inductive LikeAll : List Node → List Node → Prop
  | nil : LikeAll [] []
  | run {done xs ys s r r'} (first : Run done xs s) (second : Run done ys s) (rest : LikeAll r r') :
    LikeAll (xs ++ r) (ys ++ r')
  | interpolation {span span' e e' p r r'} (same : e.unplaced = e'.unplaced) (rest : LikeAll r r') :
    LikeAll (.interpolation span e p :: r) (.interpolation span' e' p :: r')
  | choice {span span' test test' body body' p r r'} (same : test.unplaced = test'.unplaced) (inside : LikeAll body body')
    (rest : LikeAll r r') : LikeAll (.choice span test body none p :: r) (.choice span' test' body' none p :: r')
  | choiceElse {span span' test test' body body' other other' p r r'} (same : test.unplaced = test'.unplaced)
    (inside : LikeAll body body') (otherwise : LikeAll other other') (rest : LikeAll r r') :
    LikeAll (.choice span test body (some other) p :: r) (.choice span' test' body' (some other') p :: r')
  | loop {span span' items items' item item' index index' body body' p r r'} (same : items.unplaced = items'.unplaced)
    (names : item.name = item'.name ∧ index.map Binding.name = index'.map Binding.name) (inside : LikeAll body body')
    (rest : LikeAll r r') :
    LikeAll (.loop span items item index body none p :: r) (.loop span' items' item' index' body' none p :: r')
  | loopElse {span span' items items' item item' index index' body body' other other' p r r'}
    (same : items.unplaced = items'.unplaced)
    (names : item.name = item'.name ∧ index.map Binding.name = index'.map Binding.name) (inside : LikeAll body body')
    (otherwise : LikeAll other other') (rest : LikeAll r r') :
    LikeAll (.loop span items item index body (some other) p :: r)
      (.loop span' items' item' index' body' (some other') p :: r')
  | element {span span' tag attributes attributes' body body' p r r'} (same : Attribute.Like attributes attributes')
    (inside : LikeAll body body') (rest : LikeAll r r') :
    LikeAll (.element span tag attributes body p :: r) (.element span' tag attributes' body' p :: r')
  | group {span span' body body' p r r'} (inside : LikeAll body body') (rest : LikeAll r r') :
    LikeAll (.group span body p :: r) (.group span' body' p :: r')

/-- Two nodes other than texts and comments say the same, whatever marks are put on both. -/
structure Like (n m : Node) : Prop where
  marks : n.progress = m.progress
  marked : ∀ p, LikeAll [n.withProgress p] [m.withProgress p]

theorem Run.isDone {nodes : List Node} {s : String} (h : Run true nodes s) : ∀ n ∈ nodes, n.isDone = true := by
  induction h with
  | nil => exact nofun
  | text marks _ ih => exact List.forall_mem_cons.mpr ⟨marks, ih⟩
  | comment marks _ ih => exact List.forall_mem_cons.mpr ⟨marks, ih⟩

theorem Run.cleared {done : Bool} {nodes : List Node} {s : String} (h : Run done nodes s) : Run false (clearedAll nodes) s := by
  induction h with
  | nil => exact .nil
  | text _ _ ih => exact .text rfl ih
  | comment _ _ ih => exact .comment rfl ih

theorem clearedAll_append (nodes nodes' : List Node) : clearedAll (nodes ++ nodes') = clearedAll nodes ++ clearedAll nodes' := by
  induction nodes with
  | nil => rfl
  | cons n r ih => exact congrArg (cleared n :: ·) ih

namespace LikeAll

variable {a a' b b' : List Node}

theorem append (h : LikeAll a a') (h' : LikeAll b b') : LikeAll (a ++ b) (a' ++ b') := by
  induction h with
  | nil => exact h'
  | run first second _ ih =>
    rw [List.append_assoc, List.append_assoc]
    exact .run first second ih
  | interpolation same _ ih => exact .interpolation same ih
  | choice same inside _ _ ih => exact .choice same inside ih
  | choiceElse same inside otherwise _ _ _ ih => exact .choiceElse same inside otherwise ih
  | loop same names inside _ _ ih => exact .loop same names inside ih
  | loopElse same names inside otherwise _ _ _ ih => exact .loopElse same names inside otherwise ih
  | element same inside _ _ ih => exact .element same inside ih
  | group inside _ _ ih => exact .group inside ih

/-- Without marks they say the same. -/
theorem cleared (h : LikeAll a a') : LikeAll (clearedAll a) (clearedAll a') := by
  induction h with
  | nil => exact .nil
  | run first second _ ih =>
    rw [clearedAll_append, clearedAll_append]
    exact .run first.cleared second.cleared ih
  | interpolation same _ ih => exact .interpolation same ih
  | choice same _ _ inside ih => exact .choice same inside ih
  | choiceElse same _ _ _ inside otherwise ih => exact .choiceElse same inside otherwise ih
  | loop same names _ _ inside ih => exact .loop same names inside ih
  | loopElse same names _ _ _ inside otherwise ih => exact .loopElse same names inside otherwise ih
  | element same _ _ inside ih => exact .element same inside ih
  | group _ _ inside ih => exact .group inside ih

theorem untouched (h : LikeAll a a') (anew : Bool) : LikeAll (Pass.untouched anew a) (Pass.untouched anew a') := by
  cases anew with
  | false => exact h
  | true => exact h.cleared

end LikeAll

namespace Like

variable {n m : Node}

theorem isDone (h : Like n m) : n.isDone = m.isDone := by rw [Node.isDone, Node.isDone, h.marks]

theorem all (h : Like n m) : LikeAll [n] [m] := by
  have here := h.marked n.progress
  have self (n : Node) : n.withProgress n.progress = n := by cases n <;> rfl
  rwa [self, h.marks, self] at here

theorem finished (h : Like n m) : LikeAll [n.finished] [m.finished] := by
  unfold Node.finished
  rw [h.marks]
  exact h.marked _

theorem cons (h : Like n m) {r r' : List Node} (rest : LikeAll r r') : LikeAll (n :: r) (m :: r') := h.all.append rest

end Like

/-! ## What stands in closed parts -/

/-- Two analyses have found the same, but for the places of faults. -/
def FoundLike (s t : Usage × List Fault) : Prop := s.1 = t.1 ∧ s.2.map Fault.defect = t.2.map Fault.defect

end Node

namespace Expr

open Node (FoundLike)

variable {s t : Usage × List Fault}

mutual

theorem found_unplaced : ∀ (e : Expr) {s t : Usage × List Fault}, FoundLike s t → FoundLike (e.unplaced.analyze s) (e.analyze t)
  | literal _ _, _, _, h => h
  | identifier span name, (u, faults), (_, faults'), ⟨rfl, same⟩ => by
    have read : ∀ span span', (u.read name span).1 = (u.read name span').1 ∧
        (u.read name span).2.map Fault.defect = (u.read name span').2.map Fault.defect := by
      intro span span'
      unfold Usage.read
      repeat' split
      all_goals exact ⟨rfl, rfl⟩
    have here := read ⟨0, 0⟩ span
    refine ⟨here.1, ?_⟩
    show (faults ++ (u.read name ⟨0, 0⟩).2).map Fault.defect = (faults' ++ (u.read name span).2).map Fault.defect
    rw [List.map_append, List.map_append, here.2]
    exact congrArg (· ++ _) same
  | array _ items, _, _, h | sequence _ items, _, _, h => foundItems_unplaced items h
  | object _ fields, _, _, h => foundFields_unplaced fields h
  | unary _ _ e, _, _, h | update _ _ _ e, _, _, h | chain _ e, _, _, h => found_unplaced e h
  | binary _ _ a b, _, _, h | logical _ _ a b, _, _, h => found_unplaced b (found_unplaced a h)
  | conditional _ test a b, _, _, h => found_unplaced b (found_unplaced a (found_unplaced test h))
  | assignment _ op target value, _, _, h => by
    have first := found_unplaced value h
    have second := found_unplaced target first
    cases op with
    | assign =>
      cases target with
      | identifier _ name => exact ⟨congrArg (Usage.define name) first.1, first.2⟩
      | _ => exact second
    | _ => exact second
  | member _ base key _, _, _, h => foundKey_unplaced key (found_unplaced base h)
  | call _ callee arguments _, _, _, h => foundItems_unplaced arguments (found_unplaced callee h)

theorem foundItems_unplaced : ∀ (items : List Expr) {s t : Usage × List Fault}, FoundLike s t →
    FoundLike (analyzeItems (itemsUnplaced items) s) (analyzeItems items t)
  | [], _, _, h => h
  | e :: r, _, _, h => foundItems_unplaced r (found_unplaced e h)

theorem foundFields_unplaced : ∀ (fields : List (Key × Expr)) {s t : Usage × List Fault}, FoundLike s t →
    FoundLike (analyzeFields (fieldsUnplaced fields) s) (analyzeFields fields t)
  | [], _, _, h => h
  | (key, e) :: r, _, _, h => foundFields_unplaced r (found_unplaced e (foundKey_unplaced key h))

theorem foundKey_unplaced : ∀ (key : Key) {s t : Usage × List Fault}, FoundLike s t →
    FoundLike (analyzeKey (keyUnplaced key) s) (analyzeKey key t)
  | .named _, _, _, h => h
  | .computed e, _, _, h => found_unplaced e h

end

/-- What is found in an expression does not depend on its spans. -/
theorem found_of_unplaced {e e' : Expr} (same : e.unplaced = e'.unplaced) (h : FoundLike s t) :
    FoundLike (e.analyze s) (e'.analyze t) := by
  have left := found_unplaced e (s := s) (t := s) ⟨rfl, rfl⟩
  have right := found_unplaced e' h
  rw [← same] at right
  exact ⟨left.1.symm.trans right.1, left.2.symm.trans right.2⟩

end Expr

namespace Node

variable {s t : Usage × List Fault}

theorem lockstep_foundLike : Lockstep FoundLike where
  read := by
    rintro ⟨u, faults⟩ ⟨_, faults'⟩ ⟨rfl, same⟩ name span
    refine ⟨rfl, ?_⟩
    dsimp only at same ⊢
    rw [List.map_append, List.map_append, same]
  define h name := ⟨congrArg (Usage.define name) h.1, h.2⟩
  branch h h' := ⟨by rw [afterBranch, afterBranch, h.1, h'.1], h'.2⟩

theorem PartsLike.found {parts parts' : List Node} (same : PartsLike parts parts') :
    ∀ {s t : Usage × List Fault}, FoundLike s t → FoundLike (analyzeAll parts s) (analyzeAll parts' t) := by
  induction same with
  | nil => exact id
  | text _ ih => exact ih
  | interpolation same _ ih => exact fun h => ih (Expr.found_of_unplaced same h)
  | other n _ ih => exact fun h => ih (analyze_lockstep lockstep_foundLike n h)

theorem foundAttributes {attributes attributes' : List Attribute} (same : Attribute.Like attributes attributes') :
    ∀ {s t : Usage × List Fault}, FoundLike s t →
      FoundLike (analyzeAttributes attributes s) (analyzeAttributes attributes' t) := by
  induction same with
  | nil => exact id
  | flag _ ih => exact ih
  | nodes same _ ih => exact fun h => ih (same.found h)

theorem PartsLike.textOfParts?_eq {parts parts' : List Node} (same : PartsLike parts parts') :
    AttributeValue.textOfParts? parts = AttributeValue.textOfParts? parts' := by
  induction same with
  | nil => rfl
  | text _ ih => exact congrArg (Option.map _) ih
  | interpolation _ _ _ => rfl
  | other n _ ih =>
    cases n with
    | text => exact congrArg (Option.map _) ih
    | _ => rfl

end Node

namespace Attribute.Like

variable {attributes attributes' : List Attribute}

/-- An attribute of a name is written out in both, or in neither. -/
theorem find?_eq (same : Like attributes attributes') (name : String) :
    (find? name attributes).map (·.value.staticText?) = (find? name attributes').map (·.value.staticText?) := by
  have first (span : Span) (other : String) (value : AttributeValue) (r : List Attribute) :
      find? name (.mk span other value :: r) = if other = name then some (.mk span other value) else find? name r := by
    unfold find?
    rw [List.find?_cons]
    show (match other == name with | true => _ | false => _) = _
    by_cases found : other = name
    · rw [if_pos found, beq_iff_eq.mpr found]
    · rw [if_neg found, beq_eq_false_iff_ne.mpr found]
  induction same with
  | nil => rfl
  | @flag _ _ other _ _ _ ih =>
    rw [first, first]
    by_cases found : other = name
    · rw [if_pos found, if_pos found]
      rfl
    · rwa [if_neg found, if_neg found]
  | @nodes _ _ other _ _ _ _ same _ ih =>
    rw [first, first]
    by_cases found : other = name
    · rw [if_pos found, if_pos found]
      exact congrArg some same.textOfParts?_eq
    · rwa [if_neg found, if_neg found]

theorem stepResults_eq (same : Like attributes attributes') : stepResults attributes = stepResults attributes' := by
  unfold stepResults
  congr 1
  funext name
  have here := same.find?_eq name
  generalize find? name attributes = a at here ⊢
  generalize find? name attributes' = a' at here ⊢
  match a, a', here with
  | none, none, _ => rfl
  | some _, some _, here => exact Option.some.inj here

end Attribute.Like

namespace Node

theorem Run.analyzeAll_append {done : Bool} {nodes : List Node} {text : String} (h : Run done nodes text) (r : List Node)
    (s : Usage × List Fault) : analyzeAll (nodes ++ r) s = analyzeAll r s := by
  induction h with
  | nil => rfl
  | text _ _ ih => exact ih
  | comment _ _ ih => exact ih

theorem LikeAll.found {nodes nodes' : List Node} (h : LikeAll nodes nodes') :
    ∀ {s t : Usage × List Fault}, FoundLike s t → FoundLike (analyzeAll nodes s) (analyzeAll nodes' t) := by
  have lock := lockstep_foundLike
  have declared {s t : Usage × List Fault} (h : FoundLike s t) {names names' : List String} (same : names = names') :
      FoundLike (s.1.defineAll names, s.2) (t.1.defineAll names', t.2) := same ▸ lock.defineAll names h
  induction h with
  | nil => exact id
  | run first second _ ih =>
    intro s t h
    rw [first.analyzeAll_append, second.analyzeAll_append]
    exact ih h
  | interpolation same _ ih => exact fun h => ih (Expr.found_of_unplaced same h)
  | choice same _ _ inside ih =>
    intro s t h
    have tested := Expr.found_of_unplaced same h
    exact ih (lock.branch tested (inside tested))
  | choiceElse same _ _ _ inside otherwise ih =>
    intro s t h
    have tested := Expr.found_of_unplaced same h
    have first := lock.branch tested (inside tested)
    exact ih (lock.branch first (otherwise first))
  | loop same names _ _ inside ih =>
    intro s t h
    have listed := Expr.found_of_unplaced same h
    exact ih (lock.branch listed (inside (declared listed (by rw [names.1, names.2]))))
  | @loopElse _ _ _ _ item item' index index' _ _ _ _ _ _ _ same names _ _ _ inside otherwise ih =>
    intro s t h
    have listed := Expr.found_of_unplaced same h
    have bound : item.name :: (index.map Binding.name).toList = item'.name :: (index'.map Binding.name).toList := by
      rw [names.1, names.2]
    have first := lock.branch listed (inside (declared listed bound))
    exact ih (lock.branch first (otherwise first))
  | @element _ _ tag _ _ _ _ _ _ _ same _ _ inside ih =>
    intro s t h
    have named := foundAttributes same h
    cases tag with
    | scope => exact ih named
    | step =>
      exact ih (declared (inside named) same.stepResults_eq)
    | _ => exact ih (inside named)
  | group _ _ inside ih => exact fun h => ih (inside h)

/-- The check of a closed part finds the same first defect. -/
theorem LikeAll.closureFaults {body body' : List Node} (h : LikeAll body body') (names : List String) :
    (closureFaults names body).map Fault.defect = (closureFaults names body').map Fault.defect :=
  (h.found ⟨rfl, rfl⟩).2

end Node
end PromptScript
