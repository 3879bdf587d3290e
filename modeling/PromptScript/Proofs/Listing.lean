import PromptScript.Proofs.Cuts
import PromptScript.Proofs.Parameters

/-! # What surveys list

A survey lists the names that a document reads before it declares them. It is a matter of the text alone: to a survey
every assignment to a name is a declaration. Where all assignments are made whenever the text before them is visited
(`Node.isSteady`) the survey lists all names that the document needs. -/
namespace PromptScript

namespace Expr

mutual

/-- Whether a name is assigned a value anywhere in the expression. -/
def declares : Expr → Bool
  | literal _ _ | identifier _ _ => false
  | array _ items | sequence _ items => declaresAny items
  | object _ fields => declaresField fields
  | unary _ _ e | update _ _ _ e | chain _ e => declares e
  | binary _ _ a b | logical _ _ a b => declares a || declares b
  | conditional _ test a b => declares test || declares a || declares b
  | assignment _ .assign (identifier _ _) _ => true
  | assignment _ _ target value => declares target || declares value
  | member _ base key _ => declares base || declaresKey key
  | call _ callee arguments _ => declares callee || declaresAny arguments

def declaresAny : List Expr → Bool
  | [] => false
  | e :: r => declares e || declaresAny r

def declaresField : List (Key × Expr) → Bool
  | [] => false
  | (key, e) :: r => declaresKey key || declares e || declaresField r

def declaresKey : Key → Bool
  | .named _ => false
  | .computed e => declares e

end

mutual

/-- Whether every assignment to a name in the expression is made whenever it is evaluated, and nothing is written to
the present time. -/
def isSteady : Expr → Bool
  | literal _ _ | identifier _ _ => true
  | array _ items | sequence _ items => allSteady items
  | object _ fields => fieldsSteady fields
  | unary _ _ e | chain _ e => isSteady e
  | binary _ _ a b => isSteady a && isSteady b
  | logical _ _ a b => isSteady a && isSteady b && !declares b
  | conditional _ test a b => isSteady test && isSteady a && isSteady b && !declares a && !declares b
  | assignment _ .assign (identifier _ _) value => isSteady value
  | assignment _ .assign target value =>
    isSteady value && isSteady target && !declares target && target.root? != some nowName
  | assignment _ _ target value =>
    isSteady value && isSteady target && !declares value && !declares target && target.root? != some nowName
  | update _ _ _ e => isSteady e && !declares e && e.root? != some nowName
  | member _ base key _ => isSteady base && keySteady key && !declaresKey key
  | call _ callee arguments _ => isSteady callee && allSteady arguments && !declaresAny arguments

def allSteady : List Expr → Bool
  | [] => true
  | e :: r => isSteady e && allSteady r

def fieldsSteady : List (Key × Expr) → Bool
  | [] => true
  | (key, e) :: r => keySteady key && isSteady e && fieldsSteady r

def keySteady : Key → Bool
  | .named _ => true
  | .computed e => isSteady e

end

end Expr

namespace Usage

/-- A piece of code that has been read: the names it needs are listed unless they were declared, and it declares no
names but those that it gives. -/
structure Lists (u : Usage) (uses : Uses) (u' : Usage) : Prop where
  free : u'.allowed = none
  used : ∀ x ∈ u.used, x ∈ u'.used
  needs : ∀ x ∈ uses.needs, x ∈ u.defined ∨ x ∈ u'.used
  gives : ∀ x ∈ u'.defined, x ∈ u.defined ∨ x ∈ uses.gives

namespace Lists

variable {u u₁ u₂ : Usage} {v w : Uses}

theorem none (free : u.allowed = .none) : Lists u .none u := ⟨free, fun _ => id, nofun, fun _ => .inl⟩

theorem next (first : Lists u v u₁) (second : Lists u₁ w u₂) : Lists u (v.next w) u₂ where
  free := second.free
  used x there := second.used x (first.used x there)
  needs x need := by
    rcases List.mem_append.mp need with need | need
    · exact (first.needs x need).imp id (second.used x)
    · obtain ⟨need, own⟩ := List.mem_filter.mp need
      rcases second.needs x need with there | there
      · exact (first.gives x there).imp id fun given => absurd given (of_decide_eq_true own)
      · exact .inr there
  gives x there := by
    rcases second.gives x there with there | given
    · exact (first.gives x there).imp id (List.mem_append_left _)
    · exact .inr (List.mem_append_right _ given)

/-- Where nothing is declared it is no matter what is given. -/
theorem undeclared (h : Lists u v u₁) (same : u₁.defined = u.defined) (less : ∀ x ∈ w.needs, x ∈ v.needs) :
    Lists u w u₁ where
  free := h.free
  used := h.used
  needs x need := h.needs x (less x need)
  gives _ there := .inl (same ▸ there)

theorem skip (h : Lists u v u₁) (same : u₁.defined = u.defined) : Lists u v.maybe u₁ := h.undeclared same fun _ => id

/-- A branch, of which only the reads are taken over. -/
theorem absorb (free : u.allowed = .none) (h : Lists u v u₁) : Lists u v.maybe (u.absorb u₁) where
  free := free
  used _ there := Names.mem_union.mpr (.inl there)
  needs x need := (h.needs x need).imp id fun there => Names.mem_union.mpr (.inr there)
  gives _ := .inl

theorem read (free : u.allowed = .none) (name : String) (span : Span) :
    Lists u (if name = nowName then .none else .read name) (u.read name span).1 := by
  by_cases now : name = nowName
  · rw [if_pos now, Usage.read, if_pos (.inl now)]
    exact none free
  · rw [if_neg now]
    by_cases there : name ∈ u.defined
    · rw [Usage.read, if_pos (.inr there)]
      exact ⟨free, fun _ => id, fun x need => .inl (List.mem_singleton.mp need ▸ there), fun _ => .inl⟩
    · rw [Usage.read, if_neg (not_or.mpr ⟨now, there⟩), free]
      refine ⟨free, fun x there => Names.mem_insert.mpr (.inr there), fun x need => .inr ?_, fun _ => .inl⟩
      exact Names.mem_insert.mpr (.inl (List.mem_singleton.mp need))

theorem define (free : u.allowed = .none) (name : String) : Lists u (.write name) (u.define name) where
  free := free
  used _ := id
  needs := nofun
  gives _ there := (Names.mem_insert.mp there).symm.imp id List.mem_singleton.mpr

end Lists

@[simp] theorem defined_read (name : String) (span : Span) (u : Usage) : (u.read name span).1.defined = u.defined := by
  unfold read
  split
  · rfl
  · split <;> rfl

end Usage

namespace Uses

theorem mem_needs_of_next {u v : Uses} {x : String} (h : x ∈ (u.next v).needs) : x ∈ u.needs ∨ x ∈ v.needs :=
  (List.mem_append.mp h).imp id fun h => (List.mem_filter.mp h).1

theorem mem_needs_maybe_next {u v : Uses} {x : String} :
    x ∈ (u.maybe.next v).needs ↔ x ∈ u.needs ∨ x ∈ v.needs := by
  simp [next, maybe]

end Uses

namespace Expr

theorem mem_place_next_root {t : Expr} {x : String} (need : x ∈ ((usesOfPlace t).next (usesOfRoot t)).needs) :
    x ∈ (usesOfPlace t).needs ∨ t.root? = some x := by
  refine (Uses.mem_needs_of_next need).imp id fun need => ?_
  unfold usesOfRoot at need
  cases root : t.root? with
  | none => rw [root] at need; cases need
  | some name =>
    rw [root] at need
    rcases Uses.mem_needs_of_next need with need | need
    · exact congrArg some (List.mem_singleton.mp need).symm
    · cases need

/-- An assignment that assigns nothing to a name is read like its value and its target. -/
theorem analyze_assignment {span : Span} {op : AssignOp} {target value : Expr}
    (h : (assignment span op target value).declares = false) (s : Usage × List Fault) :
    (assignment span op target value).analyze s = target.analyze (value.analyze s) ∧ target.declares = false ∧
      value.declares = false := by
  cases op with
  | assign =>
    cases target with
    | identifier => cases h
    | _ => exact ⟨rfl, Bool.or_eq_false_iff.mp h⟩
  | _ => exact ⟨rfl, Bool.or_eq_false_iff.mp h⟩

mutual

/-- Without an assignment to a name nothing is declared. -/
theorem defined_of_not_declares : ∀ (e : Expr), e.declares = false → ∀ s : Usage × List Fault,
    (e.analyze s).1.defined = s.1.defined
  | literal _ _, _, _ => rfl
  | identifier _ _, _, _ => Usage.defined_read ..
  | array _ items, h, s | sequence _ items, h, s => definedAny_of_not_declares items h s
  | object _ fields, h, s => definedField_of_not_declares fields h s
  | unary _ _ e, h, s | update _ _ _ e, h, s | chain _ e, h, s => defined_of_not_declares e h s
  | binary _ _ a b, h, s | logical _ _ a b, h, s => by
    obtain ⟨first, second⟩ := Bool.or_eq_false_iff.mp h
    exact (defined_of_not_declares b second _).trans (defined_of_not_declares a first s)
  | conditional _ test a b, h, s => by
    obtain ⟨h, third⟩ := Bool.or_eq_false_iff.mp h
    obtain ⟨first, second⟩ := Bool.or_eq_false_iff.mp h
    exact (defined_of_not_declares b third _).trans
      ((defined_of_not_declares a second _).trans (defined_of_not_declares test first s))
  | assignment _ op target value, h, s => by
    obtain ⟨analyzed, first, second⟩ := analyze_assignment h s
    rw [analyzed]
    exact (defined_of_not_declares target first _).trans (defined_of_not_declares value second s)
  | member _ base key _, h, s => by
    obtain ⟨first, second⟩ := Bool.or_eq_false_iff.mp h
    exact (definedKey_of_not_declares key second _).trans (defined_of_not_declares base first s)
  | call _ callee arguments _, h, s => by
    obtain ⟨first, second⟩ := Bool.or_eq_false_iff.mp h
    exact (definedAny_of_not_declares arguments second _).trans (defined_of_not_declares callee first s)

theorem definedAny_of_not_declares : ∀ (items : List Expr), declaresAny items = false → ∀ s : Usage × List Fault,
    (analyzeItems items s).1.defined = s.1.defined
  | [], _, _ => rfl
  | e :: r, h, s => by
    obtain ⟨first, second⟩ := Bool.or_eq_false_iff.mp h
    exact (definedAny_of_not_declares r second _).trans (defined_of_not_declares e first s)

theorem definedField_of_not_declares : ∀ (fields : List (Key × Expr)), declaresField fields = false →
    ∀ s : Usage × List Fault, (analyzeFields fields s).1.defined = s.1.defined
  | [], _, _ => rfl
  | (key, e) :: r, h, s => by
    obtain ⟨h, third⟩ := Bool.or_eq_false_iff.mp h
    obtain ⟨first, second⟩ := Bool.or_eq_false_iff.mp h
    exact (definedField_of_not_declares r third _).trans
      ((defined_of_not_declares e second _).trans (definedKey_of_not_declares key first s))

theorem definedKey_of_not_declares : ∀ (key : Key), declaresKey key = false → ∀ s : Usage × List Fault,
    (analyzeKey key s).1.defined = s.1.defined
  | .named _, _, _ => rfl
  | .computed e, h, s => defined_of_not_declares e h s

end

/-- A steady assignment gives a name a value, or its target declares nothing; where it looks at the old value nothing
is declared at all. -/
theorem steady_assignment {span : Span} {op : AssignOp} {target value : Expr}
    (h : (assignment span op target value).isSteady = true) :
    (∃ at_ name, op = .assign ∧ target = identifier at_ name ∧ value.isSteady = true) ∨
      (value.isSteady = true ∧ target.isSteady = true ∧ target.declares = false ∧ target.root? ≠ some nowName ∧
        (∀ s, (assignment span op target value).analyze s = target.analyze (value.analyze s)) ∧
        ((assignment span op target value).uses =
            value.uses.next ((usesOfPlace target).next (usesOfRoot target)) ∨
          value.declares = false ∧ ∀ x ∈ (assignment span op target value).uses.needs,
            x ∈ value.uses.needs ∨ x ∈ target.uses.needs ∨ x ∈ (usesOfPlace target).needs ∨ target.root? = some x)) := by
  have checks (x : String) (need : x ∈ (usesOfCheck target).needs) : target.root? = some x := by
    cases target with
    | identifier at_ name => exact congrArg some (List.mem_singleton.mp need).symm
    | _ => cases need
  have compound (x : String)
      (need : x ∈ (usesOfCheck target).needs ∨ x ∈ target.uses.needs ∨ x ∈ (value.uses.next
        ((usesOfPlace target).next (usesOfRoot target))).needs) :
      x ∈ value.uses.needs ∨ x ∈ target.uses.needs ∨ x ∈ (usesOfPlace target).needs ∨ target.root? = some x := by
    rcases need with need | need | need
    · exact .inr (.inr (.inr (checks x need)))
    · exact .inr (.inl need)
    · rcases Uses.mem_needs_of_next need with need | need
      · exact .inl need
      · exact .inr (.inr (mem_place_next_root need))
  cases op with
  | assign =>
    cases target with
    | identifier at_ name => exact .inl ⟨at_, name, rfl, rfl, h⟩
    | _ =>
      obtain ⟨h, other⟩ := Bool.and_eq_true_iff.mp h
      obtain ⟨h, silent⟩ := Bool.and_eq_true_iff.mp h
      obtain ⟨steady, steady'⟩ := Bool.and_eq_true_iff.mp h
      exact .inr ⟨steady, steady', (Bool.not_eq_true' _).mp silent, bne_iff_ne.mp other, fun _ => rfl, .inl rfl⟩
  | binary =>
    obtain ⟨⟨⟨⟨steady, steady'⟩, silent⟩, silent'⟩, other⟩ := by
      simpa only [isSteady, Bool.and_eq_true, Bool.not_eq_true', bne_iff_ne] using h
    refine .inr ⟨steady, steady', silent', other, fun _ => rfl, .inr ⟨silent, fun x need => compound x ?_⟩⟩
    exact (Uses.mem_needs_of_next need).imp id Uses.mem_needs_of_next
  | logical =>
    obtain ⟨⟨⟨⟨steady, steady'⟩, silent⟩, silent'⟩, other⟩ := by
      simpa only [isSteady, Bool.and_eq_true, Bool.not_eq_true', bne_iff_ne] using h
    refine .inr ⟨steady, steady', silent', other, fun _ => rfl, .inr ⟨silent, fun x need => compound x ?_⟩⟩
    exact (Uses.mem_needs_of_next need).imp id Uses.mem_needs_of_next

/-- A target that declares nothing is listed as a place that is written to, if it is listed as what is read. -/
theorem lists_place {t : Expr} {v : Uses} {s : Usage × List Fault} (read : s.1.Lists v (t.analyze s).1)
    (silent : t.declares = false)
    (place : ∀ x, x ∈ (usesOfPlace t).needs ∨ t.root? = some x → x ∈ s.1.defined ∨ x ∈ (t.analyze s).1.used) :
    s.1.Lists ((usesOfPlace t).next (usesOfRoot t)) (t.analyze s).1 where
  free := read.free
  used := read.used
  needs x need := place x (mem_place_next_root need)
  gives _ there := .inl (defined_of_not_declares t silent s ▸ there)

mutual

/-- **Of a steady expression the survey lists all names that it needs.** -/
theorem analyze_lists : ∀ (e : Expr), e.isSteady = true → ∀ s : Usage × List Fault, s.1.allowed = none →
    s.1.Lists e.uses (e.analyze s).1
  | literal _ _, _, _, free => .none free
  | identifier span name, _, _, free => .read free name span
  | array _ items, h, s, free | sequence _ items, h, s, free => analyzeItems_lists items h s free
  | object _ fields, h, s, free => analyzeFields_lists fields h s free
  | unary _ _ e, h, s, free | chain _ e, h, s, free => analyze_lists e h s free
  | binary _ _ a b, h, s, free => by
    obtain ⟨first, second⟩ := Bool.and_eq_true_iff.mp h
    have left := analyze_lists a first s free
    exact left.next (analyze_lists b second _ left.free)
  | logical _ _ a b, h, s, free => by
    obtain ⟨⟨first, second⟩, silent⟩ := by simpa only [isSteady, Bool.and_eq_true, Bool.not_eq_true'] using h
    have left := analyze_lists a first s free
    have right := analyze_lists b second _ left.free
    exact left.next (right.undeclared (defined_of_not_declares b silent _) fun _ => id)
  | conditional _ test a b, h, s, free => by
    obtain ⟨⟨⟨⟨first, second⟩, third⟩, silent⟩, silent'⟩ := by
      simpa only [isSteady, Bool.and_eq_true, Bool.not_eq_true'] using h
    have tested := analyze_lists test first s free
    have left := (analyze_lists a second _ tested.free).skip (defined_of_not_declares a silent _)
    have right := (analyze_lists b third _ left.free).skip (defined_of_not_declares b silent' _)
    refine tested.next ((left.next right).undeclared ?_ fun x need => ?_)
    · exact (defined_of_not_declares b silent' _).trans (defined_of_not_declares a silent _)
    · exact Uses.mem_needs_maybe_next.mpr (List.mem_append.mp need)
  | assignment span op target value, h, s, free => by
    rcases steady_assignment h with ⟨_, name, rfl, rfl, steady⟩ | ⟨steady, steady', silent, other, analyzed, forms⟩
    · have assigned := analyze_lists value steady s free
      exact assigned.next (.define assigned.free name)
    · have first := analyze_lists value steady s free
      have second := analyze_lists target steady' (value.analyze s) first.free
      have place := place_lists target steady' silent other (value.analyze s) first.free
      rw [analyzed]
      rcases forms with form | ⟨silent', needs⟩
      · rw [form]
        exact first.next (lists_place second silent place)
      · have same := defined_of_not_declares value silent' s
        rw [same] at place
        have later := second.needs
        rw [same] at later
        refine ⟨second.free, fun x there => second.used x (first.used x there), fun x need => ?_, fun x there => .inl ?_⟩
        · rcases needs x need with need | need | need
          · exact (first.needs x need).imp id (second.used x)
          · exact later x need
          · exact place x need
        · rwa [defined_of_not_declares target silent, same] at there
  | update _ _ _ e, h, s, free => by
    obtain ⟨⟨steady, silent⟩, other⟩ := by simpa only [isSteady, Bool.and_eq_true, Bool.not_eq_true', bne_iff_ne] using h
    exact lists_place (analyze_lists e steady s free) silent (place_lists e steady silent other s free)
  | member _ base key _, h, s, free => by
    obtain ⟨⟨first, second⟩, silent⟩ := by simpa only [isSteady, Bool.and_eq_true, Bool.not_eq_true'] using h
    have left := analyze_lists base first s free
    have right := analyzeKey_lists key second _ left.free
    exact left.next (right.undeclared (definedKey_of_not_declares key silent _) fun _ => id)
  | call _ callee arguments _, h, s, free => by
    obtain ⟨⟨first, second⟩, silent⟩ := by simpa only [isSteady, Bool.and_eq_true, Bool.not_eq_true'] using h
    have left := analyze_lists callee first s free
    have right := analyzeItems_lists arguments second _ left.free
    exact left.next (right.undeclared (definedAny_of_not_declares arguments silent _) fun _ => id)

theorem analyzeItems_lists : ∀ (items : List Expr), allSteady items = true → ∀ s : Usage × List Fault,
    s.1.allowed = none → s.1.Lists (usesOfItems items) (analyzeItems items s).1
  | [], _, _, free => .none free
  | e :: r, h, s, free => by
    obtain ⟨first, second⟩ := Bool.and_eq_true_iff.mp h
    have left := analyze_lists e first s free
    exact left.next (analyzeItems_lists r second _ left.free)

theorem analyzeFields_lists : ∀ (fields : List (Key × Expr)), fieldsSteady fields = true → ∀ s : Usage × List Fault,
    s.1.allowed = none → s.1.Lists (usesOfFields fields) (analyzeFields fields s).1
  | [], _, _, free => .none free
  | (key, e) :: r, h, s, free => by
    obtain ⟨h, third⟩ := Bool.and_eq_true_iff.mp h
    obtain ⟨first, second⟩ := Bool.and_eq_true_iff.mp h
    have named := analyzeKey_lists key first s free
    have left := analyze_lists e second _ named.free
    exact named.next (left.next (analyzeFields_lists r third _ left.free))

theorem analyzeKey_lists : ∀ (key : Key), keySteady key = true → ∀ s : Usage × List Fault,
    s.1.allowed = none → s.1.Lists (usesOfKey key) (analyzeKey key s).1
  | .named _, _, _, free => .none free
  | .computed e, h, s, free => analyze_lists e h s free

/-- So it lists the names that are needed to find the place that a target names, and the variable in which it lies. -/
theorem place_lists : ∀ (t : Expr), t.isSteady = true → t.declares = false → t.root? ≠ some nowName →
    ∀ s : Usage × List Fault, s.1.allowed = none → ∀ x, x ∈ (usesOfPlace t).needs ∨ t.root? = some x →
      x ∈ s.1.defined ∨ x ∈ (t.analyze s).1.used
  | identifier span name, _, _, other, s, free, x, need => by
    obtain rfl : name = x := need.elim nofun Option.some.inj
    have read := Usage.Lists.read free name span
    rw [if_neg fun now => other (congrArg some now)] at read
    exact read.needs name (List.mem_singleton_self name)
  | member _ base key false, h, silent, other, s, free, x, need => by
    obtain ⟨⟨first, second⟩, -⟩ := by simpa only [isSteady, Bool.and_eq_true, Bool.not_eq_true'] using h
    obtain ⟨quiet, -⟩ := Bool.or_eq_false_iff.mp silent
    have place := place_lists base first quiet other s free x
    have key := analyzeKey_lists key second _ (analyze_lists base first s free).free
    have need : (x ∈ (usesOfPlace base).needs ∨ x ∈ (usesOfKey _).needs) ∨ base.root? = some x :=
      need.imp Uses.mem_needs_of_next id
    rcases need with (need | need) | root
    · exact (place (.inl need)).imp id (key.used x)
    · have there := key.needs x need
      rwa [defined_of_not_declares base quiet s] at there
    · exact (place (.inr root)).imp id (key.used x)
  | member _ _ _ true, _, _, _, _, _, _, need | literal _ _, _, _, _, _, _, _, need
  | array _ _, _, _, _, _, _, _, need | object _ _, _, _, _, _, _, _, need
  | sequence _ _, _, _, _, _, _, _, need | unary _ _ _, _, _, _, _, _, _, need
  | binary _ _ _ _, _, _, _, _, _, _, need | logical _ _ _ _, _, _, _, _, _, _, need
  | conditional _ _ _ _, _, _, _, _, _, _, need | assignment _ _ _ _, _, _, _, _, _, _, need
  | update _ _ _ _, _, _, _, _, _, _, need | call _ _ _ _, _, _, _, _, _, _, need
  | chain _ _, _, _, _, _, _, _, need => need.elim nofun nofun

end

end Expr
end PromptScript
