import PromptScript.Proofs.Assigned
import PromptScript.Proofs.Elsewhere
import PromptScript.Proofs.Places

/-! # Compound assignments

A compound assignment reads its target, evaluates its value, and then evaluates the keys of the target once more to find
the place that it writes. That is the place it has read where the keys name the same both times. An update evaluates the
keys but once, and writes the very place it has read. -/
namespace PromptScript

variable {σ : Type}

/-- Whether the old value decides the result of an assignment, so that nothing is written. -/
def AssignOp.keeps : AssignOp → Value → Bool
  | .logical op, current => op.decidedBy current
  | .binary _, _ | .assign, _ => false

/-- What an assignment makes of an old value and a new one. -/
def AssignOp.combine : AssignOp → Value → Value → Value
  | .binary op, current, v => Value.binary op current v
  | .logical _, _, v | .assign, _, v => v

namespace Expr

open Value

/-- A compound assignment but for the write: its value, and the keys of the place that is to be written, if any. -/
def prepared (host : Host σ) (op : AssignOp) (target value : Expr) (keys : List Key) :
    Eval σ (Value × Option (List Value)) := do
  checkDeclared .inScope target
  let current ← eval host target
  if op.keeps current then return (current, none)
  let v ← eval host value
  return (op.combine current v, some (← evalKeys .inScope host keys))

section Assignment

variable {host : Host σ} {op : AssignOp} {target value : Expr} {root : String} {keys : List Key} {m n : Machine σ}

theorem eval_compound (compound : op ≠ .assign) (names : target.path? = some (root, keys)) (span : Span) (value : Expr) :
    eval host (.assignment span op target value) = do
      let (r, found) ← prepared host op target value keys
      match found with
      | none => return r
      | some path =>
        writePlace .inScope target (some (root, path)) r
        return r := by
  cases op with
  | assign => exact absurd rfl compound
  | binary op =>
    simp [eval, evalWith, prepared, link, settled, AssignOp.keeps, AssignOp.combine, place?_eq_evalKeys .inScope host names]
  | logical op =>
    simp only [eval, evalWith, prepared, link, AssignOp.keeps, AssignOp.combine, place?_eq_evalKeys .inScope host names,
      bind_assoc, pure_bind]
    refine bind_congr fun _ => bind_congr fun current => ?_
    split <;> simp [settled]

/-- To look a variable up changes nothing. -/
theorem eq_of_checkDeclared {x : Except Fault Unit} (ran : (checkDeclared .inScope target).run.run m = (x, n)) : n = m := by
  cases target with
  | identifier span name =>
    unfold checkDeclared at ran
    rw [run_bind_of_ok (run_get? ..)] at ran
    split at ran <;> cases ran <;> rfl
  | _ =>
    cases ran
    rfl

/-- What is prepared is read first, every key evaluated once. Unless the value that is read decides, the value of the
assignment follows, and then every key is evaluated once more. -/
theorem exists_of_prepared (names : target.path? = some (root, keys)) {r : Value} {found : Option (List Value)}
    (ran : (prepared host op target value keys).run.run m = (.ok (r, found), n)) :
    ∃ path current m₁, Leads host m (m.valueOf host root) keys path current m₁ ∧
      ((op.keeps current = true ∧ r = current ∧ found = none ∧ n = m₁) ∨
        (op.keeps current = false ∧ ∃ v m₂ again, (eval host value).run.run m₁ = (.ok v, m₂) ∧
          (evalKeys .inScope host keys).run.run m₂ = (.ok again, n) ∧ r = op.combine current v ∧ found = some again)) := by
  obtain ⟨_, m₀, declared, rest⟩ := run_bind_eq_ok.mp ran
  obtain rfl := eq_of_checkDeclared declared
  obtain ⟨current, m₁, read, rest⟩ := run_bind_eq_ok.mp rest
  obtain ⟨path, leads⟩ := (eval_target_eq_ok_iff names).mp read
  refine ⟨path, current, m₁, leads, ?_⟩
  split at rest
  · next kept =>
    cases rest
    exact .inl ⟨kept, rfl, rfl, rfl⟩
  · next open_ =>
    obtain ⟨v, m₂, given, rest⟩ := run_bind_eq_ok.mp rest
    obtain ⟨again, m₃, named, last⟩ := run_bind_eq_ok.mp rest
    cases last
    exact .inr ⟨eq_false_of_ne_true open_, v, m₂, again, given, named, rfl, rfl⟩

/-- What a compound assignment has written: `path` are the keys with which the target was read, from the machine `m`, and
`again` are those that were evaluated after the value, and left the machine `m₃`. -/
structure Rewritten (root : String) (path again : List Value) (current r : Value) (m m₃ n : Machine σ) : Prop where
  /-- The keys evaluated last name the place that is written. -/
  written : ∃ old new p, m₃.scope.get? root = some old ∧ old.place? again = some p ∧ Written p r old new ∧
    n = { m₃ with scope := m₃.scope.set root new }
  /-- The value that was read was at the place that the keys named then. -/
  read : root ≠ nowName → ∀ before p, m.scope.get? root = some before → before.place? path = some p →
    before.at? p = some current
  /-- That place is the one that is written, if the keys have the texts that they had. -/
  same : again.map toText = path.map toText → ∃ old new p, m₃.scope.get? root = some old ∧ old.place? path = some p ∧
    Written p r old new ∧ n = { m₃ with scope := m₃.scope.set root new }
  /-- Names that do not lead to the cell that is written stand for what they stood for. -/
  apart : ∀ name, name ≠ root → m₃.scope.pointers.find? name ≠ some (m₃.scope.cellOf root) →
    n.scope.get? name = m₃.scope.get? name

/-- **What compound assignments write.** If one fails, what is left is what the keys and the value left. If one succeeds,
every key has been evaluated once when the target was read, and once more if there was something to write; the keys that
were evaluated last name the place that is written. -/
theorem compound_assignment (compound : op ≠ .assign) (names : target.path? = some (root, keys)) (span : Span)
    {result : Except Fault Value} (ran : (eval host (.assignment span op target value)).run.run m = (result, n)) :
    (∃ fault x, result = .error fault ∧ (prepared host op target value keys).run.run m = (x, n)) ∨
      ∃ path current m₁, Leads host m (m.valueOf host root) keys path current m₁ ∧
        ((op.keeps current = true ∧ result = .ok current ∧ n = m₁) ∨
          (op.keeps current = false ∧ ∃ v m₂ again m₃, (eval host value).run.run m₁ = (.ok v, m₂) ∧
            (evalKeys .inScope host keys).run.run m₂ = (.ok again, m₃) ∧ result = .ok (op.combine current v) ∧
            Rewritten root path again current (op.combine current v) m m₃ n)) := by
  rw [eval_compound compound names] at ran
  cases prepares : (prepared host op target value keys).run.run m with
  | mk x m₃ =>
    cases x with
    | error fault =>
      rw [run_bind_of_error prepares] at ran
      cases ran
      exact .inl ⟨fault, _, rfl, rfl⟩
    | ok found =>
      obtain ⟨r, found⟩ := found
      rw [run_bind_of_ok prepares] at ran
      obtain ⟨path, current, m₁, leads, ⟨kept, rfl, rfl, rfl⟩ | ⟨open_, v, m₂, again, given, named, rfl, rfl⟩⟩ :=
        exists_of_prepared names prepares
      · -- The value that was read decides.
        cases ran
        exact .inr ⟨path, r, n, leads, .inl ⟨kept, rfl, rfl⟩⟩
      · cases wrote : (writePlace .inScope target (some (root, again)) (op.combine current v)).run.run m₃ with
        | mk z m₄ =>
          dsimp only at ran
          cases z with
          | error fault =>
            obtain rfl := eq_of_writePlace_error wrote
            rw [run_bind_of_error wrote] at ran
            cases ran
            exact .inl ⟨fault, _, rfl, rfl⟩
          | ok _ =>
            obtain ⟨old, p, known, place, rfl⟩ := writePlace_eq_ok_iff.mp wrote
            obtain ⟨_, there⟩ := exists_at?_of_place? place
            rw [run_bind_of_ok wrote] at ran
            cases ran
            refine .inr ⟨path, current, m₁, leads, .inr ⟨open_, v, m₂, again, m₃, given, named, rfl, ?_⟩⟩
            have written := written_put there (op.combine current v)
            exact {
              written := ⟨old, _, p, known, place, written, rfl⟩
              read := fun past before q was first => by
                have value : m.valueOf host root = before := by simp [Machine.valueOf, past, was]
                exact (value ▸ leads).at?_eq first
              same := fun texts => ⟨old, _, p, known, (place?_congr texts old).symm.trans place, written, rfl⟩
              apart := fun name ne apart => Scope.get?_set_other ne apart _ }

/-- The very place that was read is written where neither the keys nor the variable have changed in between. -/
theorem Rewritten.in_place {path again : List Value} {current r : Value} {m₃ : Machine σ}
    (h : Rewritten root path again current r m m₃ n) (past : root ≠ nowName)
    (texts : again.map toText = path.map toText) (kept : m₃.scope.get? root = m.scope.get? root) :
    ∃ old new p, m.scope.get? root = some old ∧ old.at? p = some current ∧ n.scope.get? root = some new ∧
      Written p r old new := by
  obtain ⟨old, new, p, known, place, written, left⟩ := h.same texts
  have was : m.scope.get? root = some old := kept.symm.trans known
  subst left
  exact ⟨old, new, p, was, h.read past old p was place, Scope.get?_set_same .., written⟩

/-- An update evaluates every key once, and writes the place whose number it has read. -/
theorem eval_update_eq_ok_iff (names : target.path? = some (root, keys)) (span : Span) (op : UpdateOp) (before : Bool)
    {r : Value} : (eval host (.update span op before target)).run.run m = (.ok r, n) ↔
      ∃ path m₁ old p x, (evalKeys .inScope host keys).run.run m = (.ok path, m₁) ∧ m₁.scope.get? root = some old ∧
        old.place? path = some p ∧ old.at? p = some (.number x) ∧ r = .number (if before then x + step op else x) ∧
        n = { m₁ with scope := m₁.scope.set root (put (.number (x + step op)) old p) } := by
  have update : eval host (.update span op before target) = do
      let path ← evalKeys .inScope host keys
      let values ← modifyPlace .inScope target root path (updated op target.span)
      return if before then values.2 else values.1 := by
    simp [eval, evalWith, link, settled, place?_eq_evalKeys .inScope host names]
  rw [update]
  constructor
  · intro ran
    obtain ⟨path, m₁, named, rest⟩ := run_bind_eq_ok.mp ran
    obtain ⟨⟨old, new⟩, m₂, wrote, last⟩ := run_bind_eq_ok.mp rest
    obtain ⟨v, p, known, place, there, given, rfl⟩ := modifyPlace_eq_ok_iff.mp wrote
    cases old <;> cases given
    next x =>
    cases last
    exact ⟨path, m₁, v, p, x, named, known, place, there, by cases before <;> rfl, rfl⟩
  · rintro ⟨path, m₁, v, p, x, named, known, place, there, rfl, rfl⟩
    have wrote : (modifyPlace .inScope target root path (updated op target.span)).run.run m₁ =
        (.ok (.number x, .number (x + step op)), { m₁ with scope := m₁.scope.set root (put (.number (x + step op)) v p) }) :=
      modifyPlace_eq_ok_iff.mpr ⟨v, p, known, place, there, rfl, rfl⟩
    rw [run_bind_of_ok named, run_bind_of_ok wrote]
    cases before <;> rfl

end Assignment

/-- A function that answers with one name after another, and counts its calls. -/
def alternating : Host Nat := ⟨fun _ _ calls => (.ok (.string (if calls = 0 then "x" else "y")), calls + 1), fun _ => 0⟩

/-- The function, and an object with the fields that it names. -/
def twoFields : Machine Nat :=
  ⟨⟨0, 0⟩, .ofList [("f", .callable 0), ("o", .object [("x", .string "1"), ("y", .string "2")])]⟩

/-- `f()` -/
def nextField : Key := .computed (.call ⟨2, 5⟩ (.identifier ⟨2, 3⟩ "f") [] false)

/-- `o[f()]` -/
def fieldOfNext : Expr := .member ⟨0, 6⟩ (.identifier ⟨0, 1⟩ "o") nextField false

/-- `o[f()] += '!'` -/
def addToNext : Expr := .assignment ⟨0, 13⟩ (.binary .add) fieldOfNext (.literal ⟨10, 13⟩ (.string "!"))

theorem next_is_rewritten : ∃ path again current m₃ n,
    (eval alternating addToNext).run.run twoFields = (.ok (.string "1!"), n) ∧
      Rewritten "o" path again current (.string "1!") twoFields m₃ n := by
  obtain ⟨n, ran⟩ : ∃ n, (eval alternating addToNext).run.run twoFields = (.ok (.string "1!"), n) := ⟨_, rfl⟩
  have compound : AssignOp.binary .add ≠ .assign := nofun
  have names : fieldOfNext.path? = some ("o", [nextField]) := rfl
  rcases compound_assignment compound names _ ran with
    ⟨fault, x, failed, -⟩ | ⟨path, current, m₁, -, ⟨kept, -⟩ | ⟨-, v, m₂, again, m₃, -, -, result, wrote⟩⟩
  · cases failed
  · cases kept
  · rw [← Except.ok.inj result] at wrote
    exact ⟨path, again, current, m₃, n, ran, wrote⟩

/-- The keys of the target are evaluated twice, and what is read is not what is written. -/
theorem next_is_another : ∃ n, (eval alternating addToNext).run.run twoFields = (.ok (.string "1!"), n) ∧ n.host = 2 ∧
    twoFields.scope.get? "o" = some (.object [("x", .string "1"), ("y", .string "2")]) ∧
    n.scope.get? "o" = some (.object [("x", .string "1"), ("y", .string "1!")]) :=
  ⟨_, rfl, rfl, rfl, rfl⟩

end Expr
end PromptScript

/-! ## Compound assignments written out

`x op= v` does what `x = x op v` does. Both read the target before they evaluate the value, and so the value may assign the
target as well. They differ only where the old value decides: the one then writes nothing, and the other writes the value
that it has read, which is to be the one that the cell holds already. -/
namespace PromptScript

variable {σ : Type}

namespace Scope

theorem has_set {scope : Scope} {name : String} (known : scope.has name = true) (other : String) (v : Value) :
    (scope.set other v).has name = true := by
  have declared : (scope.declare other v).has name = true := by
    by_cases same : name = other
    · subst same
      simp [has, declare, Pointers.find?_insert_same]
    · simpa [has, declare, Pointers.find?_insert_other same] using known
  unfold set
  split
  · split
    · exact known
    · exact declared
  · exact declared

/-- To write to a cell what it holds is to write nothing. -/
theorem set_getD_get? {scope : Scope} {name : String} {i : Nat} (cell : scope.pointers.find? name = some i)
    (inside : i < scope.stash.size) : scope.set name ((scope.get? name).getD .undefined) = scope := by
  simp [set, get?, cell, inside, Array.setIfInBounds]

end Scope

/-- One machine, on which a name is known. -/
structure Machine.Knows (name : String) (m n : Machine σ) : Prop where
  same : m = n
  known : m.scope.has name = true

/-- Names stay known. -/
theorem agrees_knows (name : String) (host : Host σ) :
    Agrees Eq (fun _ => Machine.Knows name) Variables.inScope host Variables.inScope host where
  failed here := here.same
  fewer _ here := here
  get? := by
    intro _ other _ m n here
    obtain rfl := here.same
    exact .ok ⟨rfl, here⟩
  set := by
    intro _ other v m n here
    obtain rfl := here.same
    exact .ok ⟨rfl, Scope.has_set here.known other v⟩
  call := by
    intro _ m n identity args here
    obtain rfl := here.same
    exact ⟨rfl, rfl, here.known⟩
  fresh := by
    intro _ m n here
    obtain rfl := here.same
    exact ⟨rfl, rfl, here.known⟩
  now := by
    intro _ m n here
    obtain rfl := here.same
    rfl

namespace Expr

theorem has_of_eval {host : Host σ} {e : Expr} {m n : Machine σ} {v : Value} {name : String}
    (known : m.scope.has name = true) (ran : (eval host e).run.run m = (.ok v, n)) : n.scope.has name = true := by
  have coupled := coupled_evalWith (agrees_knows name host) e (fun _ => True) (fun _ _ => trivial)
  obtain ⟨w, n', ran', -, here⟩ := coupled.ok_of_ok ⟨rfl, known⟩ ran
  exact here.known

/-- The assignment of a target that is combined with a value. -/
def expanded (op : AssignOp) (target value : Expr) : Expr :=
  .assignment ⟨0, 0⟩ .assign target
    (match op with
    | .assign => value
    | .binary op => .binary ⟨0, 0⟩ op target value
    | .logical op => .logical ⟨0, 0⟩ op target value)

/-- Where a compound assignment can be written out: for a variable that is known, unless its old value decides and is not
what its cell holds; and for any member, if the operator never decides. -/
inductive Expands (host : Host σ) (m : Machine σ) : AssignOp → Expr → Prop
  | named {op : AssignOp} {span : Span} {name : String} (compound : op ≠ .assign) (known : m.scope.has name = true)
    (kept : op.keeps (m.valueOf host name) = true →
      name ≠ nowName ∧ ∃ i, m.scope.pointers.find? name = some i ∧ i < m.scope.stash.size) :
    Expands host m op (.identifier span name)
  | member {op : BinaryOp} {span : Span} {base : Expr} {key : Key} {optional : Bool} :
    Expands host m (.binary op) (.member span base key optional)

section Expansion

variable {host : Host σ} {m : Machine σ} {op : AssignOp}

theorem run_writeVariable (span : Span) {name : String} (known : m.scope.has name = true) (v : Value) :
    (writePlace .inScope (.identifier span name) (some (name, [])) v).run.run m =
      (.ok (), { m with scope := m.scope.set name v }) := by
  obtain ⟨i, cell⟩ := Option.isSome_iff_exists.mp known
  exact writePlace_eq_ok_iff.mpr ⟨_, [], congrArg _ cell, rfl, rfl⟩

theorem run_checkVariable (span : Span) {name : String} (known : m.scope.has name = true) :
    (checkDeclared .inScope (.identifier span name)).run.run m = (.ok (), m) := by
  obtain ⟨i, cell⟩ := Option.isSome_iff_exists.mp known
  unfold checkDeclared
  rw [run_bind_of_ok (run_get? ..)]
  simp [Scope.get?, cell]
  rfl

/-- Written out, an assignment to a variable writes in any case. -/
theorem eval_expanded_variable (host : Host σ) (compound : op ≠ .assign) (span : Span) (name : String) (value : Expr) :
    eval host (expanded op (.identifier span name) value) = do
      let current ← eval host (.identifier span name)
      let r ← if op.keeps current then pure current else (op.combine current ·) <$> eval host value
      Variables.inScope.set name r
      return r := by
  unfold expanded
  rw [eval_assign (show path? (.identifier span name) = some (name, []) from rfl)]
  simp only [valueAndKeys, evalKeys, writeTarget, bind_assoc, pure_bind]
  cases op with
  | assign => exact absurd rfl compound
  | binary op => simp [eval, evalWith, link, settled, AssignOp.keeps, AssignOp.combine]
  | logical op =>
    simp only [eval, evalWith, link, AssignOp.keeps, AssignOp.combine, bind_assoc, pure_bind]
    refine bind_congr fun current => ?_
    by_cases decided : op.decidedBy current = true <;> simp [settled, decided]

theorem run_variable_eq_expanded (compound : op ≠ .assign) {name : String} (known : m.scope.has name = true)
    (kept : op.keeps (m.valueOf host name) = true →
      name ≠ nowName ∧ ∃ i, m.scope.pointers.find? name = some i ∧ i < m.scope.stash.size) (span span' : Span) (value : Expr) :
    (eval host (.assignment span op (.identifier span' name) value)).run.run m =
      (eval host (expanded op (.identifier span' name) value)).run.run m := by
  have read : (eval host (.identifier span' name)).run.run m = (.ok (m.valueOf host name), m) :=
    (eval_target_eq_ok_iff rfl).mpr ⟨[], .here ..⟩
  rw [eval_compound compound rfl, eval_expanded_variable host compound]
  unfold prepared
  simp only [bind_assoc]
  rw [run_bind_of_ok (run_checkVariable span' known), run_bind_of_ok read, run_bind_of_ok read]
  by_cases decided : op.keeps (m.valueOf host name) = true
  · -- The one writes nothing, and the other what the cell holds.
    obtain ⟨past, i, cell, inside⟩ := kept decided
    have value : m.valueOf host name = (m.scope.get? name).getD .undefined := if_neg past
    simp only [decided, if_true, pure_bind]
    show (_, m) = (_, { m with scope := m.scope.set name (m.valueOf host name) })
    rw [value, Scope.set_getD_get? cell inside]
  · simp only [decided, Bool.false_eq_true, if_false, bind_assoc, pure_bind, map_eq_pure_bind]
    cases given : (eval host value).run.run m with
    | mk x n =>
      cases x with
      | error fault => rw [run_bind_of_error given, run_bind_of_error given]
      | ok v =>
        -- Whatever the value has done to the variable, its name is still known.
        rw [run_bind_of_ok given, run_bind_of_ok given]
        simp only [evalKeys, pure_bind]
        rw [run_bind_of_ok (run_writeVariable span' (has_of_eval known given) _)]
        rfl

theorem eval_member_eq_expanded (host : Host σ) (op : BinaryOp) (span at_ : Span) (base : Expr) (key : Key) (optional : Bool)
    (value : Expr) : eval host (.assignment span (.binary op) (.member at_ base key optional) value) =
      eval host (expanded (.binary op) (.member at_ base key optional) value) := by
  simp [eval, evalWith, expanded, link, checkDeclared, settled]

/-- **Compound assignments are what they are written out**: they have the same value or meet the same defect, and leave the
same machine. -/
theorem compound_expands {target value : Expr} (expands : Expands host m op target) {e e' : Expr}
    (short : e.unplaced = (assignment ⟨0, 0⟩ op target value).unplaced)
    (long : e'.unplaced = (expanded op target value).unplaced) :
    Agree Eq Eq Eq ((eval host e).run.run m) ((eval host e').run.run m) := by
  have first := placeless_eval host _ _ short m m rfl
  have last := placeless_eval host _ _ long.symm m m rfl
  cases expands with
  | named compound known kept =>
    rw [run_variable_eq_expanded compound known kept] at first
    exact first.trans last
  | member =>
    rw [eval_member_eq_expanded] at first
    exact first.trans last

end Expansion

/-- A variable with a name for its value. -/
def lettered : Machine Unit := ⟨⟨0, ()⟩, .ofList [("x", .string "a")]⟩

/-- `x = 'b'` -/
def assignLetter : Expr := .assignment ⟨0, 7⟩ .assign (.identifier ⟨0, 1⟩ "x") (.literal ⟨4, 7⟩ (.string "b"))

/-- `x += (x = 'b')` -/
def addAssigned : Expr := .assignment ⟨0, 14⟩ (.binary .add) (.identifier ⟨0, 1⟩ "x") assignLetter

/-- `x = x + (x = 'b')` -/
def assignAdded : Expr :=
  .assignment ⟨0, 18⟩ .assign (.identifier ⟨0, 1⟩ "x") (.binary ⟨4, 18⟩ .add (.identifier ⟨4, 5⟩ "x") assignLetter)

theorem added_as_expanded : ∃ n, (eval Host.idle addAssigned).run.run lettered = (.ok (.string "ab"), n) ∧
    (eval Host.idle assignAdded).run.run lettered = (.ok (.string "ab"), n) := by
  obtain ⟨n, ran⟩ : ∃ n, (eval Host.idle addAssigned).run.run lettered = (.ok (.string "ab"), n) := ⟨_, rfl⟩
  have expands : Expands Host.idle lettered (.binary .add) (.identifier ⟨0, 1⟩ "x") := .named nofun rfl nofun
  have short : addAssigned.unplaced = (assignment ⟨0, 0⟩ (.binary .add) (.identifier ⟨0, 1⟩ "x") assignLetter).unplaced := rfl
  have agree := compound_expands expands short (show assignAdded.unplaced = _ from rfl)
  rw [ran] at agree
  generalize (eval Host.idle assignAdded).run.run lettered = outcome at agree ⊢
  cases agree with
  | ok same here =>
    subst same here
    exact ⟨n, ran, rfl⟩

/-- A name for the present time, with a cell of its own. -/
def timed : Machine Unit := ⟨⟨0, ()⟩, .ofList [(nowName, .null)]⟩

/-- A name for a cell that is not there. -/
def cellless : Machine Unit := ⟨⟨0, ()⟩, ⟨#[], .ofList [("x", 0)]⟩⟩

/-- Where the old value decides, `$now ||= 'v'` and `x &&= 'v'` write nothing; written out, they write what they have read. -/
theorem decided_not_expanded :
    (∃ n n', (eval Host.idle (.assignment ⟨0, 12⟩ (.logical .or) (.identifier ⟨0, 4⟩ nowName)
          (.literal ⟨9, 12⟩ (.string "v")))).run.run timed = (.ok (.date 0), n) ∧
      (eval Host.idle (expanded (.logical .or) (.identifier ⟨0, 4⟩ nowName) (.literal ⟨9, 12⟩ (.string "v")))).run.run timed =
        (.ok (.date 0), n') ∧
      timed.scope.has nowName = true ∧ n.scope.get? nowName = some .null ∧ n'.scope.get? nowName = some (.date 0)) ∧
    (∃ n n', (eval Host.idle (.assignment ⟨0, 9⟩ (.logical .and) (.identifier ⟨0, 1⟩ "x")
          (.literal ⟨6, 9⟩ (.string "v")))).run.run cellless = (.ok .undefined, n) ∧
      (eval Host.idle (expanded (.logical .and) (.identifier ⟨0, 1⟩ "x") (.literal ⟨6, 9⟩ (.string "v")))).run.run cellless =
        (.ok .undefined, n') ∧
      cellless.scope.has "x" = true ∧ n.scope.stash.size = 0 ∧ n'.scope.stash.size = 1) :=
  ⟨⟨_, _, rfl, rfl, rfl, rfl, rfl⟩, ⟨_, _, rfl, rfl, rfl, rfl, rfl⟩⟩

end Expr
end PromptScript
