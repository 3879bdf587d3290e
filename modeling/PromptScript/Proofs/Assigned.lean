import Mathlib.Data.List.Forall2
import PromptScript.Proofs.Places
import PromptScript.Proofs.Turns

/-! # Assignments to places

An assignment to a place writes one variable anew. What is not on the way to the place is as it was, in this variable and
in all that do not share its cell. To read the target is to read what was written, as long as its keys name what they named
when it was written: a key that reads the variable itself may come to name something else. -/
namespace PromptScript

variable {σ : Type}

namespace Expr

open Value

/-! ## Expressions without effects -/

mutual

/-- Whether nothing is assigned, updated or called in an expression. -/
def isQuiet : Expr → Bool
  | literal _ _ | identifier _ _ => true
  | array _ items | sequence _ items => itemsQuiet items
  | object _ fields => fieldsQuiet fields
  | unary _ _ e | chain _ e => isQuiet e
  | binary _ _ a b | logical _ _ a b => isQuiet a && isQuiet b
  | conditional _ test a b => isQuiet test && isQuiet a && isQuiet b
  | member _ base key _ => isQuiet base && keyQuiet key
  | assignment .. | update .. | call .. => false

def itemsQuiet : List Expr → Bool
  | [] => true
  | e :: r => isQuiet e && itemsQuiet r

def fieldsQuiet : List (Key × Expr) → Bool
  | [] => true
  | (key, e) :: r => keyQuiet key && isQuiet e && fieldsQuiet r

def keyQuiet : Key → Bool
  | .named _ => true
  | .computed e => isQuiet e

end

section Quiet

variable (host : Host σ) {scope : Scope} {caller : σ}

theorem idle_readName (name : String) : Idle (readName .inScope host name) scope caller :=
  fun fresh => ⟨fresh, congrArg Prod.snd (run_readName host ⟨⟨fresh, caller⟩, scope⟩ name)⟩

theorem idle_readMember? (object key : Value) : Idle (readMember? object key : Eval σ _) scope caller :=
  fun fresh => ⟨fresh + 1, rfl⟩

mutual

/-- **Without assignments, updates and calls an expression has no effect.** -/
theorem idle_link : ∀ {e : Expr}, e.isQuiet = true → Idle (link .inScope host e) scope caller
  | literal _ _, _ => .pure _
  | identifier _ name, _ => (idle_readName host name).bind fun _ => .pure _
  | array _ items, quiet => (idle_evalItems quiet).bind fun _ => .pure _
  | object _ fields, quiet => (idle_evalFields quiet []).bind fun _ => .pure _
  | sequence _ items, quiet => (idle_evalLast quiet .undefined).bind fun _ => .pure _
  | unary _ _ e, quiet => (idle_link (e := e) quiet).bind fun _ => .pure _
  | chain _ e, quiet => (idle_link (e := e) quiet).bind fun _ => .pure _
  | binary _ _ a b, quiet => by
    obtain ⟨left, right⟩ := Bool.and_eq_true_iff.mp quiet
    exact (idle_link left).bind fun _ => (idle_link right).bind fun _ => .pure _
  | logical _ _ a b, quiet => by
    obtain ⟨left, right⟩ := Bool.and_eq_true_iff.mp quiet
    exact (idle_link left).bind fun _ => .ite (.pure _) ((idle_link right).bind fun _ => .pure _)
  | conditional _ test a b, quiet => by
    obtain ⟨both, second⟩ := Bool.and_eq_true_iff.mp quiet
    obtain ⟨holds, first⟩ := Bool.and_eq_true_iff.mp both
    exact (idle_link holds).bind fun _ =>
      .ite ((idle_link first).bind fun _ => .pure _) ((idle_link second).bind fun _ => .pure _)
  | member _ base key optional, quiet => by
    obtain ⟨before, last⟩ := Bool.and_eq_true_iff.mp quiet
    refine (idle_link before).bind fun found => ?_
    cases found with
    | none => exact .pure _
    | some target =>
      refine .ite (.pure _) ((idle_evalKey last).bind fun name => (idle_readMember? target name).bind fun found => ?_)
      cases found with
      | none => exact .throw _
      | some v => exact .pure _

theorem idle_evalItems : ∀ {items : List Expr}, itemsQuiet items = true → Idle (evalItems .inScope host items) scope caller
  | [], _ => .pure _
  | e :: r, quiet => by
    obtain ⟨first, later⟩ := Bool.and_eq_true_iff.mp quiet
    exact (idle_link first).bind fun _ => (idle_evalItems later).bind fun _ => .pure _

theorem idle_evalLast : ∀ {items : List Expr}, itemsQuiet items = true → ∀ last : Value,
    Idle (evalLast .inScope host items last) scope caller
  | [], _, _ => .pure _
  | e :: r, quiet, _ => by
    obtain ⟨first, later⟩ := Bool.and_eq_true_iff.mp quiet
    exact (idle_link first).bind fun _ => idle_evalLast later _

theorem idle_evalFields : ∀ {fields : List (Key × Expr)}, fieldsQuiet fields = true → ∀ acc : List (String × Value),
    Idle (evalFields .inScope host fields acc) scope caller
  | [], _, _ => .pure _
  | (key, e) :: r, quiet, _ => by
    obtain ⟨both, later⟩ := Bool.and_eq_true_iff.mp quiet
    obtain ⟨name, value⟩ := Bool.and_eq_true_iff.mp both
    exact (idle_evalKey name).bind fun _ => (idle_link value).bind fun _ => idle_evalFields later _

theorem idle_evalKey : ∀ {key : Key}, keyQuiet key = true → Idle (evalKey .inScope host key) scope caller
  | .named _, _ => .pure _
  | .computed e, quiet => (idle_link (e := e) quiet).bind fun _ => .pure _

end

theorem idle_eval {e : Expr} (quiet : e.isQuiet = true) : Idle (eval host e) scope caller :=
  (idle_link host quiet).bind fun _ => .pure _

end Quiet

/-! ## Assignments -/

/-- In a scope, and in a state of the caller's, keys name what is said of them, and change neither. -/
def StillName (host : Host σ) (scope : Scope) (caller : σ) (keys : List Key) (path : List Value) : Prop :=
  List.Forall₂ (fun key k => ∀ fresh, ∃ k' fresh',
    (evalKey .inScope host key).run.run ⟨⟨fresh, caller⟩, scope⟩ = (.ok k', ⟨⟨fresh', caller⟩, scope⟩) ∧
      k'.toText = k.toText) keys path

/-- Keys that name a place lead to what is there. -/
theorem StillName.leads {host : Host σ} {scope : Scope} {caller : σ} {keys : List Key} {path : List Value}
    (names : StillName host scope caller keys path) {v w : Value} {p : List Step} (named : v.place? path = some p)
    (there : v.at? p = some w) (fresh : Nat) : ∃ path' fresh',
      Leads host ⟨⟨fresh, caller⟩, scope⟩ v keys path' w ⟨⟨fresh', caller⟩, scope⟩ := by
  induction names generalizing v p fresh with
  | nil =>
    cases named
    cases there
    exact ⟨[], fresh, .here ..⟩
  | cons first _ ih =>
    obtain ⟨s, x, r, step, child, rest, rfl⟩ := place?_cons_eq_some_iff.mp named
    obtain ⟨k, fresh₁, ran, same⟩ := first fresh
    -- A step depends on the text of a key only.
    have step' : v.step? k = some s := by
      cases v <;> simpa only [step?, same] using step
    simp only [at?, child, Option.bind_some] at there
    obtain ⟨path', fresh', leads⟩ := ih rest there (fresh₁ + 1)
    exact ⟨k :: path', fresh', .next ran (getMember?_eq step' child fresh₁) leads⟩

/-- What an assignment of a value to a place leaves behind: the keys of its target were evaluated where it began. -/
structure Assigned (host : Host σ) (target : Expr) (root : String) (keys : List Key) (m n : Machine σ) (v : Value)
    (path : List Value) : Prop where
  caller : n.host = m.host
  named : ∃ fresh fresh', (evalKeys .inScope host keys).run.run { m with fresh } = (.ok path, { m with fresh := fresh' })
  /-- Names that do not lead to the cell that is written stand for what they stood for. -/
  apart : ∀ name, name ≠ root → m.scope.pointers.find? name ≠ some (m.scope.cellOf root) →
    n.scope.get? name = m.scope.get? name
  /-- Where each name has a cell of its own these are all other names. -/
  others : m.scope.Sound → ∀ name, name ≠ root → n.scope.get? name = m.scope.get? name
  within : ∃ old new p, (m.scope.get? root).getD .undefined = old ∧ n.scope.get? root = some new ∧
    old.place? path = some p ∧ Written p v old new
  /-- As long as the keys name what they named, the target reads as the value. -/
  readable : StillName host n.scope n.host keys path → ∀ fresh, ∃ fresh',
    (eval host target).run.run { n with fresh } = (.ok v, { n with fresh := fresh' })

section Assignment

variable {host : Host σ} {target value : Expr} {root : String} {keys : List Key} {path : List Value} {v old : Value}
  {p : List Step} {m n : Machine σ}

/-- The value of an assignment, and the keys of the place that it is to be written to. -/
def valueAndKeys (host : Host σ) (value : Expr) (keys : List Key) : Eval σ (Value × List Value) := do
  let v ← eval host value
  return (v, ← evalKeys .inScope host keys)

/-- To assign is to write a member that is there, or to give a name a value, known or not. -/
def writeTarget (target : Expr) (root : String) (path : List Value) (v : Value) : Eval σ Unit :=
  match target with
  | .identifier _ _ => Variables.inScope.set root v
  | _ => writePlace .inScope target (some (root, path)) v

theorem eval_assign (names : target.path? = some (root, keys)) (span : Span) (value : Expr) :
    eval host (.assignment span .assign target value) = do
      let (v, path) ← valueAndKeys host value keys
      writeTarget target root path v
      return v := by
  cases target with
  | identifier _ name =>
    cases names
    simp [eval, evalWith, valueAndKeys, writeTarget, evalKeys, link, settled]
  | _ => simp [eval, evalWith, valueAndKeys, writeTarget, link, settled, place?_eq_evalKeys .inScope host names]

/-- A write to a target fails and changes nothing, or it writes the variable anew. -/
theorem cases_of_writeTarget (names : target.path? = some (root, keys)) {m₁ : Machine σ}
    (named : (evalKeys .inScope host keys).run.run m₁ = (.ok path, m)) {x : Except Fault Unit}
    (ran : (writeTarget target root path v).run.run m = (x, n)) : (∃ fault, x = .error fault ∧ n = m) ∨
      ∃ old p, (m.scope.get? root).getD .undefined = old ∧ old.place? path = some p ∧ x = .ok () ∧
        n = { m with scope := m.scope.set root (put v old p) } := by
  cases target with
  | identifier _ name =>
    cases names
    cases named
    cases ran
    exact .inr ⟨_, [], rfl, rfl, rfl, rfl⟩
  | _ =>
    cases x with
    | error fault => exact .inl ⟨fault, rfl, eq_of_writePlace_error ran⟩
    | ok _ =>
      obtain ⟨old, p, known, place, rfl⟩ := writePlace_eq_ok_iff.mp ran
      exact .inr ⟨old, p, by rw [known]; rfl, place, rfl, rfl⟩

/-- What is known once the variable of a target has been written anew. -/
theorem assigned_of_set (names : target.path? = some (root, keys)) (past : root ≠ nowName) (fresh : Nat)
    (evaluated : ∃ fresh fresh', (evalKeys .inScope host keys).run.run { m with fresh } = (.ok path, { m with fresh := fresh' }))
    (was : (m.scope.get? root).getD .undefined = old) (named : old.place? path = some p) :
    Assigned host target root keys m ⟨⟨fresh, m.host⟩, m.scope.set root (put v old p)⟩ v path := by
  obtain ⟨w, there⟩ := exists_at?_of_place? named
  refine ⟨rfl, evaluated, fun name ne apart => Scope.get?_set_other ne apart _, fun sound name ne =>
    Scope.get?_set_other ne (sound.apart_cellOf ne) _, ?_, fun again fresh => ?_⟩
  · exact ⟨old, _, p, was, Scope.get?_set_same .., named, written_put there v⟩
  · have value (fresh : Nat) : Machine.valueOf host ⟨⟨fresh, m.host⟩, m.scope.set root (put v old p)⟩ root = put v old p := by
      simp [Machine.valueOf, past, Scope.get?_set_same]
    obtain ⟨path', fresh', leads⟩ := again.leads (place?_put named v) (at?_put_same there v) fresh
    refine ⟨fresh', (eval_target_eq_ok_iff names).mpr ⟨path', ?_⟩⟩
    rw [value]
    exact leads

/-- **Assignments are lawful.** Where neither the value nor the keys of the target have an effect, an assignment that fails
changes nothing, and one that succeeds writes the place that the keys name and nothing else. -/
theorem assignment_lawful (names : target.path? = some (root, keys)) (past : root ≠ nowName)
    (quiet : Idle (eval host value) m.scope m.host) (still : ∀ key ∈ keys, Idle (evalKey .inScope host key) m.scope m.host)
    (span : Span) {result : Except Fault Value}
    (ran : (eval host (.assignment span .assign target value)).run.run m = (result, n)) :
    (∃ fault, result = .error fault ∧ n.scope = m.scope ∧ n.host = m.host) ∨
      ∃ v path, result = .ok v ∧ (∃ n', (eval host value).run.run m = (.ok v, n')) ∧
        Assigned host target root keys m n v path := by
  -- Until the write nothing changes.
  have idle : Idle (valueAndKeys host value keys) m.scope m.host :=
    quiet.bind fun _ => (idle_evalKeys .inScope host still).bind fun _ => .pure _
  obtain ⟨fresh, left⟩ := idle m.fresh
  rw [eval_assign names] at ran
  cases evaluated : (valueAndKeys host value keys).run.run m with
  | mk x m₂ =>
    obtain rfl : m₂ = ⟨⟨fresh, m.host⟩, m.scope⟩ := (congrArg Prod.snd evaluated).symm.trans left
    cases x with
    | error fault =>
      rw [run_bind_of_error evaluated] at ran
      cases ran
      exact .inl ⟨fault, rfl, rfl, rfl⟩
    | ok found =>
      obtain ⟨v, path⟩ := found
      rw [run_bind_of_ok evaluated] at ran
      obtain ⟨_, m₁, given, rest⟩ := run_bind_eq_ok.mp evaluated
      obtain ⟨_, _, named, last⟩ := run_bind_eq_ok.mp rest
      cases last
      obtain ⟨fresh₁, left⟩ := quiet m.fresh
      obtain rfl : m₁ = ⟨⟨fresh₁, m.host⟩, m.scope⟩ := (congrArg Prod.snd given).symm.trans left
      cases wrote : (writeTarget target root path v).run.run ⟨⟨fresh, m.host⟩, m.scope⟩ with
      | mk y m₃ =>
        rcases cases_of_writeTarget names named wrote with ⟨fault, rfl, rfl⟩ | ⟨old, p, was, place, rfl, rfl⟩
        · rw [run_bind_of_error wrote] at ran
          cases ran
          exact .inl ⟨fault, rfl, rfl, rfl⟩
        · rw [run_bind_of_ok wrote] at ran
          cases ran
          exact .inr ⟨v, path, rfl, ⟨_, given⟩, assigned_of_set names past fresh ⟨fresh₁, fresh, named⟩ was place⟩

end Assignment

/-- A list in a field, and the index of its second item in a variable. -/
def listing : Machine Unit :=
  ⟨⟨0, ()⟩, .ofList [("o", .object [("list", .array [.string "a", .string "b"])]), ("i", .string "1")]⟩

/-- `o.list[i]` -/
def itemOfList : Expr :=
  .member ⟨0, 11⟩ (.member ⟨0, 6⟩ (.identifier ⟨0, 1⟩ "o") (.named "list") false) (.computed (.identifier ⟨7, 8⟩ "i")) false

theorem item_assigned : ∃ n path,
    (eval Host.idle (.assignment ⟨0, 15⟩ .assign itemOfList (.literal ⟨12, 15⟩ (.string "z")))).run.run listing =
        (.ok (.string "z"), n) ∧
      Assigned Host.idle itemOfList "o" [.named "list", .computed (.identifier ⟨7, 8⟩ "i")] listing n (.string "z") path := by
  have names : itemOfList.path? = some ("o", [.named "list", .computed (.identifier ⟨7, 8⟩ "i")]) := rfl
  have quiet : ∀ key ∈ [.named "list", .computed (.identifier ⟨7, 8⟩ "i")], keyQuiet key = true := by
    simp [keyQuiet, isQuiet]
  rcases assignment_lawful (m := listing) names (by decide) (idle_eval Host.idle (e := .literal ⟨12, 15⟩ (.string "z")) rfl)
    (fun key known => idle_evalKey Host.idle (quiet key known)) ⟨0, 15⟩ rfl with
    ⟨fault, failed, -⟩ | ⟨v, path, given, -, assigned⟩
  · cases failed
  · cases given
    exact ⟨_, path, rfl, assigned⟩

/-- An object with the name of its only field in it. -/
def selfNamed : Machine Unit := ⟨⟨0, ()⟩, .ofList [("o", .object [("k", .string "k")])]⟩

/-- `o[o.k]` -/
def ownName : Expr :=
  .member ⟨0, 6⟩ (.identifier ⟨0, 1⟩ "o")
    (.computed (.member ⟨2, 5⟩ (.identifier ⟨2, 3⟩ "o") (.named "k") false)) false

/-- Two names for one cell. -/
def sharing : Machine Unit := ⟨⟨0, ()⟩, ⟨#[.null], .ofList [("x", 0), ("y", 0)]⟩⟩

/-- What was assigned is not read where the assignment gave a key another value, and names that share a cell are assigned
together. -/
theorem assigned_not_read :
    (∃ n n' key, ownName.path? = some ("o", [key]) ∧
      keyQuiet key = true ∧
      (eval Host.idle (.assignment ⟨0, 12⟩ .assign ownName (.literal ⟨9, 12⟩ (.string "z")))).run.run selfNamed =
        (.ok (.string "z"), n) ∧
      (eval Host.idle ownName).run.run n = (.ok .undefined, n')) ∧
    (∃ n, (eval Host.idle (.assignment ⟨0, 7⟩ .assign (.identifier ⟨0, 1⟩ "x") (.literal ⟨4, 7⟩ (.string "v")))).run.run
        sharing = (.ok (.string "v"), n) ∧
      sharing.scope.get? "y" = some .null ∧ n.scope.get? "y" = some (.string "v")) :=
  ⟨⟨_, _, _, rfl, rfl, rfl, rfl⟩, ⟨_, rfl, rfl, rfl⟩⟩

end Expr
end PromptScript
