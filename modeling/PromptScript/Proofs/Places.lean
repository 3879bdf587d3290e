import PromptScript.Expr.Evaluation
import PromptScript.Proofs.Raised
import PromptScript.Proofs.Tables
import PromptScript.Proofs.Uses

/-! # Places in values

A place in a value is a path of fields and items into it. Keys name a place, one step for each key, if there are members
of these names. A write changes what is at the place: what is around it keeps its members, and what is beside it stays. -/
namespace PromptScript

/-- A step into a value. -/
inductive Step where
  | field (name : String)
  | item (index : Nat)
  deriving DecidableEq, Repr

namespace Value

/-- The member one step into a value. -/
def child? : Value → Step → Option Value
  | object fields, .field name => Fields.get? name fields
  | array items, .item i => items[i]?
  | _, _ => none

/-- The value with another member in the place of one that it has. -/
def setChild : Value → Step → Value → Value
  | object fields, .field name, w => object (Fields.set name w fields)
  | array items, .item i, w => array (items.set i w)
  | v, _, _ => v

/-- The step that a key names in a value. -/
def step? : Value → Value → Option Step
  | object _, key => some (.field key.toText)
  | array _, key => (indexOfKey? key.toText).map .item
  | _, _ => none

/-- What is at a place in a value. -/
def at? : Value → List Step → Option Value
  | v, [] => some v
  | v, s :: p => (v.child? s).bind fun w => w.at? p

/-- The value with something else at a place that is there. -/
def put (new : Value) : Value → List Step → Value
  | _, [] => new
  | v, s :: p =>
    match v.child? s with
    | some w => v.setChild s (put new w p)
    | none => v

/-- The place that keys name in a value, if it is there. -/
def place? : Value → List Value → Option (List Step)
  | _, [] => some []
  | v, key :: path => (v.step? key).bind fun s => (v.child? s).bind fun w => (w.place? path).map (s :: ·)

/-- Two objects with the same names in the same order, or two arrays of the same length. -/
def SameMembers : Value → Value → Prop
  | object fields, object fields' => Fields.names fields = Fields.names fields'
  | array items, array items' => items.length = items'.length
  | _, _ => False

/-- `v` is written at a place in `old`, and nothing else is. -/
structure Written (p : List Step) (v old new : Value) : Prop where
  here : new.at? p = some v
  around : ∀ q, q <+: p → q ≠ p → ∃ a b, old.at? q = some a ∧ new.at? q = some b ∧ a.SameMembers b
  beside : ∀ q, ¬ p <+: q → ¬ q <+: p → new.at? q = old.at? q

/-! ## One step -/

section Step

variable {v w new key : Value} {s s' : Step}

theorem child?_setChild_same (h : v.child? s = some w) (new : Value) : (v.setChild s new).child? s = some new := by
  cases v <;> cases s <;> try cases h
  · next items i =>
    have inside : i < items.length := (List.getElem?_eq_some_iff.mp h).1
    simp [setChild, child?, inside]
  · exact Fields.get?_set_same ..

theorem child?_setChild_other (other : s' ≠ s) (v new : Value) : (v.setChild s new).child? s' = v.child? s' := by
  cases v <;> cases s <;> cases s' <;> try rfl
  · next i j =>
    have apart : i ≠ j := fun same => other (congrArg Step.item same.symm)
    simp [setChild, child?, apart]
  · next n n' =>
    have apart : n' ≠ n := fun same => other (congrArg Step.field same)
    exact Fields.get?_set_other apart ..

theorem sameMembers_setChild (h : v.child? s = some w) (new : Value) : v.SameMembers (v.setChild s new) := by
  cases v <;> cases s <;> try cases h
  · exact (List.length_set ..).symm
  · next fields name =>
    have there : name ∈ Fields.names fields := by
      apply Decidable.byContradiction
      intro absent
      cases (Fields.get?_eq_none_iff.mpr absent).symm.trans h
    show Fields.names fields = Fields.names (Fields.set name new fields)
    rw [Fields.names_set, if_pos there]

/-- The members of a value do not matter to the step that a key names. -/
theorem step?_setChild (v : Value) (s : Step) (new key : Value) : (v.setChild s new).step? key = v.step? key := by
  cases v <;> cases s <;> rfl

theorem childOf?_eq (v key : Value) : Expr.childOf? v key = (v.step? key).bind v.child? := by
  cases v with
  | array items =>
    show (indexOfKey? key.toText).bind _ = ((indexOfKey? key.toText).map Step.item).bind _
    rw [Option.bind_map]
    rfl
  | _ => rfl

theorem setOwn?_eq (named : v.step? key = some s) (there : v.child? s = some w) (new : Value) :
    v.setOwn? key new = some (v.setChild s new) := by
  cases v with
  | object fields =>
    cases named
    have has : Fields.has key.toText fields = true := by
      rw [Fields.has, show Fields.get? key.toText fields = some w from there]
      rfl
    simp [setOwn?, setChild, has]
  | array items =>
    obtain ⟨i, index, rfl⟩ := Option.map_eq_some_iff.mp named
    have inside : i < items.length := (List.getElem?_eq_some_iff.mp there).1
    simp [setOwn?, setChild, index, inside]
  | _ => cases named

/-- A member that can be written is read as it is. -/
theorem getMember?_eq (named : v.step? key = some s) (there : v.child? s = some w) (identity : Nat) :
    v.getMember? identity key = some w := by
  cases v with
  | object fields =>
    cases named
    show some ((Fields.get? key.toText fields).getD undefined) = some w
    rw [show Fields.get? key.toText fields = some w from there]
    rfl
  | array items =>
    obtain ⟨i, index, rfl⟩ := Option.map_eq_some_iff.mp named
    have found : items[i]? = some w := there
    show some (arrayMember identity items key.toText) = some w
    simp [arrayMember, index, found]
  | _ => cases named

end Step

/-! ## Places -/

section Places

variable {v w new old : Value} {p q : List Step} {path : List Value}

theorem place?_cons_eq_some_iff {key : Value} : v.place? (key :: path) = some p ↔
    ∃ s w r, v.step? key = some s ∧ v.child? s = some w ∧ w.place? path = some r ∧ s :: r = p := by
  simp only [place?, Option.bind_eq_some_iff, Option.map_eq_some_iff]
  constructor
  · rintro ⟨s, step, w, child, r, rest, same⟩
    exact ⟨s, w, r, step, child, rest, same⟩
  · rintro ⟨s, w, r, step, child, rest, same⟩
    exact ⟨s, step, w, child, r, rest, same⟩

/-- Keys name places that are there. -/
theorem exists_at?_of_place? (named : v.place? path = some p) : ∃ w, v.at? p = some w := by
  induction path generalizing v p with
  | nil =>
    cases named
    exact ⟨v, rfl⟩
  | cons key path ih =>
    obtain ⟨s, w, r, -, there, rest, rfl⟩ := place?_cons_eq_some_iff.mp named
    obtain ⟨x, found⟩ := ih rest
    exact ⟨x, by simp [at?, there, found]⟩

/-- Keys with the same texts name the same place. -/
theorem place?_congr {path path' : List Value} (same : path.map toText = path'.map toText) (v : Value) :
    v.place? path = v.place? path' := by
  induction path generalizing v path' with
  | nil =>
    cases path' with
    | nil => rfl
    | cons _ _ => cases same
  | cons key path ih =>
    cases path' with
    | nil => cases same
    | cons key' path' =>
      obtain ⟨text, texts⟩ := List.cons.inj same
      have step : v.step? key = v.step? key' := by
        cases v <;> simp only [step?, show key.toText = key'.toText from text]
      simp only [place?, step, ih texts]

theorem at?_put_same (there : v.at? p = some old) (new : Value) : (put new v p).at? p = some new := by
  induction p generalizing v with
  | nil => rfl
  | cons s p ih =>
    obtain ⟨w, child, rest⟩ := Option.bind_eq_some_iff.mp there
    simp only [put, child, at?, child?_setChild_same child, Option.bind_some]
    exact ih rest

/-- What is around a place keeps its members. -/
theorem exists_around_put (there : v.at? p = some old) (new : Value) (before : q <+: p) (other : q ≠ p) :
    ∃ a b, v.at? q = some a ∧ (put new v p).at? q = some b ∧ a.SameMembers b := by
  induction p generalizing v q with
  | nil => exact absurd (List.prefix_nil.mp before) other
  | cons s p ih =>
    obtain ⟨w, child, rest⟩ := Option.bind_eq_some_iff.mp there
    simp only [put, child]
    cases q with
    | nil => exact ⟨v, _, rfl, rfl, sameMembers_setChild child _⟩
    | cons s' q =>
      obtain ⟨rfl, inside⟩ := List.cons_prefix_cons.mp before
      obtain ⟨a, b, first, second, same⟩ := ih rest inside fun same => other (congrArg _ same)
      exact ⟨a, b, by simpa [at?, child] using first, by simpa [at?, child?_setChild_same child] using second, same⟩

/-- What is beside a place stays. -/
theorem at?_put_beside (after : ¬ p <+: q) (before : ¬ q <+: p) (v new : Value) : (put new v p).at? q = v.at? q := by
  induction p generalizing v q with
  | nil => exact absurd List.nil_prefix after
  | cons s p ih =>
    cases q with
    | nil => exact absurd List.nil_prefix before
    | cons s' q =>
      unfold put
      split
      · next w child =>
        by_cases same : s' = s
        · subst same
          rw [List.cons_prefix_cons] at after before
          have rest := ih (fun h => after ⟨rfl, h⟩) (fun h => before ⟨rfl, h⟩) w
          simpa [at?, child, child?_setChild_same child] using rest
        · simp only [at?, child?_setChild_other same]
      · rfl

theorem written_put (there : v.at? p = some old) (new : Value) : Written p new v (put new v p) where
  here := at?_put_same there new
  around _ before other := exists_around_put there new before other
  beside _ after before := at?_put_beside after before v new

/-- What is written at a place is found there by the same keys. -/
theorem place?_put (named : v.place? path = some p) (new : Value) : (put new v p).place? path = some p := by
  induction path generalizing v p with
  | nil =>
    cases named
    rfl
  | cons key path ih =>
    obtain ⟨s, w, r, step, child, rest, rfl⟩ := place?_cons_eq_some_iff.mp named
    rw [put, child]
    exact place?_cons_eq_some_iff.mpr
      ⟨s, _, r, (step?_setChild ..).trans step, child?_setChild_same child _, ih rest, rfl⟩

end Places
end Value

namespace Expr

open Value

/-- **A write succeeds just at a place that is there**, if there is a new value for the old one. -/
theorem writeAt_eq_ok_iff {missing : Value → Fault} {compute : Value → Except Fault Value} {v old new v' : Value}
    {path : List Value} : writeAt missing compute v path = .ok (old, new, v') ↔
      ∃ p, v.place? path = some p ∧ v.at? p = some old ∧ compute old = .ok new ∧ v' = put new v p := by
  induction path generalizing v v' with
  | nil =>
    unfold writeAt
    cases computed : compute v with
    | error fault =>
      constructor
      · intro ran
        cases ran
      · rintro ⟨p, named, there, given, -⟩
        cases named
        cases there
        cases computed.symm.trans given
    | ok x =>
      constructor
      · intro ran
        cases ran
        exact ⟨[], rfl, rfl, computed, rfl⟩
      · rintro ⟨p, named, there, given, rfl⟩
        cases named
        cases there
        cases computed.symm.trans given
        rfl
  | cons key path ih =>
    constructor
    · intro ran
      unfold writeAt at ran
      rw [childOf?_eq] at ran
      split at ran
      · cases ran
      · next w found =>
        obtain ⟨s, step, child⟩ := Option.bind_eq_some_iff.mp found
        cases inner : writeAt missing compute w path with
        | error fault => rw [inner] at ran; cases ran
        | ok result =>
          obtain ⟨old', new', w'⟩ := result
          rw [inner] at ran
          simp only [bind, Except.bind, setOwn?_eq step child] at ran
          cases ran
          obtain ⟨r, named, there, given, rfl⟩ := ih.mp inner
          exact ⟨s :: r, place?_cons_eq_some_iff.mpr ⟨s, w, r, step, child, named, rfl⟩, by simp [at?, child, there], given,
            by simp [put, child]⟩
    · rintro ⟨p, named, there, given, rfl⟩
      obtain ⟨s, w, r, step, child, rest, rfl⟩ := place?_cons_eq_some_iff.mp named
      simp only [at?, child, Option.bind_some] at there
      unfold writeAt
      rw [childOf?_eq, step, Option.bind_some, child]
      simp only [ih.mpr ⟨r, rest, there, given, rfl⟩, bind, Except.bind, setOwn?_eq step child, put, child]
      rfl

end Expr
end PromptScript

/-! ## Targets of assignments

A target that names a place is a variable followed by members none of which is optional. To read it is to go from the value
of the variable from member to member, each key evaluated when it is come to; to write to it is to evaluate the keys one
after the other, and then to write the variable anew with something else at the place they name. -/
namespace PromptScript

variable {σ S α β : Type}

/-! ### Runs -/

/-- Two steps give a value if the first gives one, and the second from there. -/
theorem run_bind_eq_ok {c : ExceptT Fault (StateM S) α} {f : α → ExceptT Fault (StateM S) β} {s t : S} {b : β} :
    (c >>= f).run.run s = (.ok b, t) ↔ ∃ a s₁, c.run.run s = (.ok a, s₁) ∧ (f a).run.run s₁ = (.ok b, t) := by
  show (match c.run.run s with | (x, s₁) => (ExceptT.bindCont f x).run s₁) = (.ok b, t) ↔ _
  obtain ⟨x, s₁⟩ := c.run.run s
  cases x with
  | error fault => exact ⟨nofun, nofun⟩
  | ok a =>
    refine ⟨fun ran => ⟨a, s₁, rfl, ran⟩, ?_⟩
    rintro ⟨_, _, first, later⟩
    cases first
    exact later

theorem run_bind_of_ok {c : ExceptT Fault (StateM S) α} {s s₁ : S} {a : α} (first : c.run.run s = (.ok a, s₁))
    (f : α → ExceptT Fault (StateM S) β) : (c >>= f).run.run s = (f a).run.run s₁ := by
  show (match c.run.run s with | (x, s₁) => (ExceptT.bindCont f x).run s₁) = _
  rw [first]
  rfl

theorem run_bind_of_error {c : ExceptT Fault (StateM S) α} {s s₁ : S} {fault : Fault}
    (first : c.run.run s = (.error fault, s₁)) (f : α → ExceptT Fault (StateM S) β) :
    (c >>= f).run.run s = (.error fault, s₁) := by
  show (match c.run.run s with | (x, s₁) => (ExceptT.bindCont f x).run s₁) = _
  rw [first]
  rfl

/-- A computation that in a scope, and in a state of the caller's, leaves both as they are. All it may use up are
identities of built-in members. -/
def Idle (c : Eval σ α) (scope : Scope) (caller : σ) : Prop :=
  ∀ fresh, ∃ fresh', (c.run.run ⟨⟨fresh, caller⟩, scope⟩).2 = ⟨⟨fresh', caller⟩, scope⟩

namespace Idle

variable {c : Eval σ α} {f : α → Eval σ β} {scope : Scope} {caller : σ}

theorem pure (a : α) : Idle (Pure.pure a : Eval σ α) scope caller := fun fresh => ⟨fresh, rfl⟩

theorem throw (fault : Fault) : Idle (MonadExcept.throw fault : Eval σ α) scope caller := fun fresh => ⟨fresh, rfl⟩

theorem bind (first : Idle c scope caller) (rest : ∀ a, Idle (f a) scope caller) : Idle (c >>= f) scope caller := by
  intro fresh
  obtain ⟨fresh₁, left⟩ := first fresh
  cases ran : c.run.run ⟨⟨fresh, caller⟩, scope⟩ with
  | mk x m =>
    rw [ran] at left
    subst left
    cases x with
    | error fault => exact ⟨fresh₁, by rw [run_bind_of_error ran]⟩
    | ok a =>
      rw [run_bind_of_ok ran]
      exact rest a fresh₁

theorem ite {condition : Prop} [Decidable condition] {d : Eval σ α} (hc : Idle c scope caller) (hd : Idle d scope caller) :
    Idle (if condition then c else d) scope caller := by
  split
  · exact hc
  · exact hd

end Idle

/-! ### Cells -/

namespace Scope

/-- The cell that a value of a name is written to: its own, or a new one. -/
def cellOf (scope : Scope) (name : String) : Nat :=
  match scope.pointers.find? name with
  | some i => if i < scope.stash.size then i else scope.stash.size
  | none => scope.stash.size

/-- To write a name leaves all names alone that do not lead to its cell. -/
theorem get?_set_other {scope : Scope} {name other : String} (ne : other ≠ name)
    (apart : scope.pointers.find? other ≠ some (scope.cellOf name)) (v : Value) :
    (scope.set name v).get? other = scope.get? other := by
  have declared (h : scope.cellOf name = scope.stash.size) : (scope.declare name v).get? other = scope.get? other := by
    simp only [get?, declare, Pointers.find?_insert_other ne]
    cases found : scope.pointers.find? other with
    | none => rfl
    | some i =>
      have new : i ≠ scope.stash.size := fun same => apart (found.trans (congrArg some (same.trans h.symm)))
      simp [Array.getElem?_push, new]
  unfold set
  split
  · next i known =>
    split
    · next inside =>
      have cell : scope.cellOf name = i := by simp [cellOf, known, inside]
      simp only [get?]
      cases found : scope.pointers.find? other with
      | none => rfl
      | some j =>
        have other : i ≠ j := fun same => apart (found.trans (congrArg some (same.symm.trans cell.symm)))
        simp [Array.getElem?_setIfInBounds_ne other]
    · next outside => exact declared (by simp [cellOf, known, outside])
  · next unknown => exact declared (by simp [cellOf, unknown])

/-- In a sound scope no other name leads to the cell of a name. -/
theorem Sound.apart_cellOf {scope : Scope} (sound : scope.Sound) {name other : String} (ne : other ≠ name) :
    scope.pointers.find? other ≠ some (scope.cellOf name) := by
  intro found
  have inside := sound.there other _ found
  unfold cellOf at found inside
  split at found
  · next i known =>
    rw [if_pos (sound.there name i known)] at found
    exact ne (sound.apart other name i found known)
  · next unknown =>
    rw [unknown] at inside
    exact Nat.lt_irrefl _ inside

end Scope

/-- The value that a name stands for. -/
def Machine.valueOf (host : Host σ) (m : Machine σ) (name : String) : Value :=
  if name = nowName then .date (host.now m.host) else (m.scope.get? name).getD .undefined

namespace Expr

open Value

/-- The variable and the keys of a target; `none` if it names no place. -/
def path? : Expr → Option (String × List Key)
  | identifier _ name => some (name, [])
  | member _ base key false => (path? base).map fun place => (place.1, place.2 ++ [key])
  | _ => none

/-- The values of keys, one after the other. -/
def evalKeys (vars : Variables σ) (host : Host σ) : List Key → Eval σ (List Value)
  | [] => return []
  | key :: r => do
    let k ← evalKey vars host key
    return k :: (← evalKeys vars host r)

section Keys

variable (vars : Variables σ) (host : Host σ)

theorem evalKeys_concat (keys : List Key) (key : Key) : evalKeys vars host (keys ++ [key]) = do
    let path ← evalKeys vars host keys
    return path ++ [← evalKey vars host key] := by
  induction keys with
  | nil => simp [evalKeys]
  | cons first r ih => simp [evalKeys, ih]

/-- The place of a target is found by evaluating its keys. -/
theorem place?_eq_evalKeys : ∀ {target : Expr} {root : String} {keys : List Key}, target.path? = some (root, keys) →
    place? vars host target = do return some (root, ← evalKeys vars host keys)
  | identifier _ name, _, _, named => by
    cases named
    simp [place?, evalKeys]
  | member _ base key false, root, keys, named => by
    obtain ⟨⟨_, before⟩, path, same⟩ := Option.map_eq_some_iff.mp named
    cases same
    unfold place?
    rw [place?_eq_evalKeys path, evalKeys_concat]
    simp
  | member _ _ _ true, _, _, named | literal .., _, _, named | array .., _, _, named | object .., _, _, named
  | sequence .., _, _, named | unary .., _, _, named | binary .., _, _, named | logical .., _, _, named
  | conditional .., _, _, named | assignment .., _, _, named | update .., _, _, named | call .., _, _, named
  | chain .., _, _, named => nomatch named

/-- Keys that change nothing change nothing together. -/
theorem idle_evalKeys {keys : List Key} {scope : Scope} {caller : σ}
    (still : ∀ key ∈ keys, Idle (evalKey vars host key) scope caller) : Idle (evalKeys vars host keys) scope caller := by
  induction keys with
  | nil => exact .pure _
  | cons key r ih =>
    obtain ⟨first, later⟩ := List.forall_mem_cons.mp still
    exact first.bind fun _ => (ih later).bind fun _ => .pure _

end Keys

/-! ### Reading a target -/

/-- Keys lead from a value to another: each of them is evaluated once, and names a member of the value come to before. -/
inductive Leads (host : Host σ) : Machine σ → Value → List Key → List Value → Value → Machine σ → Prop
  | here (m : Machine σ) (v : Value) : Leads host m v [] [] v m
  | next {m m₁ n : Machine σ} {v k w x : Value} {key : Key} {keys : List Key} {path : List Value}
      (named : (evalKey .inScope host key).run.run m = (.ok k, m₁)) (there : v.getMember? m₁.fresh k = some w)
      (rest : Leads host { m₁ with fresh := m₁.fresh + 1 } w keys path x n) :
      Leads host m v (key :: keys) (k :: path) x n

section Reading

variable {host : Host σ} {m m₁ n : Machine σ} {v w x k : Value} {key : Key} {keys : List Key} {path : List Value}

theorem Leads.concat (h : Leads host m v keys path w m₁) (named : (evalKey .inScope host key).run.run m₁ = (.ok k, n))
    (there : w.getMember? n.fresh k = some x) :
    Leads host m v (keys ++ [key]) (path ++ [k]) x { n with fresh := n.fresh + 1 } := by
  induction h with
  | here => exact .next named there (.here ..)
  | next named' there' _ ih => exact .next named' there' (ih named there)

theorem Leads.of_concat (h : Leads host m v (keys ++ [key]) path x n) : ∃ path' w m₁ k m₂,
    Leads host m v keys path' w m₁ ∧ (evalKey .inScope host key).run.run m₁ = (.ok k, m₂) ∧
      w.getMember? m₂.fresh k = some x ∧ n = { m₂ with fresh := m₂.fresh + 1 } ∧ path = path' ++ [k] := by
  induction keys generalizing m v path with
  | nil =>
    cases h with
    | next named there rest =>
      cases rest
      exact ⟨[], v, m, _, _, .here .., named, there, rfl, rfl⟩
  | cons first r ih =>
    cases h with
    | next named there rest =>
      obtain ⟨path', w, m₁, k, m₂, before, named', there', rfl, rfl⟩ := ih rest
      exact ⟨_, w, m₁, k, m₂, .next named there before, named', there', rfl, rfl⟩

/-- What is read is what is at the place, if the keys name one. -/
theorem Leads.at?_eq (h : Leads host m v keys path w n) {p : List Step} (named : v.place? path = some p) :
    v.at? p = some w := by
  induction h generalizing p with
  | here =>
    cases named
    rfl
  | next _ there _ ih =>
    obtain ⟨s, x, r, step, child, rest, rfl⟩ := place?_cons_eq_some_iff.mp named
    cases (getMember?_eq step child _).symm.trans there
    simpa [at?, child] using ih rest

theorem run_get? (name : String) (m : Machine σ) :
    (Variables.inScope.get? name).run.run m = (.ok (m.scope.get? name), m) := rfl

theorem run_readName (host : Host σ) (m : Machine σ) (name : String) :
    (readName .inScope host name).run.run m = (.ok (m.valueOf host name), m) := by
  unfold readName Machine.valueOf
  split <;> rfl

theorem run_readMember? (object key : Value) (m : Machine σ) :
    (readMember? object key : Eval σ _).run.run m = (.ok (object.getMember? m.fresh key), { m with fresh := m.fresh + 1 }) :=
  rfl

theorem eval_eq_ok_iff {e : Expr} {v : Value} :
    (eval host e).run.run m = (.ok v, n) ↔ ∃ r, (link .inScope host e).run.run m = (.ok r, n) ∧ settled r = v := by
  unfold eval evalWith
  rw [run_bind_eq_ok]
  constructor
  · rintro ⟨r, m₁, ran, last⟩
    cases last
    exact ⟨r, ran, rfl⟩
  · rintro ⟨r, ran, rfl⟩
    exact ⟨r, n, ran, rfl⟩

/-- **To read a target is to go where its keys lead.** -/
theorem link_target_eq_ok_iff : ∀ {target : Expr} {root : String} {keys : List Key} {r : Option Value} {n : Machine σ},
    target.path? = some (root, keys) → ((link .inScope host target).run.run m = (.ok r, n) ↔
      ∃ path w, Leads host m (m.valueOf host root) keys path w n ∧ r = some w)
  | identifier _ name, root, keys, r, n, named => by
    cases named
    unfold link
    rw [run_bind_of_ok (run_readName ..)]
    constructor
    · intro ran
      cases ran
      exact ⟨[], _, .here .., rfl⟩
    · rintro ⟨path, w, leads, rfl⟩
      cases leads
      rfl
  | member span base key false, root, keys, r, n, named => by
    obtain ⟨⟨_, before⟩, path, same⟩ := Option.map_eq_some_iff.mp named
    cases same
    unfold link
    constructor
    · intro ran
      obtain ⟨found, m₁, first, ran⟩ := run_bind_eq_ok.mp ran
      obtain ⟨path', w, leads, rfl⟩ := (link_target_eq_ok_iff path).mp first
      obtain ⟨k, m₂, named, ran⟩ := run_bind_eq_ok.mp ran
      rw [run_bind_of_ok (run_readMember? ..)] at ran
      cases there : w.getMember? m₂.fresh k with
      | none => rw [there] at ran; cases ran
      | some x =>
        rw [there] at ran
        cases ran
        exact ⟨_, x, leads.concat named there, rfl⟩
    · rintro ⟨path', w, leads, rfl⟩
      obtain ⟨path'', w', m₁, k, m₂, before, named, there, rfl, -⟩ := leads.of_concat
      rw [run_bind_of_ok ((link_target_eq_ok_iff path).mpr ⟨path'', w', before, rfl⟩)]
      dsimp only
      rw [Bool.false_and, if_neg Bool.false_ne_true, run_bind_of_ok named, run_bind_of_ok (run_readMember? ..), there]
      rfl
  | member _ _ _ true, _, _, _, _, named | literal .., _, _, _, _, named | array .., _, _, _, _, named
  | object .., _, _, _, _, named | sequence .., _, _, _, _, named | unary .., _, _, _, _, named
  | binary .., _, _, _, _, named | logical .., _, _, _, _, named | conditional .., _, _, _, _, named
  | assignment .., _, _, _, _, named | update .., _, _, _, _, named | call .., _, _, _, _, named
  | chain .., _, _, _, _, named => nomatch named

theorem eval_target_eq_ok_iff {target : Expr} {root : String} (names : target.path? = some (root, keys)) :
    (eval host target).run.run m = (.ok w, n) ↔ ∃ path, Leads host m (m.valueOf host root) keys path w n := by
  rw [eval_eq_ok_iff]
  constructor
  · rintro ⟨r, ran, given⟩
    obtain ⟨path, x, leads, rfl⟩ := (link_target_eq_ok_iff names).mp ran
    cases given
    exact ⟨path, leads⟩
  · rintro ⟨path, leads⟩
    exact ⟨some w, (link_target_eq_ok_iff names).mpr ⟨path, w, leads, rfl⟩, rfl⟩

end Reading

/-! ### Writing to a target -/

section Writing

variable {host : Host σ} {m n : Machine σ} {target : Expr} {root : String} {path : List Value} {old new : Value}
  {compute : Value → Except Fault Value}

/-- A target is written anew if the variable is known and the place is there. -/
theorem modifyPlace_eq_ok_iff : (modifyPlace .inScope target root path compute).run.run m = (.ok (old, new), n) ↔
    ∃ v p, m.scope.get? root = some v ∧ v.place? path = some p ∧ v.at? p = some old ∧ compute old = .ok new ∧
      n = { m with scope := m.scope.set root (put new v p) } := by
  unfold modifyPlace
  rw [run_bind_of_ok (run_get? ..)]
  cases m.scope.get? root with
  | none => exact ⟨nofun, nofun⟩
  | some v =>
    dsimp only
    constructor
    · intro ran
      split at ran
      · cases ran
      · next old' new' v' written =>
        cases ran
        obtain ⟨p, named, there, given, rfl⟩ := writeAt_eq_ok_iff.mp written
        exact ⟨v, p, rfl, named, there, given, rfl⟩
    · rintro ⟨v, p, ⟨⟩, named, there, given, rfl⟩
      rw [writeAt_eq_ok_iff.mpr ⟨p, named, there, given, rfl⟩]
      rfl

/-- A write that fails has changed nothing. -/
theorem eq_of_modifyPlace_error {fault : Fault}
    (ran : (modifyPlace .inScope target root path compute).run.run m = (.error fault, n)) : n = m := by
  unfold modifyPlace at ran
  rw [run_bind_of_ok (run_get? ..)] at ran
  split at ran
  · cases ran
    rfl
  · dsimp only at ran
    split at ran <;> cases ran
    rfl

theorem writePlace_eq_ok_iff : (writePlace .inScope target (some (root, path)) new).run.run m = (.ok (), n) ↔
    ∃ v p, m.scope.get? root = some v ∧ v.place? path = some p ∧
      n = { m with scope := m.scope.set root (put new v p) } := by
  unfold writePlace
  dsimp only
  rw [run_bind_eq_ok]
  constructor
  · rintro ⟨⟨old, new'⟩, m₁, wrote, last⟩
    cases last
    obtain ⟨v, p, known, named, -, given, rfl⟩ := modifyPlace_eq_ok_iff.mp wrote
    cases given
    exact ⟨v, p, known, named, rfl⟩
  · rintro ⟨v, p, known, named, rfl⟩
    obtain ⟨old, there⟩ := exists_at?_of_place? named
    exact ⟨(old, new), _, modifyPlace_eq_ok_iff.mpr ⟨v, p, known, named, there, rfl, rfl⟩, rfl⟩

theorem eq_of_writePlace_error {fault : Fault}
    (ran : (writePlace .inScope target (some (root, path)) new).run.run m = (.error fault, n)) : n = m := by
  unfold writePlace at ran
  dsimp only at ran
  rcases Raises.run_bind_eq_error.mp ran with failed | ⟨_, _, -, ⟨⟩⟩
  exact eq_of_modifyPlace_error failed

end Writing
end Expr
end PromptScript
