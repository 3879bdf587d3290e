import PromptScript.Expr.Evaluation
import PromptScript.Proofs.Passes

/-! # What evaluations need to know

An expression needs the names that it may read before it has given them a value, and it surely gives a value to some
names. What may be skipped gives nothing. Two evaluations that know the names an expression needs, and know the same
of them, do the same (`coupled_link`), whatever names are and wherever they are kept. -/
namespace PromptScript

/-- The names that a piece of code needs, and those it surely gives a value. -/
structure Uses where
  /-- Names that may be read before they are given a value. -/
  needs : List String
  /-- Names that have a value afterwards. -/
  gives : List String

namespace Uses

def none : Uses := ⟨[], []⟩

def read (name : String) : Uses := ⟨[name], []⟩

def write (name : String) : Uses := ⟨[], [name]⟩

/-- One piece after the other. -/
def next (u v : Uses) : Uses := ⟨u.needs ++ v.needs.filter (· ∉ u.gives), u.gives ++ v.gives⟩

/-- A piece that may be skipped. -/
def maybe (u : Uses) : Uses := ⟨u.needs, []⟩

/-- Either of two pieces. -/
def either (u v : Uses) : Uses := ⟨u.needs ++ v.needs, u.gives.filter (· ∈ v.gives)⟩

/-- A piece of which less is said: it may need more and give less. -/
structure Le (u v : Uses) : Prop where
  needs : ∀ x ∈ u.needs, x ∈ v.needs
  gives : ∀ x ∈ v.gives, x ∈ u.gives

theorem none_le_maybe (u : Uses) : none.Le u.maybe := ⟨nofun, nofun⟩

theorem le_maybe (u : Uses) : u.Le u.maybe := ⟨fun _ => id, nofun⟩

theorem le_either_left (u v : Uses) : u.Le (u.either v) :=
  ⟨fun _ h => List.mem_append_left _ h, fun _ h => (List.mem_filter.mp h).1⟩

theorem le_either_right (u v : Uses) : v.Le (u.either v) :=
  ⟨fun _ h => List.mem_append_right _ h, fun _ h => of_decide_eq_true (List.mem_filter.mp h).2⟩

theorem next_none_le (u : Uses) : (u.next none).Le u := by
  refine ⟨fun x h => ?_, fun x h => List.mem_append_left _ h⟩
  rcases List.mem_append.mp h with h | h
  · exact h
  · cases h

theorem none_next_le (u : Uses) : (none.next u).Le u :=
  ⟨fun _ h => (List.mem_filter.mp h).1, fun _ h => h⟩

end Uses

namespace Expr

/-- The variable that an assignment writes to, if its target names a place. -/
def root? : Expr → Option String
  | identifier _ name => some name
  | member _ base _ false => root? base
  | _ => none

/-- What an assignment does with the variable of its target: it needs its old value. -/
def usesOfRoot (target : Expr) : Uses :=
  match target.root? with
  | some name => (Uses.read name).next (.write name)
  | none => .none

/-- What is looked up before a target is combined with its old value. -/
def usesOfCheck : Expr → Uses
  | identifier _ name => .read name
  | _ => .none

mutual

/-- The names that an expression needs and gives. -/
def uses : Expr → Uses
  | literal _ _ => .none
  | identifier _ name => if name = nowName then .none else .read name
  | array _ items => usesOfItems items
  | object _ fields => usesOfFields fields
  | sequence _ items => usesOfItems items
  | unary _ _ e => uses e
  | binary _ _ a b => (uses a).next (uses b)
  | logical _ _ a b => (uses a).next (uses b).maybe
  | conditional _ test a b => (uses test).next ((uses a).either (uses b))
  | assignment _ op target value =>
    match op with
    | .assign =>
      match target with
      | identifier _ name => (uses value).next (.write name)
      | target => (uses value).next ((usesOfPlace target).next (usesOfRoot target))
    | .binary _ =>
      (usesOfCheck target).next ((uses target).next ((uses value).next
        ((usesOfPlace target).next (usesOfRoot target))))
    | .logical _ =>
      (usesOfCheck target).next ((uses target).next ((uses value).next
        ((usesOfPlace target).next (usesOfRoot target))).maybe)
  | update _ _ _ e => (usesOfPlace e).next (usesOfRoot e)
  | member _ base key _ => (uses base).next (usesOfKey key).maybe
  | call _ callee arguments _ => (uses callee).next (usesOfItems arguments).maybe
  | chain _ e => uses e

def usesOfItems : List Expr → Uses
  | [] => .none
  | e :: r => (uses e).next (usesOfItems r)

def usesOfFields : List (Key × Expr) → Uses
  | [] => .none
  | (key, e) :: r => (usesOfKey key).next ((uses e).next (usesOfFields r))

def usesOfKey : Key → Uses
  | .named _ => .none
  | .computed e => uses e

/-- What is evaluated to find the place that a target names. -/
def usesOfPlace : Expr → Uses
  | identifier _ _ => .none
  | member _ base key false => (usesOfPlace base).next (usesOfKey key).maybe
  | _ => .none

end

end Expr

/-! ## Evaluations that agree on names -/

/-- Names on whose values two evaluations agree. -/
abbrev Known := String → Prop

/-- More names. -/
def Known.and (known : Known) (names : List String) : Known := fun x => known x ∨ x ∈ names

namespace Uses

variable {known : Known} {u v : Uses}

/-- What the first piece needs is known. -/
theorem met_left (all : ∀ x ∈ (u.next v).needs, known x) : ∀ x ∈ u.needs, known x :=
  fun x need => all x (List.mem_append_left _ need)

/-- What the second piece needs is known once the first has given what it gives. -/
theorem met_right (all : ∀ x ∈ (u.next v).needs, known x) : ∀ x ∈ v.needs, known.and u.gives x := by
  intro x need
  by_cases given : x ∈ u.gives
  · exact .inr given
  · exact .inl (all x (List.mem_append_right _ (List.mem_filter.mpr ⟨need, decide_eq_true given⟩)))

/-- After both pieces there is what both give. -/
theorem known_of_next {x : String} (h : known.and (u.next v).gives x) : (known.and u.gives).and v.gives x := by
  rcases h with here | given
  · exact .inl (.inl here)
  · rcases List.mem_append.mp given with given | given
    · exact .inl (.inr given)
    · exact .inr given

end Uses

section Coupled

variable {S T α β : Type}

/-- A relation between states that tells on which names two computations agree. To agree on fewer names is to ask
less, and whatever they agree on, a fault may end both. -/
structure Lasting (fails : S → T → Prop) (agree : Known → S → T → Prop) : Prop where
  failed : ∀ {known s t}, agree known s t → fails s t
  fewer : ∀ {known known' : Known} {s t}, (∀ x, known' x → known x) → agree known s t → agree known' s t

/-- Two computations that need and give some names do the same where these are known, and agree on more names then. -/
def Coupled (fails : S → T → Prop) (agree : Known → S → T → Prop) (u : Uses) (c : ExceptT Fault (StateM S) α)
    (d : ExceptT Fault (StateM T) α) : Prop :=
  ∀ known : Known, (∀ x ∈ u.needs, known x) →
    Abreast fails (agree known) c d fun a b s t => a = b ∧ agree (known.and u.gives) s t

/-- All values that a computation may give are good. -/
def Yields (good : α → Prop) (c : ExceptT Fault (StateM S) α) : Prop := ∀ s a s', c.run.run s = (.ok a, s') → good a

theorem Yields.bind {good : α → Prop} {fine : β → Prop} {c : ExceptT Fault (StateM S) α}
    {f : α → ExceptT Fault (StateM S) β} (first : Yields good c) (rest : ∀ a, good a → Yields fine (f a)) :
    Yields fine (c >>= f) := by
  intro s b s' ran
  have ran : (match c.run.run s with | (x, s₁) => (ExceptT.bindCont f x).run s₁) = (.ok b, s') := ran
  cases first' : c.run.run s with
  | mk x s₁ =>
    rw [first'] at ran
    cases x with
    | error fault => cases ran
    | ok a => exact rest a (first s a s₁ first') s₁ b s' ran

theorem yields_pure {good : α → Prop} {a : α} (h : good a) : Yields good (pure a : ExceptT Fault (StateM S) α) := by
  intro s b s' ran
  cases ran
  exact h

namespace Lasting

variable {fails : S → T → Prop} {agree : Known → S → T → Prop} {u v : Uses} {c : ExceptT Fault (StateM S) α}
  {d : ExceptT Fault (StateM T) α} (bond : Lasting fails agree)
include bond

theorem le (h : Coupled fails agree u c d) (less : u.Le v) : Coupled fails agree v c d := by
  intro known all
  refine (h known fun x need => all x (less.needs x need)).mono fun a b s t here => ⟨here.1, ?_⟩
  refine bond.fewer (fun x given => ?_) here.2
  rcases given with given | given
  · exact .inl given
  · exact .inr (less.gives x given)

/-- What changes nothing that the relation sees needs and gives nothing. -/
theorem none (h : ∀ known, Abreast fails (agree known) c d fun a b s t => a = b ∧ agree known s t) :
    Coupled fails agree .none c d :=
  fun known _ => (h known).mono fun _ _ _ _ here =>
    ⟨here.1, bond.fewer (fun _ given => given.elim id nofun) here.2⟩

theorem pure (a : α) : Coupled fails agree .none (Pure.pure a : ExceptT Fault (StateM S) α)
    (Pure.pure a : ExceptT Fault (StateM T) α) :=
  bond.none fun _ => .pure fun _ _ here => ⟨rfl, here⟩

theorem throw (fault : Fault) : Coupled fails agree u (MonadExcept.throw fault : ExceptT Fault (StateM S) α)
    (MonadExcept.throw fault : ExceptT Fault (StateM T) α) :=
  fun _ _ => .throw fun _ _ here => bond.failed here

/-- A piece of which only good values have to be followed. -/
theorem bind_of_yields {good : α → Prop} {f : α → ExceptT Fault (StateM S) β} {g : α → ExceptT Fault (StateM T) β}
    (first : Coupled fails agree u c d) (fine : Yields good c)
    (rest : ∀ a, good a → Coupled fails agree v (f a) (g a)) :
    Coupled fails agree (u.next v) (c >>= f) (d >>= g) := by
  intro known all
  refine ((first known (Uses.met_left all)).of_yields fine).bind fun a b => ?_
  refine .of_fact fun good => .of_fact fun same => ?_
  subst same
  -- What the first gives need not be known before.
  refine (rest a good (known.and u.gives) (Uses.met_right all)).mono fun a b s t here => ⟨here.1, ?_⟩
  exact bond.fewer (fun x => Uses.known_of_next) here.2

theorem bind {f : α → ExceptT Fault (StateM S) β} {g : α → ExceptT Fault (StateM T) β}
    (first : Coupled fails agree u c d) (rest : ∀ a, Coupled fails agree v (f a) (g a)) :
    Coupled fails agree (u.next v) (c >>= f) (d >>= g) :=
  bond.bind_of_yields first (fun _ _ _ _ => trivial) fun a _ => rest a

/-- What is made of a value by the way needs nothing. -/
theorem map (f : α → β) (h : Coupled fails agree u c d) :
    Coupled fails agree u (c >>= fun a => Pure.pure (f a)) (d >>= fun a => Pure.pure (f a)) :=
  bond.le (bond.bind h fun _ => bond.pure _) u.next_none_le

/-- A piece before which nothing is needed or given. -/
theorem before {f : α → ExceptT Fault (StateM S) β} {g : α → ExceptT Fault (StateM T) β}
    (first : Coupled fails agree .none c d) (rest : ∀ a, Coupled fails agree u (f a) (g a)) :
    Coupled fails agree u (c >>= f) (d >>= g) :=
  bond.le (bond.bind first rest) u.none_next_le

end Lasting

/-- Two ways to keep variables that go together: to read a name on which they agree gives the same, after a name is
given a value they agree on it as well, and the caller and the clock tell no difference. -/
structure Agrees {σ τ : Type} (fails : Machine σ → Machine τ → Prop) (agree : Known → Machine σ → Machine τ → Prop)
    (vars : Variables σ) (host : Host σ) (vars' : Variables τ) (host' : Host τ) : Prop extends Lasting fails agree where
  get? : ∀ {known : Known} {name}, known name →
    Abreast fails (agree known) (vars.get? name) (vars'.get? name) fun v w m n => v = w ∧ agree known m n
  set : ∀ {known : Known} (name) (v : Value),
    Abreast fails (agree known) (vars.set name v) (vars'.set name v) fun _ _ => agree (known.and [name])
  call : ∀ {known m n} (identity : Nat) (args : List Value), agree known m n →
    (host.call identity args m.host).1 = (host'.call identity args n.host).1 ∧
      agree known { m with host := (host.call identity args m.host).2 }
        { n with host := (host'.call identity args n.host).2 }
  fresh : ∀ {known m n}, agree known m n → m.fresh = n.fresh ∧
    agree known { m with fresh := m.fresh + 1 } { n with fresh := n.fresh + 1 }
  now : ∀ {known m n}, agree known m n → host.now m.host = host'.now n.host

end Coupled
end PromptScript

/-! ## Evaluations side by side

Two evaluations of an expression that agree on the names it needs do the same, and agree then on the names it gives.
The proof follows the evaluation, one case for each kind of expression. -/
namespace PromptScript

variable {σ τ : Type} {fails : Machine σ → Machine τ → Prop} {agree : Known → Machine σ → Machine τ → Prop}
  {vars : Variables σ} {host : Host σ} {vars' : Variables τ} {host' : Host τ}

/-! ### Names, members and calls -/

section Parts

variable (bond : Agrees fails agree vars host vars' host')
include bond

theorem coupled_get (name : String) : Coupled fails agree (.read name) (vars.get? name) (vars'.get? name) :=
  fun _ known => (bond.get? (known name List.mem_cons_self)).mono fun _ _ _ _ here =>
    ⟨here.1, bond.fewer (fun _ given => given.elim id nofun) here.2⟩

theorem coupled_set (name : String) (v : Value) :
    Coupled fails agree (.write name) (vars.set name v) (vars'.set name v) :=
  fun _ _ => (bond.set name v).mono fun _ _ _ _ here => ⟨rfl, here⟩

theorem coupled_readName (name : String) : Coupled fails agree (if name = nowName then .none else .read name)
    (Expr.readName vars host name) (Expr.readName vars' host' name) := by
  unfold Expr.readName
  by_cases now : name = nowName
  · rw [if_pos now, if_pos now, if_pos now]
    refine bond.none fun known => Abreast.get.bind fun m n => .pure fun s t ⟨first, second, here⟩ => ?_
    subst first second
    rw [bond.now here]
    exact ⟨rfl, here⟩
  · rw [if_neg now, if_neg now, if_neg now]
    exact bond.map _ (coupled_get bond name)

theorem coupled_readMember? (object key : Value) :
    Coupled fails agree .none (Expr.readMember? object key) (Expr.readMember? object key) := by
  refine bond.none fun known => Abreast.get.bind fun m n => ?_
  intro s t ⟨first, second, here⟩
  subst first second
  obtain ⟨same, here⟩ := bond.fresh here
  refine .ok ⟨?_, here⟩
  rw [same]

theorem coupled_callFunction? (function : Value) (args : List Value) :
    Coupled fails agree .none (Expr.callFunction? host function args) (Expr.callFunction? host' function args) := by
  unfold Expr.callFunction?
  split
  · next identity =>
    refine bond.none fun known => Abreast.get.bind fun m n => ?_
    intro s t ⟨first, second, here⟩
    subst first second
    obtain ⟨same, here⟩ := bond.call identity args here
    refine .ok ⟨?_, here⟩
    rw [same]
  · exact bond.pure _
  · exact bond.pure _

theorem coupled_checkDeclared (target : Expr) :
    Coupled fails agree (Expr.usesOfCheck target) (Expr.checkDeclared vars target) (Expr.checkDeclared vars' target) := by
  cases target with
  | identifier span name =>
    refine bond.le (bond.bind (coupled_get bond name) (v := .none) fun v => ?_) (Uses.next_none_le _)
    split
    · exact bond.pure _
    · exact bond.throw _
  | _ => exact bond.pure _

theorem coupled_modifyPlace (target : Expr) (root : String) (path : List Value)
    (compute : Value → Except Fault Value) : Coupled fails agree ((Uses.read root).next (.write root))
      (Expr.modifyPlace vars target root path compute) (Expr.modifyPlace vars' target root path compute) := by
  refine bond.bind (coupled_get bond root) fun v => ?_
  cases v with
  | none => exact bond.throw _
  | some value =>
    dsimp only
    split
    · exact bond.throw _
    · exact bond.map _ (coupled_set bond root _)

/-- What is written to a place that a target names. -/
theorem coupled_writePlace (target : Expr) (v : Value) (place : Option (String × List Value))
    (root : place.map Prod.fst = target.root?) : Coupled fails agree (Expr.usesOfRoot target)
      (Expr.writePlace vars target place v) (Expr.writePlace vars' target place v) := by
  unfold Expr.usesOfRoot
  rw [← root]
  cases place with
  | none => exact bond.pure _
  | some place => exact bond.map _ (coupled_modifyPlace bond target place.1 place.2 _)

end Parts

/-! ### Places -/

/-- The variable of the place that is found is the root of the target. -/
theorem yields_place? : ∀ target : Expr, Yields (fun place => place.map Prod.fst = target.root?)
    (Expr.place? vars host target)
  | .identifier _ name => by
    unfold Expr.place?
    exact yields_pure rfl
  | .member _ base key false => by
    unfold Expr.place? Expr.root?
    refine (yields_place? base).bind fun place root => ?_
    cases place with
    | none => exact yields_pure root
    | some place =>
      -- The key that is found does not matter.
      have any : Yields (fun _ => True) (Expr.evalKey vars host key) := fun _ _ _ _ => trivial
      exact any.bind fun name _ => yields_pure root
  | .member _ base key true => by
    unfold Expr.place?
    exact yields_pure rfl
  | .literal .. | .array .. | .object .. | .sequence .. | .unary .. | .binary .. | .logical .. | .assignment ..
  | .update .. | .conditional .. | .call .. | .chain .. => by
    unfold Expr.place?
    exact yields_pure rfl

section Link

variable (bond : Agrees fails agree vars host vars' host')
include bond

/-- What follows the value of an assignment: the place of its target is found and written to. -/
theorem coupled_write {target : Expr}
    (place : Coupled fails agree target.usesOfPlace (Expr.place? vars host target) (Expr.place? vars' host' target))
    (v : Value) : Coupled fails agree (target.usesOfPlace.next (Expr.usesOfRoot target))
      (do Expr.writePlace vars target (← Expr.place? vars host target) v; return some v)
      (do Expr.writePlace vars' target (← Expr.place? vars' host' target) v; return some v) :=
  bond.bind_of_yields place (yields_place? target) fun _ root => bond.map _ (coupled_writePlace bond target v _ root)

mutual

/-- **Evaluations that agree on the names an expression needs do the same.** -/
theorem coupled_link : ∀ e : Expr, Coupled fails agree e.uses (Expr.link vars host e) (Expr.link vars' host' e)
  | .literal _ _ => by
    unfold Expr.link Expr.uses
    exact bond.pure _
  | .identifier _ name => by
    unfold Expr.link Expr.uses
    exact bond.map _ (coupled_readName bond name)
  | .array _ items => by
    unfold Expr.link Expr.uses
    exact bond.map _ (coupled_evalItems items)
  | .object _ fields => by
    unfold Expr.link Expr.uses
    exact bond.map _ (coupled_evalFields fields [])
  | .sequence _ items => by
    unfold Expr.link Expr.uses
    exact bond.map _ (coupled_evalLast items .undefined)
  | .unary _ op e => by
    unfold Expr.link Expr.uses
    exact bond.map _ (coupled_link e)
  | .binary _ op a b => by
    unfold Expr.link Expr.uses
    exact bond.bind (coupled_link a) fun _ => bond.map _ (coupled_link b)
  | .logical _ op a b => by
    unfold Expr.link Expr.uses
    refine bond.bind (coupled_link a) fun left => ?_
    dsimp only
    split
    · exact bond.le (bond.pure _) (Uses.none_le_maybe _)
    · exact bond.le (bond.map _ (coupled_link b)) (Uses.le_maybe _)
  | .conditional _ test a b => by
    unfold Expr.link Expr.uses
    refine bond.bind (coupled_link test) fun holds => ?_
    split
    · exact bond.le (bond.map _ (coupled_link a)) (Uses.le_either_left _ _)
    · exact bond.le (bond.map _ (coupled_link b)) (Uses.le_either_right _ _)
  | .assignment _ op target value => by
    have place := coupled_place? target
    have target' := coupled_link target
    have value' := coupled_link value
    cases op with
    | assign =>
      unfold Expr.link Expr.uses
      cases target with
      | identifier _ name => exact bond.bind value' fun v => bond.map _ (coupled_set bond name _)
      | _ => exact bond.bind value' fun v => coupled_write bond place _
    | binary op =>
      unfold Expr.link Expr.uses
      exact bond.bind (coupled_checkDeclared bond target) fun _ => bond.bind target' fun current =>
        bond.bind value' fun v => coupled_write bond place _
    | logical op =>
      unfold Expr.link Expr.uses
      refine bond.bind (coupled_checkDeclared bond target) fun _ => bond.bind target' fun current => ?_
      dsimp only
      split
      · exact bond.le (bond.pure _) (Uses.none_le_maybe _)
      · exact bond.le (bond.bind value' fun v => coupled_write bond place _) (Uses.le_maybe _)
  | .update _ op before e => by
    unfold Expr.link Expr.uses
    refine bond.bind_of_yields (coupled_place? e) (yields_place? e) fun place root => ?_
    unfold Expr.usesOfRoot
    rw [← root]
    cases place with
    | none => exact bond.throw _
    | some place => exact bond.map _ (coupled_modifyPlace bond e place.1 place.2 _)
  | .member span base key optional => by
    unfold Expr.link Expr.uses
    refine bond.bind (coupled_link base) fun found => ?_
    cases found with
    | none => exact bond.le (bond.pure _) (Uses.none_le_maybe _)
    | some object =>
      dsimp only
      split
      · exact bond.le (bond.pure _) (Uses.none_le_maybe _)
      · refine bond.le (bond.bind (coupled_evalKey key) (v := .none) fun name => ?_)
          ⟨(Uses.next_none_le _).needs, nofun⟩
        refine bond.le (bond.bind (coupled_readMember? bond object name) (v := .none) fun v => ?_) (Uses.next_none_le _)
        cases v with
        | none => exact bond.throw _
        | some v => exact bond.pure _
  | .call span callee arguments optional => by
    unfold Expr.link Expr.uses
    refine bond.bind (coupled_link callee) fun found => ?_
    cases found with
    | none => exact bond.le (bond.pure _) (Uses.none_le_maybe _)
    | some function =>
      dsimp only
      split
      · exact bond.le (bond.pure _) (Uses.none_le_maybe _)
      · refine bond.le (bond.bind (coupled_evalItems arguments) (v := .none) fun args => ?_)
          ⟨(Uses.next_none_le _).needs, nofun⟩
        refine bond.le (bond.bind (coupled_callFunction? bond function args) (v := .none) fun answer => ?_)
          (Uses.next_none_le _)
        split
        · exact bond.throw _
        · exact bond.throw _
        · exact bond.pure _
  | .chain _ e => by
    unfold Expr.link Expr.uses
    exact bond.map _ (coupled_link e)

theorem coupled_evalItems : ∀ es : List Expr,
    Coupled fails agree (Expr.usesOfItems es) (Expr.evalItems vars host es) (Expr.evalItems vars' host' es)
  | [] => by
    unfold Expr.evalItems Expr.usesOfItems
    exact bond.pure _
  | e :: r => by
    unfold Expr.evalItems Expr.usesOfItems
    exact bond.bind (coupled_link e) fun _ => bond.map _ (coupled_evalItems r)

theorem coupled_evalLast : ∀ (es : List Expr) (last : Value),
    Coupled fails agree (Expr.usesOfItems es) (Expr.evalLast vars host es last) (Expr.evalLast vars' host' es last)
  | [], _ => by
    unfold Expr.evalLast Expr.usesOfItems
    exact bond.pure _
  | e :: r, _ => by
    unfold Expr.evalLast Expr.usesOfItems
    exact bond.bind (coupled_link e) fun _ => coupled_evalLast r _

theorem coupled_evalFields : ∀ (fields : List (Key × Expr)) (acc : List (String × Value)),
    Coupled fails agree (Expr.usesOfFields fields) (Expr.evalFields vars host fields acc)
      (Expr.evalFields vars' host' fields acc)
  | [], _ => by
    unfold Expr.evalFields Expr.usesOfFields
    exact bond.pure _
  | (key, e) :: r, _ => by
    unfold Expr.evalFields Expr.usesOfFields
    exact bond.bind (coupled_evalKey key) fun _ => bond.bind (coupled_link e) fun _ => coupled_evalFields r _

theorem coupled_evalKey : ∀ key : Key,
    Coupled fails agree (Expr.usesOfKey key) (Expr.evalKey vars host key) (Expr.evalKey vars' host' key)
  | .named _ => by
    unfold Expr.evalKey Expr.usesOfKey
    exact bond.pure _
  | .computed e => by
    unfold Expr.evalKey Expr.usesOfKey
    exact bond.map _ (coupled_link e)

theorem coupled_place? : ∀ target : Expr,
    Coupled fails agree target.usesOfPlace (Expr.place? vars host target) (Expr.place? vars' host' target)
  | .identifier _ _ => by
    unfold Expr.place? Expr.usesOfPlace
    exact bond.pure _
  | .member _ base key false => by
    unfold Expr.place? Expr.usesOfPlace
    refine bond.bind (coupled_place? base) fun place => ?_
    cases place with
    | none => exact bond.le (bond.pure _) (Uses.none_le_maybe _)
    | some place => exact bond.le (bond.map _ (coupled_evalKey key)) (Uses.le_maybe _)
  | .member _ base key true => by
    unfold Expr.place? Expr.usesOfPlace
    exact bond.pure _
  | .literal .. | .array .. | .object .. | .sequence .. | .unary .. | .binary .. | .logical .. | .assignment ..
  | .update .. | .conditional .. | .call .. | .chain .. => by
    unfold Expr.place? Expr.usesOfPlace
    exact bond.pure _

end

theorem coupled_evalWith (e : Expr) :
    Coupled fails agree e.uses (Expr.evalWith vars host e) (Expr.evalWith vars' host' e) :=
  bond.map _ (coupled_link bond e)

end Link
end PromptScript
