import PromptScript.Proofs.Identities
import PromptScript.Proofs.Passes
import PromptScript.Proofs.Stored

/-! # Evaluations with other identities

Two evaluations of one expression, on machines that differ in nothing but the identities of built-in members: they do
the same, and the machines go on to differ so. `Moves` is the judgement: it carries a bound that all identities met so
far lie below, so that a member that is read afterwards is new on both sides. -/
namespace PromptScript

variable {σ : Type}

/-- A caller without a memory of its calls, whose functions do not look at identities, but for those below a bound. -/
structure Host.Stateless (host : Host σ) (bound : Nat) : Prop where
  stays : ∀ identity args s, (host.call identity args s).2 = s
  natural : ∀ f : Nat → Nat, Function.Injective f → (∀ i < bound, f i = i) → ∀ identity args s,
    (host.call identity (renamed f args) s).1 = renamed f (host.call identity args s).1

/-- What a second run has in place of a first: other identities from a bound on, and the same state of the caller. -/
structure Renaming (σ : Type) (bound : Nat) where
  map : Nat → Nat
  one : Function.Injective map
  fixed : ∀ i < bound, map i = i
  home : σ

/-! ## The judgement -/

/-- Two computations do the same, but for identities: from states that are `moved`, with identities from `low` on to
give, both give the same value with other identities, all of which are given by then. -/
def Moves {S α : Type} [Renamable α] (fresh : S → Nat) (moved : S → S → Prop) (f : Nat → Nat) (low : Nat)
    (c d : ExceptT Fault (StateM S) α) : Prop :=
  Abreast (fun s t => low ≤ fresh s ∧ moved s t) (fun s t => low ≤ fresh s ∧ moved s t) c d fun a b s t =>
    (low ≤ fresh s ∧ moved s t) ∧ b = renamed f a ∧ Under (fresh s) a

namespace Moves

variable {S α β : Type} [Renamable α] [Renamable β] {fresh : S → Nat} {moved : S → S → Prop} {f : Nat → Nat} {low : Nat}
  {c d : ExceptT Fault (StateM S) α}

theorem pure {a b : α} (same : b = renamed f a) (under : Under low a) :
    Moves fresh moved f low (Pure.pure a) (Pure.pure b) :=
  Abreast.pure fun _ _ here => ⟨here, same, under.mono here.1⟩

theorem throw (fault : Fault) : Moves fresh moved f low (MonadExcept.throw fault : ExceptT Fault (StateM S) α)
    (MonadExcept.throw fault) :=
  Abreast.throw fun _ _ here => here

theorem bind {k l : α → ExceptT Fault (StateM S) β} (first : Moves fresh moved f low c d)
    (rest : ∀ more, low ≤ more → ∀ a, Under more a → Moves fresh moved f more (k a) (l (renamed f a))) :
    Moves fresh moved f low (c >>= k) (d >>= l) := by
  refine Abreast.bind first fun a b s t ⟨⟨le, here⟩, same, under⟩ => ?_
  subst same
  have later := rest (fresh s) le a under s t ⟨Nat.le_refl _, here⟩
  generalize (k a).run.run s = x at later ⊢
  generalize (l (renamed f a)).run.run t = y at later ⊢
  cases later with
  | ok h => exact .ok ⟨⟨Nat.le_trans le h.1.1, h.1.2⟩, h.2⟩
  | error h => exact .error ⟨Nat.le_trans le h.1, h.2⟩

/-- What is made of a value without looking at identities. -/
theorem map {k : α → β} (first : Moves fresh moved f low c d)
    (natural : ∀ g : Nat → Nat, Function.Injective g → ∀ a, renamed g (k a) = k (renamed g a))
    (one : Function.Injective f) :
    Moves fresh moved f low (do let a ← c; return k a) (do let b ← d; return k b) :=
  first.bind fun _ _ a under => .pure (natural f one a).symm (under.of_natural fun g one => natural g one a)

end Moves

/-- Two computations give one and the same value, from states that are `moved` and in such states. -/
def MovesSame {S α : Type} (fresh : S → Nat) (moved : S → S → Prop) (low : Nat) (c d : ExceptT Fault (StateM S) α) :
    Prop :=
  Abreast (fun s t => low ≤ fresh s ∧ moved s t) (fun s t => low ≤ fresh s ∧ moved s t) c d fun a b s t =>
    (low ≤ fresh s ∧ moved s t) ∧ a = b

namespace MovesSame

variable {S α β : Type} {fresh : S → Nat} {moved : S → S → Prop} {f : Nat → Nat} {low : Nat}
  {c d : ExceptT Fault (StateM S) α}

theorem pure (a : α) : MovesSame fresh moved low (Pure.pure a) (Pure.pure a) := Abreast.pure fun _ _ here => ⟨here, rfl⟩

theorem throw (fault : Fault) : MovesSame fresh moved low (MonadExcept.throw fault : ExceptT Fault (StateM S) α)
    (MonadExcept.throw fault) :=
  Abreast.throw fun _ _ here => here

theorem followed [Renamable β] {k l : α → ExceptT Fault (StateM S) β} (first : MovesSame fresh moved low c d)
    (rest : ∀ a, Moves fresh moved f low (k a) (l a)) : Moves fresh moved f low (c >>= k) (d >>= l) := by
  refine Abreast.bind first fun a b s t ⟨here, same⟩ => ?_
  subst same
  exact rest a s t here

theorem bind {k l : α → ExceptT Fault (StateM S) β} (first : MovesSame fresh moved low c d)
    (rest : ∀ a, MovesSame fresh moved low (k a) (l a)) : MovesSame fresh moved low (c >>= k) (d >>= l) := by
  refine Abreast.bind first fun a b s t ⟨here, same⟩ => ?_
  subst same
  exact rest a s t here

end MovesSame

/-! ## Scopes and machines -/

instance : Renamable Scope := ⟨fun f scope => ⟨renamed f scope.stash, scope.pointers⟩⟩

namespace Scope

variable {f : Nat → Nat}

theorem renamed_pointers (scope : Scope) : (renamed f scope).pointers = scope.pointers := rfl

theorem renamed_stash (scope : Scope) : (renamed f scope).stash = scope.stash.map (renamed f) := rfl

theorem get?_renamed (scope : Scope) (name : String) : (renamed f scope).get? name = renamed f (scope.get? name) := by
  unfold get?
  rw [renamed_pointers, renamed_stash]
  cases scope.pointers.find? name with
  | none => rfl
  | some i =>
    rw [Option.map_some, Option.map_some, renamed_some, Array.getElem?_map]
    cases scope.stash[i]? <;> rfl

theorem renamed_declare (scope : Scope) (name : String) (v : Value) :
    renamed f (scope.declare name v) = (renamed f scope).declare name (renamed f v) := by
  unfold declare
  rw [renamed_stash, renamed_pointers, Array.size_map, ← Array.map_push]
  rfl

theorem renamed_set (scope : Scope) (name : String) (v : Value) :
    renamed f (scope.set name v) = (renamed f scope).set name (renamed f v) := by
  unfold set
  rw [renamed_pointers]
  split
  · next i _ =>
    rw [renamed_stash, Array.size_map]
    split
    · show (⟨(scope.stash.setIfInBounds i v).map (renamed f), scope.pointers⟩ : Scope) = _
      rw [Array.map_setIfInBounds]
    · exact renamed_declare scope name v
  · exact renamed_declare scope name v

theorem renamed_ofList (entries : List (String × Value)) : renamed f (ofList entries) = ofList (renamed f entries) := by
  have none : renamed f empty = empty := congrArg (Scope.mk · Pointers.empty) (Array.map_empty)
  suffices h : ∀ scope : Scope, renamed f (entries.foldl (fun scope e => scope.set e.1 e.2) scope) =
      (renamed f entries).foldl (fun scope e => scope.set e.1 e.2) (renamed f scope) from
    (h empty).trans (by rw [none]; rfl)
  induction entries with
  | nil => exact fun _ => rfl
  | cons e r ih => exact fun scope => (ih _).trans (by rw [renamed_set]; rfl)

variable {bound : Nat}

theorem under_set {scope : Scope} {v : Value} (h : Under bound scope) (hv : Under bound v) (name : String) :
    Under bound (scope.set name v) :=
  fun g one same => by rw [renamed_set, h g one same, hv g one same]

theorem under_declare {scope : Scope} {v : Value} (h : Under bound scope) (hv : Under bound v) (name : String) :
    Under bound (scope.declare name v) :=
  fun g one same => by rw [renamed_declare, h g one same, hv g one same]

end Scope

/-- Two machines that differ in identities alone: all that are in use are given, and those still to be given
correspond. -/
structure Machine.Moved {bound : Nat} (r : Renaming σ bound) (m n : Machine σ) : Prop where
  host : m.host = r.home
  host' : n.host = r.home
  scope : n.scope = renamed r.map m.scope
  later : ∀ i, r.map (m.fresh + i) = n.fresh + i
  under : Under m.fresh m.scope
  known : bound ≤ m.fresh

/-! ## Parts of evaluations -/

namespace Expr

variable {f : Nat → Nat}

theorem renamed_childOf? (container key : Value) :
    renamed f (childOf? container key) = childOf? (renamed f container) (renamed f key) := by
  unfold childOf?
  cases container with
  | object fields => simp only [Value.renamed_object, Value.toText_renamed, Fields.get?_renamed]
  | array items =>
    simp only [Value.renamed_array, Value.toText_renamed]
    cases Value.indexOfKey? key.toText with
    | none => rfl
    | some i => exact List.getElem?_map.symm
  | _ => rfl

theorem renamed_writeAt {m : Value → Fault} {compute compute' : Value → Except Fault Value}
    (named : ∀ key, m (renamed f key) = m key)
    (natural : ∀ v, compute' (renamed f v) = renamed f (compute v)) (path : List Value) : ∀ v : Value,
    renamed f (writeAt m compute v path) = writeAt m compute' (renamed f v) (renamed f path) := by
  induction path with
  | nil =>
    intro v
    rw [renamed_nil, writeAt.eq_1, writeAt.eq_1, natural]
    cases compute v <;> rfl
  | cons key path ih =>
    intro v
    rw [renamed_cons, writeAt, writeAt, ← renamed_childOf?]
    cases childOf? v key with
    | none =>
      rw [renamed_none]
      dsimp only
      rw [named]
      rfl
    | some child =>
      rw [renamed_some]
      dsimp only
      rw [← ih]
      cases writeAt m compute child path with
      | error fault => rfl
      | ok written =>
        obtain ⟨old, new, inner⟩ := written
        simp only [renamed_ok, renamed_mk, bind, Except.bind]
        rw [← Value.renamed_setOwn?]
        cases v.setOwn? key inner with
        | none =>
          rw [renamed_none]
          dsimp only
          rw [named]
          rfl
        | some whole => rfl

theorem updated_renamed (op : UpdateOp) (span : Span) (v : Value) :
    updated op span (renamed f v) = renamed f (updated op span v) := by
  have text := Value.toRendered_renamed (f := f) v
  unfold updated
  cases v <;> simp_all

theorem renamed_settled (v : Option Value) : renamed f (settled v) = settled (renamed f v) := by
  cases v <;> rfl

theorem decidedBy_renamed (op : LogicalOp) (v : Value) : op.decidedBy (renamed f v) = op.decidedBy v := by
  cases op <;> simp [LogicalOp.decidedBy]

end Expr

theorem Under.settled {bound : Nat} {v : Option Value} (h : Under bound v) : Under bound (Expr.settled v) :=
  h.of_natural fun _ _ => Expr.renamed_settled v

namespace Expr

/-! ### Names, members and calls -/

section Parts

variable {host : Host σ} {bound low : Nat} (r : Renaming σ bound)

/-- Two evaluations that differ in identities alone. -/
abbrev Alike {α : Type} [Renamable α] (low : Nat) (c d : Eval σ α) : Prop :=
  Moves (fun m => m.fresh) (Machine.Moved r) r.map low c d

theorem alike_get? (name : String) :
    Alike r low (Variables.inScope.get? name : Eval σ (Option Value)) (Variables.inScope.get? name) := by
  refine fun m n ⟨le, moved⟩ => .ok ⟨⟨le, moved⟩, ?_, ?_⟩
  · rw [moved.scope, Scope.get?_renamed]
  · exact moved.under.of_natural (k := fun scope => scope.get? name) fun g _ => (Scope.get?_renamed m.scope name).symm

theorem alike_set {v : Value} (under : Under low v) (name : String) :
    Alike r low (Variables.inScope.set name v : Eval σ Unit) (Variables.inScope.set name (renamed r.map v)) := by
  refine fun m n ⟨le, moved⟩ => .ok ⟨⟨le, ?_⟩, rfl, under_unit _⟩
  refine { moved with scope := ?_, under := Scope.under_set moved.under (under.mono le) name }
  show n.scope.set name _ = _
  rw [moved.scope, Scope.renamed_set]

theorem alike_readName (name : String) :
    Alike r low (readName Variables.inScope host name) (readName Variables.inScope host name) := by
  unfold readName
  split
  · refine fun m n ⟨le, moved⟩ => .ok ⟨⟨le, moved⟩, ?_, fun _ _ _ => rfl⟩
    rw [moved.host, moved.host']
    rfl
  · refine (alike_get? r name).map (k := fun v => v.getD .undefined) (fun g _ v => ?_) r.one
    cases v <;> rfl

theorem alike_readMember? {object key : Value} (underObject : Under low object) (underKey : Under low key) :
    Alike r low (readMember? object key : Eval σ (Option Value))
      (readMember? (renamed r.map object) (renamed r.map key)) := by
  refine fun m n ⟨le, moved⟩ => .ok ⟨⟨Nat.le_succ_of_le le, ?_⟩, ?_, ?_⟩
  · refine { moved with later := fun i => ?_, under := moved.under.mono (Nat.le_succ _), known := Nat.le_succ_of_le moved.known }
    have next := moved.later (1 + i)
    rw [← Nat.add_assoc, ← Nat.add_assoc] at next
    exact next
  · rw [Value.renamed_getMember?]
    exact congrArg (fun identity => Value.getMember? identity _ _) (moved.later 0).symm
  · intro g one same
    rw [Value.renamed_getMember?, same m.fresh (Nat.lt_succ_self _),
      underObject.mono le g one fun i below => same i (Nat.lt_succ_of_lt below),
      underKey.mono le g one fun i below => same i (Nat.lt_succ_of_lt below)]

variable (stateless : host.Stateless bound)
include stateless

theorem alike_callFunction? {function : Value} {args : List Value} (underFunction : Under low function)
    (underArgs : Under low args) :
    Alike r low (callFunction? host function args) (callFunction? host (renamed r.map function) (renamed r.map args)) := by
  unfold callFunction?
  cases function with
  | callable identity =>
    refine fun m n ⟨le, moved⟩ => .ok ⟨⟨le, ?_⟩, ?_, ?_⟩
    · exact { moved with
        host := (stateless.stays _ _ _).trans moved.host, host' := (stateless.stays _ _ _).trans moved.host' }
    · rw [renamed_some, ← stateless.natural _ r.one r.fixed, moved.host, moved.host']
    · refine under_some.mpr fun g one same => ?_
      rw [← stateless.natural g one fun i below => same i (Nat.lt_of_lt_of_le below moved.known),
        underArgs.mono le g one same]
  | method identity receiver builtin =>
    have inner : Under low (Value.callBuiltin receiver builtin args) := by
      intro g one same
      have whole := underFunction g one same
      rw [Value.renamed_method, Value.method.injEq] at whole
      rw [Value.renamed_callBuiltin one, whole.2.1, underArgs g one same]
    refine .pure ?_ (under_some.mpr fun g one same => by rw [renamed_ok, inner g one same])
    rw [renamed_some, renamed_ok, Value.renamed_callBuiltin r.one]
    rfl
  | array items =>
    rw [Value.renamed_array]
    exact .pure rfl under_none
  | object fields =>
    rw [Value.renamed_object]
    exact .pure rfl under_none
  | _ => exact .pure rfl under_none

end Parts

/-! ### Places -/

section Places

variable {bound low : Nat} (r : Renaming σ bound)

theorem alike_checkDeclared (target : Expr) :
    Alike r low (checkDeclared Variables.inScope target : Eval σ Unit) (checkDeclared Variables.inScope target) := by
  cases target with
  | identifier span name =>
    refine (alike_get? r name).bind fun more le v under => ?_
    rw [show (renamed r.map v).isSome = v.isSome from Option.isSome_map]
    split
    · exact .pure rfl (under_unit _)
    · exact .throw _
  | _ => exact .pure rfl (under_unit _)

theorem alike_modifyPlace (target : Expr) (root : String) {path : List Value} (underPath : Under low path)
    {compute compute' : Value → Except Fault Value} (same : ∀ v, compute' (renamed r.map v) = renamed r.map (compute v))
    (stays : ∀ g : Nat → Nat, Function.Injective g → (∀ i < low, g i = i) → ∀ v,
      compute (renamed g v) = renamed g (compute v)) :
    Alike r low (modifyPlace Variables.inScope target root path compute : Eval σ (Value × Value))
      (modifyPlace Variables.inScope target root (renamed r.map path) compute') := by
  unfold modifyPlace
  refine (alike_get? r root).bind fun more le v under => ?_
  cases v with
  | none => exact .throw _
  | some value =>
    rw [renamed_some]
    dsimp only
    have written : ∀ g : Nat → Nat, ∀ {compute' : Value → Except Fault Value},
        (∀ v, compute' (renamed g v) = renamed g (compute v)) → _ := fun g _ natural =>
      renamed_writeAt (m := fun key => ⟨.propertyNotExists (placeLabel target root) key.toText, target.span⟩)
        (fun key => by rw [Value.toText_renamed]) natural path value
    rw [← written r.map same]
    have inside : Under more (writeAt (fun key => ⟨.propertyNotExists (placeLabel target root) key.toText, target.span⟩)
        compute value path) := by
      intro g one fixed
      have low : ∀ i < low, g i = i := fun i below => fixed i (Nat.lt_of_lt_of_le below le)
      rw [written g (stays g one low), under_some.mp under g one fixed, underPath g one low]
    generalize writeAt _ compute value path = result at inside ⊢
    cases result with
    | error fault => exact .throw _
    | ok whole =>
      obtain ⟨old, new, value'⟩ := whole
      have parts : Under more (old, new, value') := fun g one fixed => Except.ok.inj (inside g one fixed)
      obtain ⟨underOld, parts⟩ := under_mk.mp parts
      obtain ⟨underNew, underValue⟩ := under_mk.mp parts
      simp only [renamed_ok, renamed_mk]
      refine (alike_set r underValue root).bind fun last le _ _ => ?_
      exact .pure rfl ((under_mk.mpr ⟨underOld, underNew⟩).mono le)

theorem alike_writePlace (target : Expr) {place : Option (String × List Value)} {v : Value}
    (underPlace : Under low place) (underValue : Under low v) :
    Alike r low (writePlace Variables.inScope target place v : Eval σ Unit)
      (writePlace Variables.inScope target (renamed r.map place) (renamed r.map v)) := by
  cases place with
  | none => exact .pure rfl (under_unit _)
  | some place =>
    obtain ⟨root, path⟩ := place
    have path := (under_mk.mp (under_some.mp underPlace)).2
    refine (alike_modifyPlace r target root path (fun _ => rfl) fun g one fixed _ => ?_).bind fun _ _ _ _ =>
      .pure rfl (under_unit _)
    rw [renamed_ok, underValue g one fixed]

end Places

/-! ### Expressions -/

/-- What is found in a value that holds no built-in members. -/
def Bare (v : Value) : Prop := ∀ g : Nat → Nat, renamed g v = v

section Link

variable {host : Host σ} {bound : Nat} (r : Renaming σ bound)

/-- What follows the value of an assignment. -/
theorem alike_write {target : Expr} (place : ∀ low, Alike r low (place? Variables.inScope host target)
    (place? Variables.inScope host target)) {low : Nat} {v : Value} (under : Under low v) :
    Alike r low (do writePlace Variables.inScope target (← place? Variables.inScope host target) v; return some v)
      (do
        writePlace Variables.inScope target (← place? Variables.inScope host target) (renamed r.map v)
        return some (renamed r.map v)) :=
  (place low).bind fun _ le _ there => (alike_writePlace r target there (under.mono le)).bind fun _ le' _ _ =>
    .pure rfl (under_some.mpr ((under.mono le).mono le'))

mutual

/-- **Evaluations look at identities only to tell members apart.** -/
theorem alike_link (stateless : host.Stateless bound) : ∀ (e : Expr), (∀ v ∈ e.literals, Bare v) → ∀ low : Nat,
    Alike r low (link Variables.inScope host e) (link Variables.inScope host e)
  | .literal _ v, bare, low => by
    unfold link
    have bare := bare v (List.mem_singleton.mpr rfl)
    exact .pure (by rw [renamed_some, bare]) (under_some.mpr fun g _ _ => bare g)
  | .identifier _ name, _, low => by
    unfold link
    exact (alike_readName r name).map (k := some) (fun _ _ _ => rfl) r.one
  | .array _ items, bare, low => by
    unfold link
    exact (alike_evalItems stateless items bare low).map (k := fun vs => some (Value.array vs))
      (fun g _ vs => by rw [renamed_some, Value.renamed_array]) r.one
  | .object _ fields, bare, low => by
    unfold link
    exact (alike_evalFields stateless fields bare low [] under_nil).map (k := fun fs => some (Value.object fs))
      (fun g _ fs => by rw [renamed_some, Value.renamed_object]) r.one
  | .sequence _ items, bare, low => by
    unfold link
    exact (alike_evalLast stateless items bare low .undefined fun _ _ _ => rfl).map (k := some) (fun _ _ _ => rfl) r.one
  | .unary _ op e, bare, low => by
    unfold link
    exact (alike_link stateless e bare low).map (k := fun v => some (Value.unary op (settled v)))
      (fun g _ v => by rw [renamed_some, Value.renamed_unary, renamed_settled]) r.one
  | .binary _ op a b, bare, low => by
    unfold link
    obtain ⟨bareA, bareB⟩ := List.forall_mem_append.mp bare
    refine (alike_link stateless a bareA low).bind fun more le left underLeft => ?_
    refine (alike_link stateless b bareB more).bind fun last le' right underRight => ?_
    refine .pure ?_ ?_
    · rw [renamed_some, Value.renamed_binary r.one, renamed_settled, renamed_settled]
    · refine under_some.mpr fun g one fixed => ?_
      rw [Value.renamed_binary one, renamed_settled, renamed_settled, underRight g one fixed,
        (underLeft.mono le') g one fixed]
  | .logical _ op a b, bare, low => by
    unfold link
    obtain ⟨bareA, bareB⟩ := List.forall_mem_append.mp bare
    refine (alike_link stateless a bareA low).bind fun more le left underLeft => ?_
    dsimp only
    rw [← renamed_settled, decidedBy_renamed]
    split
    · exact .pure rfl (under_some.mpr underLeft.settled)
    · exact (alike_link stateless b bareB more).map (k := fun v => some (settled v))
        (fun g _ v => by rw [renamed_some, renamed_settled]) r.one
  | .conditional _ test a b, bare, low => by
    unfold link
    obtain ⟨bareTest, bareB⟩ := List.forall_mem_append.mp bare
    obtain ⟨bareTest, bareA⟩ := List.forall_mem_append.mp bareTest
    refine (alike_link stateless test bareTest low).bind fun more le holds _ => ?_
    rw [← renamed_settled, Value.isTruthy_renamed]
    split
    · exact (alike_link stateless a bareA more).map (k := fun v => some (settled v))
        (fun g _ v => by rw [renamed_some, renamed_settled]) r.one
    · exact (alike_link stateless b bareB more).map (k := fun v => some (settled v))
        (fun g _ v => by rw [renamed_some, renamed_settled]) r.one
  | .assignment _ op target value, bare, low => by
    obtain ⟨bareTarget, bareValue⟩ := List.forall_mem_append.mp bare
    have place := alike_place? stateless target bareTarget
    have target' := alike_link stateless target bareTarget
    have value' := alike_link stateless value bareValue
    cases op with
    | assign =>
      unfold link
      cases target with
      | identifier _ name =>
        refine (value' low).bind fun more le v under => ?_
        dsimp only
        rw [← renamed_settled]
        exact (alike_set r under.settled name).bind fun last le' _ _ =>
          .pure rfl (under_some.mpr (under.settled.mono le'))
      | _ =>
        refine (value' low).bind fun more le v under => ?_
        dsimp only
        rw [← renamed_settled]
        exact alike_write r place under.settled
    | binary op =>
      unfold link
      refine (alike_checkDeclared r target).bind fun _ _ _ _ => (target' _).bind fun middle _ current underCurrent => ?_
      refine (value' _).bind fun last le v under => ?_
      dsimp only
      rw [← renamed_settled, ← renamed_settled, ← Value.renamed_binary r.one]
      refine alike_write r place fun g one fixed => ?_
      rw [Value.renamed_binary one, under.settled g one fixed, (underCurrent.settled.mono le) g one fixed]
    | logical op =>
      unfold link
      refine (alike_checkDeclared r target).bind fun _ _ _ _ => (target' _).bind fun middle _ current underCurrent => ?_
      dsimp only
      rw [← renamed_settled, decidedBy_renamed]
      split
      · exact .pure rfl (under_some.mpr underCurrent.settled)
      · refine (value' _).bind fun last le v under => ?_
        rw [← renamed_settled]
        exact alike_write r place under.settled
  | .update _ op before e, bare, low => by
    unfold link
    refine (alike_place? stateless e bare low).bind fun more le place under => ?_
    cases place with
    | none => exact .throw _
    | some place =>
      obtain ⟨root, path⟩ := place
      have path := (under_mk.mp (under_some.mp under)).2
      refine (alike_modifyPlace r e root path (updated_renamed op e.span) fun g _ _ => updated_renamed op e.span).bind
        fun last _ both underBoth => ?_
      obtain ⟨old, new⟩ := both
      obtain ⟨underOld, underNew⟩ := under_mk.mp underBoth
      rw [renamed_mk]
      dsimp only
      split
      · exact .pure rfl (under_some.mpr underNew)
      · exact .pure rfl (under_some.mpr underOld)
  | .member span base key optional, bare, low => by
    unfold link
    obtain ⟨bareBase, bareKey⟩ := List.forall_mem_append.mp bare
    refine (alike_link stateless base bareBase low).bind fun more le found underFound => ?_
    cases found with
    | none => exact .pure rfl under_none
    | some object =>
      have underObject := under_some.mp underFound
      rw [renamed_some]
      dsimp only
      rw [Value.isNullish_renamed]
      split
      · exact .pure rfl under_none
      · refine (alike_evalKey stateless key bareKey more).bind fun middle le' name underName => ?_
        refine (alike_readMember? r (underObject.mono le') underName).bind fun last le'' v under => ?_
        cases v with
        | none =>
          rw [renamed_none]
          dsimp only
          rw [Value.toText_renamed]
          exact .throw _
        | some v => exact .pure rfl under
  | .call span callee arguments optional, bare, low => by
    unfold link
    obtain ⟨bareCallee, bareArguments⟩ := List.forall_mem_append.mp bare
    refine (alike_link stateless callee bareCallee low).bind fun more le found underFound => ?_
    cases found with
    | none => exact .pure rfl under_none
    | some function =>
      have underFunction := under_some.mp underFound
      rw [renamed_some]
      dsimp only
      rw [Value.isNullish_renamed]
      split
      · exact .pure rfl under_none
      · refine (alike_evalItems stateless arguments bareArguments more).bind fun middle le' args underArgs => ?_
        refine (alike_callFunction? r stateless (underFunction.mono le') underArgs).bind fun last le'' answer under => ?_
        cases answer with
        | none => exact .throw _
        | some answer =>
          cases answer with
          | error reason => exact .throw _
          | ok v => exact .pure rfl fun g one fixed => congrArg some (Except.ok.inj (under_some.mp under g one fixed))
  | .chain _ e, bare, low => by
    unfold link
    exact (alike_link stateless e bare low).map (k := fun v => some (settled v))
      (fun g _ v => by rw [renamed_some, renamed_settled]) r.one

theorem alike_evalItems (stateless : host.Stateless bound) : ∀ (es : List Expr), (∀ v ∈ literalsOfItems es, Bare v) → ∀ low : Nat,
    Alike r low (evalItems Variables.inScope host es) (evalItems Variables.inScope host es)
  | [], _, low => by
    unfold evalItems
    exact .pure rfl under_nil
  | e :: es, bare, low => by
    unfold evalItems
    obtain ⟨bareHere, bareLater⟩ := List.forall_mem_append.mp bare
    refine (alike_link stateless e bareHere low).bind fun more le v under => ?_
    refine (alike_evalItems stateless es bareLater more).bind fun last le' vs underItems => ?_
    exact .pure (by rw [renamed_cons, renamed_settled]) (under_cons.mpr ⟨under.settled.mono le', underItems⟩)

theorem alike_evalLast (stateless : host.Stateless bound) : ∀ (es : List Expr), (∀ v ∈ literalsOfItems es, Bare v) → ∀ (low : Nat) (last : Value),
    Under low last →
      Alike r low (evalLast Variables.inScope host es last) (evalLast Variables.inScope host es (renamed r.map last))
  | [], _, low, last, under => by
    unfold evalLast
    exact .pure rfl under
  | e :: es, bare, low, last, _ => by
    unfold evalLast
    obtain ⟨bareHere, bareLater⟩ := List.forall_mem_append.mp bare
    refine (alike_link stateless e bareHere low).bind fun more le v under => ?_
    dsimp only
    rw [← renamed_settled]
    exact alike_evalLast stateless es bareLater more (settled v) under.settled

theorem alike_evalFields (stateless : host.Stateless bound) : ∀ (fields : List (Key × Expr)), (∀ v ∈ literalsOfFields fields, Bare v) →
    ∀ (low : Nat) (acc : List (String × Value)), Under low acc →
      Alike r low (evalFields Variables.inScope host fields acc)
        (evalFields Variables.inScope host fields (renamed r.map acc))
  | [], _, low, acc, under => by
    unfold evalFields
    exact .pure rfl under
  | (key, e) :: fields, bare, low, acc, under => by
    unfold evalFields
    obtain ⟨bareHere, bareLater⟩ := List.forall_mem_append.mp bare
    obtain ⟨bareKey, bareHere⟩ := List.forall_mem_append.mp bareHere
    refine (alike_evalKey stateless key bareKey low).bind fun more le name _ => ?_
    refine (alike_link stateless e bareHere more).bind fun last le' v underValue => ?_
    dsimp only
    rw [← renamed_settled, Value.toText_renamed, ← Fields.renamed_set]
    refine alike_evalFields stateless fields bareLater last _ fun g one fixed => ?_
    rw [Fields.renamed_set, underValue.settled g one fixed, ((under.mono le).mono le') g one fixed]

theorem alike_evalKey (stateless : host.Stateless bound) : ∀ (key : Key), (∀ v ∈ literalsOfKey key, Bare v) → ∀ low : Nat,
    Alike r low (evalKey Variables.inScope host key) (evalKey Variables.inScope host key)
  | .named name, _, low => by
    unfold evalKey
    exact .pure rfl fun _ _ _ => rfl
  | .computed e, bare, low => by
    unfold evalKey
    exact (alike_link stateless e bare low).map (k := settled) (fun g _ v => renamed_settled v) r.one

theorem alike_place? (stateless : host.Stateless bound) : ∀ (target : Expr), (∀ v ∈ target.literals, Bare v) → ∀ low : Nat,
    Alike r low (place? Variables.inScope host target) (place? Variables.inScope host target)
  | .identifier _ name, _, low => by
    unfold place?
    exact .pure rfl fun _ _ _ => rfl
  | .member _ base key false, bare, low => by
    unfold place?
    obtain ⟨bareBase, bareKey⟩ := List.forall_mem_append.mp bare
    refine (alike_place? stateless base bareBase low).bind fun more le place under => ?_
    cases place with
    | none => exact .pure rfl under_none
    | some place =>
      obtain ⟨root, path⟩ := place
      have path := (under_mk.mp (under_some.mp under)).2
      refine (alike_evalKey stateless key bareKey more).bind fun last le' name underName => ?_
      refine .pure ?_ (under_some.mpr (under_mk.mpr ⟨under_string root, ?_⟩))
      · rw [renamed_some, renamed_mk, renamed_append, renamed_cons, renamed_nil]
      · exact under_append.mpr ⟨path.mono le', under_cons.mpr ⟨underName, under_nil⟩⟩
  | .member _ base key true, _, low => by
    unfold place?
    exact .pure rfl under_none
  | .literal .., _, low | .array .., _, low | .object .., _, low | .sequence .., _, low | .unary .., _, low
  | .binary .., _, low | .logical .., _, low | .assignment .., _, low | .update .., _, low | .conditional .., _, low
  | .call .., _, low | .chain .., _, low => by
    unfold place?
    exact .pure rfl under_none

end

end Link

end Expr
end PromptScript
