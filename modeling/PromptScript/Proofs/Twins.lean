import PromptScript.Proofs.Frames

/-! # Twins

Two stacks of frames on which some names are known have the same values for these names, and go on to have them: what
is known of a frame stays known in the frames on top of it, so that no write to a name that is known below hits
different frames. A name that is not known may be in one of the stacks only, and is known as soon as it is written.
Two scopes are twins if the frames that they hold are. -/
namespace PromptScript

/-- One of the sets has the name. -/
def Known.any (sets : List Known) : Known := fun x => ∃ known ∈ sets, known x

theorem Known.any_cons {known : Known} {outer : List Known} {x : String} :
    Known.any (known :: outer) x ↔ known x ∨ Known.any outer x := by
  simp [Known.any]

theorem Known.ne_of_not_any {sets : List Known} {name x : String} (unknown : ¬ Known.any sets name)
    (there : Known.any sets x) : x ≠ name := by
  rintro rfl
  exact unknown there

/-- The set without a name. -/
def Known.but (known : Known) (name : String) : Known := fun x => known x ∧ x ≠ name

namespace Stack

variable {α : Type} {name other : String} {a : α} {stack : Stack α}

theorem get?_declare_same (frame : List (String × α)) (rest : Stack α) :
    Stack.get? name (declare name a (frame :: rest)) = some a := by
  unfold declare Stack.get?
  rw [Fields.get?_set_same]
  rfl

theorem get?_declare_other (h : other ≠ name) (frame : List (String × α)) (rest : Stack α) :
    Stack.get? other (declare name a (frame :: rest)) = Stack.get? other (frame :: rest) := by
  unfold declare Stack.get?
  rw [Fields.get?_set_other h]

theorem get?_update_same (h : (Stack.get? name stack).isSome = true) :
    Stack.get? name (stack.update name a) = some a := by
  induction stack with
  | nil => cases h
  | cons frame rest ih =>
    unfold update
    by_cases has : Fields.has name frame = true
    · rw [if_pos has]
      exact get?_declare_same frame rest
    · rw [if_neg has]
      unfold Fields.has at has
      unfold Stack.get? at h ⊢
      rw [Option.not_isSome_iff_eq_none.mp has] at h ⊢
      exact ih h

theorem get?_update_other (h : other ≠ name) : Stack.get? other (stack.update name a) = Stack.get? other stack := by
  induction stack with
  | nil => rfl
  | cons frame rest ih =>
    unfold update
    by_cases has : Fields.has name frame = true
    · rw [if_pos has]
      exact get?_declare_other h frame rest
    · rw [if_neg has]
      unfold Stack.get?
      rw [ih]

end Stack

namespace Frames

/-- Two stacks, with the names that are known of each frame and those below: of these both have the same value, and
on top of the frames below they have the same entries. -/
def Twin : List Known → Frames → Frames → Prop
  | [], [], [] => True
  | known :: outer, frame :: rest, frame' :: rest' =>
    Twin outer rest rest' ∧ (∀ x, Known.any outer x → Fields.get? x frame = Fields.get? x frame') ∧
      ∀ x, known x → Stack.get? x (frame :: rest) = Stack.get? x (frame' :: rest')
  | _, _, _ => False

variable {sets outer : List Known} {known known' : Known} {stack stack' : Frames} {name : String} {v : Value}

theorem Twin.of_eq {other other' : Frames} (h : Twin sets stack stack') (left : other = stack)
    (right : other' = stack') : Twin sets other other' := by
  rw [left, right]
  exact h

theorem Twin.get?_eq (h : Twin sets stack stack') (there : Known.any sets name) :
    Stack.get? name stack = Stack.get? name stack' := by
  induction sets generalizing stack stack' with
  | nil =>
    obtain ⟨_, none, -⟩ := there
    cases none
  | cons known outer ih =>
    match stack, stack', h with
    | frame :: rest, frame' :: rest', ⟨below, entries, same⟩ =>
      rcases Known.any_cons.mp there with here | there
      · exact same name here
      · unfold Stack.get?
        rw [entries name there, ih below there]

/-- As much may be known of the current frame as there is to be known. -/
theorem Twin.knows (h : Twin (known :: outer) stack stack')
    (all : ∀ x, known' x → known x ∨ Stack.get? x stack = Stack.get? x stack') : Twin (known' :: outer) stack stack' := by
  match stack, stack', h with
  | frame :: rest, frame' :: rest', ⟨below, entries, same⟩ =>
    exact ⟨below, entries, fun x member => (all x member).elim (same x) id⟩

theorem Twin.symm (h : Twin sets stack stack') : Twin sets stack' stack := by
  induction sets generalizing stack stack' with
  | nil =>
    match stack, stack', h with
    | [], [], h => exact h
  | cons known outer ih =>
    match stack, stack', h with
    | frame :: rest, frame' :: rest', ⟨below, entries, same⟩ =>
      exact ⟨ih below, fun x there => (entries x there).symm, fun x here => (same x here).symm⟩

/-- Both may begin a new frame. -/
theorem Twin.push (h : Twin (known :: outer) stack stack') : Twin (known :: known :: outer) ([] :: stack) ([] :: stack') :=
  ⟨h, fun _ _ => rfl, fun _ here => h.get?_eq (Known.any_cons.mpr (.inl here))⟩

theorem Twin.tail {frame frame' : List (String × Value)} (h : Twin (known :: outer) (frame :: stack) (frame' :: stack')) :
    Twin outer stack stack' := h.1

/-! ## Writes to twins -/

/-- A name that is not known may get another value in one of them. -/
theorem Twin.update_left (h : Twin sets stack stack') (unknown : ¬ Known.any sets name) :
    Twin sets (stack.update name v) stack' := by
  induction sets generalizing stack stack' with
  | nil =>
    match stack, stack', h with
    | [], [], h => exact h
  | cons known outer ih =>
    match stack, stack', h with
    | frame :: rest, frame' :: rest', ⟨below, entries, same⟩ =>
      have there : ¬ Known.any outer name := fun h => unknown (Known.any_cons.mpr (.inr h))
      have after : ∀ x, known x → Stack.get? x (Stack.update name v (frame :: rest)) = Stack.get? x (frame' :: rest') :=
        fun x member => (Stack.get?_update_other (Known.ne_of_not_any unknown (Known.any_cons.mpr (.inl member)))).trans
          (same x member)
      unfold Stack.update at after ⊢
      by_cases has : Fields.has name frame = true
      · rw [if_pos has] at after ⊢
        refine ⟨below, fun x member => ?_, after⟩
        rw [Fields.get?_set_other (Known.ne_of_not_any there member), entries x member]
      · rw [if_neg has] at after ⊢
        exact ⟨ih below there, entries, after⟩

/-- A name that is not known may be given a value in one of them. -/
theorem Twin.assign_left (h : Twin (known :: outer) stack stack') (unknown : ¬ Known.any (known :: outer) name) :
    Twin (known :: outer) (stack.assign name v) stack' := by
  unfold Stack.assign
  by_cases has : (Stack.get? name stack).isSome = true
  · rw [if_pos has]
    exact h.update_left unknown
  · rw [if_neg has]
    match stack, stack', h with
    | frame :: rest, frame' :: rest', ⟨below, entries, same⟩ =>
      refine ⟨below, fun x member => ?_, fun x member => ?_⟩
      · rw [Fields.get?_set_other (Known.ne_of_not_any unknown (Known.any_cons.mpr (.inr member))), entries x member]
      · refine Eq.trans ?_ (same x member)
        exact Stack.get?_declare_other (Known.ne_of_not_any unknown (Known.any_cons.mpr (.inl member))) frame rest

/-- A new variable of both. -/
theorem Twin.declare {frame frame' : List (String × Value)}
    (h : Twin (known :: outer) (frame :: stack) (frame' :: stack')) :
    Twin (known.and [name] :: outer) (Stack.declare name v (frame :: stack)) (Stack.declare name v (frame' :: stack')) := by
  obtain ⟨below, entries, same⟩ := h
  refine ⟨below, fun x member => ?_, fun x member => ?_⟩
  · by_cases named : x = name
    · subst named
      rw [Fields.get?_set_same, Fields.get?_set_same]
    · rw [Fields.get?_set_other named, Fields.get?_set_other named, entries x member]
  · by_cases named : x = name
    · subst named
      exact (Stack.get?_declare_same frame stack).trans (Stack.get?_declare_same frame' stack').symm
    · refine (Stack.get?_declare_other named frame stack).trans ?_
      refine Eq.trans ?_ (Stack.get?_declare_other named frame' stack').symm
      exact same x (member.elim id fun here => absurd (List.mem_singleton.mp here) named)

/-- Of a name that the frames below do not know nothing need be known before. -/
theorem Twin.forget (h : Twin (known :: outer) stack stack') (below : ¬ Known.any outer name) :
    Twin (known.but name :: outer) stack stack' ∧ ¬ Known.any (known.but name :: outer) name := by
  refine ⟨h.knows fun x member => .inl member.1, fun there => ?_⟩
  rcases Known.any_cons.mp there with here | there
  · exact here.2 rfl
  · exact below there

/-- A name that is known gets another value in the same frame of both. -/
theorem Twin.update (h : Twin sets stack stack') (there : Known.any sets name)
    (has : (Stack.get? name stack).isSome = true) : Twin sets (stack.update name v) (stack'.update name v) := by
  have has' : (Stack.get? name stack').isSome = true := h.get?_eq there ▸ has
  induction sets generalizing stack stack' with
  | nil =>
    match stack, stack', h with
    | [], [], h => exact h
  | cons known outer ih =>
    by_cases lower : Known.any outer name
    · match stack, stack', h with
      | frame :: rest, frame' :: rest', ⟨below, entries, same⟩ =>
        -- Both have the name in the current frame, or neither has.
        have after : ∀ x, known x → Stack.get? x (Stack.update name v (frame :: rest)) =
            Stack.get? x (Stack.update name v (frame' :: rest')) := by
          intro x member
          by_cases named : x = name
          · subst named
            rw [Stack.get?_update_same has, Stack.get?_update_same has']
          · rw [Stack.get?_update_other named, Stack.get?_update_other named, same x member]
        unfold Stack.update at after ⊢
        have both : Fields.has name frame = Fields.has name frame' := congrArg Option.isSome (entries name lower)
        rw [← both] at after ⊢
        by_cases here : Fields.has name frame = true
        · rw [if_pos here, if_pos here] at after ⊢
          refine ⟨below, fun x member => ?_, after⟩
          by_cases named : x = name
          · subst named
            rw [Fields.get?_set_same, Fields.get?_set_same]
          · rw [Fields.get?_set_other named, Fields.get?_set_other named, entries x member]
        · rw [if_neg here, if_neg here] at after ⊢
          have absent : Fields.get? name frame = none := Option.not_isSome_iff_eq_none.mp here
          have absent' : Fields.get? name frame' = none := entries name lower ▸ absent
          unfold Stack.get? at has has'
          rw [absent] at has
          rw [absent'] at has'
          exact ⟨ih below lower has has', entries, after⟩
    · -- The name is known of the current frame alone.
      obtain ⟨less, unknown⟩ := h.forget lower
      refine ((less.update_left unknown).symm.update_left unknown).symm.knows fun x member => ?_
      by_cases named : x = name
      · subst named
        exact .inr ((Stack.get?_update_same has).trans (Stack.get?_update_same has').symm)
      · exact .inl ⟨member, named⟩

theorem get?_assign_same (frame : List (String × Value)) (rest : Frames) :
    Stack.get? name (Stack.assign name v (frame :: rest)) = some v := by
  unfold Stack.assign
  split
  · next has => exact Stack.get?_update_same has
  · exact Stack.get?_declare_same frame rest

/-- **A name to which both give a value is known of both.** -/
theorem Twin.assign (h : Twin (known :: outer) stack stack') :
    Twin (known.and [name] :: outer) (stack.assign name v) (stack'.assign name v) := by
  have given : Stack.get? name (stack.assign name v) = Stack.get? name (stack'.assign name v) := by
    match stack, stack', h with
    | frame :: rest, frame' :: rest', _ => rw [get?_assign_same, get?_assign_same]
  have add : Twin (known.but name :: outer) (stack.assign name v) (stack'.assign name v) →
      Twin (known.and [name] :: outer) (stack.assign name v) (stack'.assign name v) := by
    refine fun h => h.knows fun x member => ?_
    by_cases named : x = name
    · subst named
      exact .inr given
    · exact .inl ⟨member.elim id fun here => absurd (List.mem_singleton.mp here) named, named⟩
  by_cases lower : Known.any outer name
  · have there : Known.any (known :: outer) name := Known.any_cons.mpr (.inr lower)
    suffices h : Twin (known :: outer) (stack.assign name v) (stack'.assign name v) from
      add (h.knows fun x member => .inl member.1)
    unfold Stack.assign
    rw [← h.get?_eq there]
    by_cases has : (Stack.get? name stack).isSome = true
    · rw [if_pos has, if_pos has]
      exact h.update there has
    · rw [if_neg has, if_neg has]
      match stack, stack', h with
      | frame :: rest, frame' :: rest', h => exact h.declare.knows fun x member => .inl (.inl member)
  · obtain ⟨less, unknown⟩ := h.forget lower
    exact add ((less.assign_left unknown).symm.assign_left unknown).symm

end Frames

/-! ## Scopes and machines -/

section Scopes

open Layout

variable {σ : Type}

/-- A frame of two scopes: where its entries lie on either side, and what is known of it. -/
structure Level where
  left : List (String × Nat)
  right : List (String × Nat)
  known : Known

/-- The frames of two scopes, the current one first. -/
abbrev View := List Level

/-- Two scopes whose frames are twins, and lie as the levels say. -/
structure Scope.Twin (levels : View) (scope scope' : Scope) : Prop where
  left : Fits (levels.map Level.left) scope
  right : Fits (levels.map Level.right) scope'
  frames : Frames.Twin (levels.map Level.known) (Layout.frames (levels.map Level.left) scope.stash)
    (Layout.frames (levels.map Level.right) scope'.stash)

/-- Two machines in the same world, whose scopes are twins. -/
structure Machine.Twin (levels : View) (m n : Machine σ) : Prop extends Scope.Twin levels m.scope n.scope where
  world : m.toWorld = n.toWorld

/-- Two machines in the same world, of whose current frame some names are known; the frames below lie as a view
says. -/
def View.Shows (below : View) (known : Known) (m n : Machine σ) : Prop :=
  ∃ left right, Machine.Twin (⟨left, right, known⟩ :: below) m n

section Shows

variable {below : View} {known : Known} {m n : Machine σ}

/-- A name is known on both sides once it has been given a value. -/
theorem View.Shows.set (shows : below.Shows known m n) (name : String) (v : Value) :
    below.Shows (known.and [name]) { m with scope := m.scope.set name v } { n with scope := n.scope.set name v } := by
  obtain ⟨left, right, twin⟩ := shows
  obtain ⟨left', -, fits, made⟩ := twin.left.set name v
  obtain ⟨right', -, fits', made'⟩ := twin.right.set name v
  exact ⟨left', right', ⟨⟨fits, fits', twin.frames.assign.of_eq made made'⟩, twin.world⟩⟩

/-- So is a new variable. -/
theorem View.Shows.declare (shows : below.Shows known m n) (name : String) (v : Value) :
    below.Shows (known.and [name]) { m with scope := m.scope.declare name v }
      { n with scope := n.scope.declare name v } := by
  obtain ⟨left, right, twin⟩ := shows
  obtain ⟨fits, made⟩ := twin.left.declare name v
  obtain ⟨fits', made'⟩ := twin.right.declare name v
  exact ⟨_, _, ⟨⟨fits, fits', twin.frames.declare.of_eq made made'⟩, twin.world⟩⟩

end Shows

theorem View.lasting_shows (below : View) : Lasting (fun m n : Machine σ => m.toWorld = n.toWorld) below.Shows where
  failed := fun ⟨_, _, twin⟩ => twin.world
  fewer fewer := fun ⟨left, right, twin⟩ =>
    ⟨left, right, { twin with frames := twin.frames.knows fun x member => .inl (fewer x member) }⟩

/-- **Machines that are twins agree on all names that are known.** -/
theorem View.agrees (host : Host σ) (below : View) :
    Agrees (fun m n => m.toWorld = n.toWorld) below.Shows Variables.inScope host Variables.inScope host where
  toLasting := below.lasting_shows
  get? := by
    intro known name there m n shows
    obtain ⟨left, right, twin⟩ := shows
    refine .ok ⟨?_, left, right, twin⟩
    rw [twin.left.get?_eq, twin.right.get?_eq]
    exact twin.frames.get?_eq (Known.any_cons.mpr (.inl there))
  set := by
    intro known name v m n shows
    exact .ok (shows.set name v)
  call := by
    intro known m n identity args ⟨left, right, twin⟩
    have same : m.host = n.host := congrArg World.host twin.world
    rw [same]
    exact ⟨rfl, left, right, { twin.toTwin with world := congrArg (World.mk · _) (congrArg World.fresh twin.world) }⟩
  fresh := by
    intro known m n ⟨left, right, twin⟩
    have same : m.fresh = n.fresh := congrArg World.fresh twin.world
    refine ⟨same, left, right, { twin.toTwin with world := ?_ }⟩
    exact congrArg (fun w : World σ => { w with fresh := w.fresh + 1 }) twin.world
  now := by
    intro known m n ⟨left, right, twin⟩
    rw [show m.host = n.host from congrArg World.host twin.world]

/-- The scopes of the same parameters, but for some that are not known, are twins. -/
theorem Scope.twin_ofList {known : Known} {entries entries' : List (String × Value)}
    (same : ∀ x, known x → Fields.get? x (Fields.ofList entries) = Fields.get? x (Fields.ofList entries')) :
    ∃ left right, Scope.Twin [⟨left, right, known⟩] (Scope.ofList entries) (Scope.ofList entries') := by
  obtain ⟨left, fits, made⟩ := exists_fits_ofList entries
  obtain ⟨right, fits', made'⟩ := exists_fits_ofList entries'
  have twin : Frames.Twin [known] [Fields.ofList entries] [Fields.ofList entries'] := by
    refine ⟨trivial, fun x there => ?_, fun x here => ?_⟩
    · obtain ⟨_, none, -⟩ := there
      cases none
    · rw [Stack.get?_singleton, Stack.get?_singleton]
      exact same x here
  exact ⟨left, right, fits, fits', twin.of_eq made made'⟩

end Scopes
end PromptScript
