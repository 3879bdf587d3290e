import PromptScript.Proofs.Uses

/-! # Variables on a stack of frames

Here variables are entries of frames, and frames lie on a stack: a name means the innermost entry that has it. To
give a name a value changes that entry, or makes one in the current frame. A `Layout` tells the cell of each entry,
and a scope `Fits` it if its table finds just what the stack finds. Then whatever is done with a name of the scope is
done with the same name of the stack. -/
namespace PromptScript

/-- Entries under names in frames, the innermost frame first. -/
abbrev Stack (α : Type) := List (List (String × α))

namespace Stack

variable {α β : Type}

/-- The innermost entry of a name. -/
def get? (name : String) : Stack α → Option α
  | [] => none
  | frame :: rest => (Fields.get? name frame).or (get? name rest)

/-- Makes an entry in the current frame. -/
def declare (name : String) (a : α) : Stack α → Stack α
  | [] => [[(name, a)]]
  | frame :: rest => Fields.set name a frame :: rest

/-- Changes the innermost entry of a name. -/
def update (name : String) (a : α) : Stack α → Stack α
  | [] => []
  | frame :: rest => if Fields.has name frame then Fields.set name a frame :: rest else frame :: update name a rest

/-- Gives a name a value: in the innermost frame that has it, and else in the current one. -/
def assign (name : String) (a : α) (stack : Stack α) : Stack α :=
  if (stack.get? name).isSome then stack.update name a else stack.declare name a

/-- A frame with other values. -/
def frameMap (f : α → β) (frame : List (String × α)) : List (String × β) := frame.map fun e => (e.1, f e.2)

/-- A stack with other values. -/
def map (f : α → β) (stack : Stack α) : Stack β := List.map (frameMap f) stack

theorem get?_singleton (name : String) (frame : List (String × α)) : Stack.get? name [frame] = Fields.get? name frame :=
  Option.or_none

theorem get?_frameMap (f : α → β) (name : String) (frame : List (String × α)) :
    Fields.get? name (frameMap f frame) = (Fields.get? name frame).map f := by
  induction frame with
  | nil => rfl
  | cons e r ih =>
    show (if e.1 = name then some (f e.2) else Fields.get? name (frameMap f r)) =
      (if e.1 = name then some e.2 else Fields.get? name r).map f
    rw [ih]
    split <;> rfl

theorem set_frameMap (f : α → β) (name : String) (a : α) (frame : List (String × α)) :
    Fields.set name (f a) (frameMap f frame) = frameMap f (Fields.set name a frame) := by
  induction frame with
  | nil => rfl
  | cons e r ih =>
    show (if e.1 = name then (e.1, f a) :: frameMap f r else (e.1, f e.2) :: Fields.set name (f a) (frameMap f r)) =
      frameMap f (if e.1 = name then (e.1, a) :: r else (e.1, e.2) :: Fields.set name a r)
    rw [ih]
    split <;> rfl

theorem get?_map (f : α → β) (name : String) (stack : Stack α) :
    (stack.map f).get? name = (stack.get? name).map f := by
  induction stack with
  | nil => rfl
  | cons frame rest ih =>
    show (Fields.get? name (frameMap f frame)).or ((map f rest).get? name) =
      ((Fields.get? name frame).or (get? name rest)).map f
    rw [get?_frameMap, ih]
    cases Fields.get? name frame <;> rfl

end Stack

/-- The frames of a stack of variables. -/
abbrev Frames := Stack Value

/-! ## Ways to keep variables -/

section Variables

variable {σ τ : Type}

/-- The names of the frames that the caller's state begins with. -/
def Variables.inFrames : Variables (Frames × σ) where
  get? name := return (← get).host.1.get? name
  set name v := modify fun m => { m with host := (m.host.1.assign name v, m.host.2) }

/-- Something is noted of each read in the caller's state. -/
def Variables.noting (note : String → Option Value → σ → σ) (vars : Variables σ) : Variables σ where
  get? name := do
    let v ← vars.get? name
    modify fun m => { m with host := note name v m.host }
    return v
  set := vars.set

/-- The caller beside some state of its own that it does not see. -/
def Host.beside (host : Host σ) : Host (τ × σ) where
  call identity args s := ((host.call identity args s.2).1, (s.1, (host.call identity args s.2).2))
  now s := host.now s.2

/-- What is noted beside some other state. -/
def noteBeside (note : String → Option Value → σ → σ) : String → Option Value → τ × σ → τ × σ :=
  fun name v s => (s.1, note name v s.2)

end Variables

/-! ## Layouts -/

/-- The cells of the entries on a stack. -/
abbrev Layout := Stack Nat

namespace Layout

/-- The cells of a frame. -/
def frameCells (frame : List (String × Nat)) : List Nat := frame.map Prod.snd

/-- All cells. -/
def cells (layout : Layout) : List Nat := layout.flatMap frameCells

/-- The value in a cell. -/
def value (stash : Stash) (cell : Nat) : Value := (stash[cell]?).getD .undefined

/-- The frames of variables that lie in some cells. -/
def frames (layout : Layout) (stash : Stash) : Frames := layout.map (value stash)

theorem mem_frameCells_of_get? {name : String} {cell : Nat} : ∀ {frame : List (String × Nat)},
    Fields.get? name frame = some cell → cell ∈ frameCells frame
  | [], found => nomatch found
  | (n, c) :: r, found => by
    unfold Fields.get? at found
    split at found
    · obtain rfl := Option.some.inj found
      exact List.mem_cons_self
    · exact List.mem_cons_of_mem _ (mem_frameCells_of_get? found)

theorem mem_cells_of_get? {layout : Layout} {name : String} {cell : Nat} (h : layout.get? name = some cell) :
    cell ∈ layout.cells := by
  induction layout with
  | nil => cases h
  | cons frame rest ih =>
    show cell ∈ frameCells frame ++ cells rest
    unfold Stack.get? at h
    rcases Option.or_eq_some_iff.mp h with here | ⟨-, there⟩
    · exact List.mem_append_left _ (mem_frameCells_of_get? here)
    · exact List.mem_append_right _ (ih there)

/-- Values that are alike in all cells of a frame. -/
theorem frameMap_congr {f g : Nat → Value} {frame : List (String × Nat)} (h : ∀ c ∈ frameCells frame, f c = g c) :
    Stack.frameMap f frame = Stack.frameMap g frame := by
  refine List.map_congr_left fun e member => ?_
  rw [h e.2 (List.mem_map_of_mem member)]

theorem map_congr {f g : Nat → Value} {layout : Layout} (h : ∀ c ∈ layout.cells, f c = g c) :
    layout.map f = layout.map g :=
  List.map_congr_left fun frame member => frameMap_congr fun c here => h c (List.mem_flatMap.mpr ⟨frame, member, here⟩)

/-- A frame with another value in the cell of a name. -/
theorem frameMap_eq_set {f g : Nat → Value} {name : String} {cell : Nat} {v : Value}
    (here : g cell = v) (else_ : ∀ c, c ≠ cell → g c = f c) : ∀ {frame : List (String × Nat)},
    (frameCells frame).Nodup → Fields.get? name frame = some cell →
      Stack.frameMap g frame = Fields.set name v (Stack.frameMap f frame)
  | [], _, found => nomatch found
  | (n, c) :: r, distinct, found => by
    obtain ⟨fresh, distinct⟩ := List.nodup_cons.mp distinct
    have same : Stack.frameMap f ((n, c) :: r) = (n, f c) :: Stack.frameMap f r := rfl
    have changed : Stack.frameMap g ((n, c) :: r) = (n, g c) :: Stack.frameMap g r := rfl
    unfold Fields.get? at found
    rw [same, changed]
    unfold Fields.set
    by_cases named : n = name
    · rw [if_pos named] at found ⊢
      obtain rfl := Option.some.inj found
      rw [here, frameMap_congr fun c' member => else_ c' fun h => fresh (h ▸ member)]
    · rw [if_neg named] at found ⊢
      have other : c ≠ cell := by
        rintro rfl
        exact fresh (mem_frameCells_of_get? found)
      rw [else_ c other, frameMap_eq_set here else_ distinct found]

/-- To write the cell of a name is to change its innermost entry. -/
theorem map_eq_update {f g : Nat → Value} {name : String} {cell : Nat} {v : Value} (here : g cell = v)
    (else_ : ∀ c, c ≠ cell → g c = f c) : ∀ {layout : Layout}, layout.cells.Nodup → layout.get? name = some cell →
      layout.map g = (layout.map f).update name v
  | [], _, found => nomatch found
  | frame :: rest, distinct, found => by
    obtain ⟨first, last, apart⟩ := List.nodup_append.mp (show (frameCells frame ++ cells rest).Nodup from distinct)
    have same : Stack.map f (frame :: rest) = Stack.frameMap f frame :: Stack.map f rest := rfl
    have changed : Stack.map g (frame :: rest) = Stack.frameMap g frame :: Stack.map g rest := rfl
    have has : Fields.has name (Stack.frameMap f frame) = (Fields.get? name frame).isSome := by
      unfold Fields.has
      rw [Stack.get?_frameMap, Option.isSome_map]
    unfold Stack.get? at found
    rw [same, changed]
    unfold Stack.update
    rw [has]
    cases local_ : Fields.get? name frame with
    | some c =>
      rw [local_] at found
      obtain rfl : c = cell := Option.some.inj found
      have member : c ∈ frameCells frame := mem_frameCells_of_get? local_
      rw [if_pos (show (some c).isSome = true from rfl), frameMap_eq_set here else_ first local_,
        map_congr fun c' there => else_ c' fun h => apart c member c' there h.symm]
    | none =>
      rw [local_] at found
      have there : cell ∈ cells rest := mem_cells_of_get? found
      rw [if_neg (show ¬(none : Option Nat).isSome = true from nofun), map_eq_update here else_ last found,
        frameMap_congr fun c' member => else_ c' fun h => apart c' member cell there h]

/-- A frame that has all the entries of another. -/
def Extends (frame more : List (String × Nat)) : Prop :=
  ∀ name cell, Fields.get? name frame = some cell → Fields.get? name more = some cell

theorem extends_refl (frame : List (String × Nat)) : Extends frame frame := fun _ _ => id

theorem Extends.trans {a b c : List (String × Nat)} (h : Extends a b) (h' : Extends b c) : Extends a c :=
  fun name cell found => h' name cell (h name cell found)

/-- The table of a scope finds what the layout finds, and each entry has a cell of its own. -/
structure Fits (layout : Layout) (scope : Scope) : Prop where
  table : ∀ name, scope.pointers.find? name = layout.get? name
  distinct : layout.cells.Nodup
  there : ∀ c ∈ layout.cells, c < scope.stash.size

theorem mem_frameCells_set {name : String} {new c : Nat} : ∀ {frame : List (String × Nat)},
    c ∈ frameCells (Fields.set name new frame) → c = new ∨ c ∈ frameCells frame
  | [], member => .inl (List.mem_singleton.mp member)
  | (n, i) :: r, member => by
    unfold Fields.set at member
    split at member
    · rcases List.mem_cons.mp member with rfl | member
      · exact .inl rfl
      · exact .inr (List.mem_cons_of_mem _ member)
    · rcases List.mem_cons.mp member with rfl | member
      · exact .inr List.mem_cons_self
      · exact (mem_frameCells_set member).imp_right (List.mem_cons_of_mem _)

theorem nodup_frameCells_set {name : String} {new : Nat} : ∀ {frame : List (String × Nat)},
    (frameCells frame).Nodup → new ∉ frameCells frame → (frameCells (Fields.set name new frame)).Nodup
  | [], _, _ => List.nodup_cons.mpr ⟨List.not_mem_nil, List.nodup_nil⟩
  | (n, i) :: r, distinct, fresh => by
    obtain ⟨first, rest⟩ := List.nodup_cons.mp distinct
    obtain ⟨other, fresh⟩ := not_or.mp fun h => fresh (List.mem_cons.mpr h)
    unfold Fields.set
    split
    · exact List.nodup_cons.mpr ⟨fresh, rest⟩
    · refine List.nodup_cons.mpr ⟨fun member => ?_, nodup_frameCells_set rest fresh⟩
      rcases mem_frameCells_set member with same | member
      · exact other same.symm
      · exact first member

section Fits

variable {scope : Scope} {layout : Layout} {top : List (String × Nat)} {rest : Layout}

/-- A name of the scope has the value that the frames give it. -/
theorem Fits.get?_eq (fits : Fits layout scope) (name : String) :
    scope.get? name = (layout.frames scope.stash).get? name := by
  unfold Scope.get? frames
  rw [fits.table, Stack.get?_map]
  rfl

/-- Without its current frame a layout fits the table from before. -/
theorem Fits.tail {table : Pointers} (fits : Fits (top :: rest) scope) (outer : ∀ name, table.find? name = rest.get? name) :
    Fits rest { scope with pointers := table } where
  table := outer
  distinct := (List.nodup_append.mp (show (frameCells top ++ cells rest).Nodup from fits.distinct)).2.1
  there c member := fits.there c (List.mem_append_right (frameCells top) member)

/-- With a new frame it fits the same scope. -/
theorem Fits.push (fits : Fits layout scope) : Fits ([] :: layout) scope := ⟨fits.table, fits.distinct, fits.there⟩

/-- A declaration makes an entry in the current frame. -/
theorem Fits.declare (fits : Fits (top :: rest) scope) (name : String) (v : Value) :
    Fits (Fields.set name scope.stash.size top :: rest) (scope.declare name v) ∧
      frames (Fields.set name scope.stash.size top :: rest) (scope.declare name v).stash =
        (frames (top :: rest) scope.stash).declare name v := by
  obtain ⟨first, last, apart⟩ := List.nodup_append.mp (show (frameCells top ++ cells rest).Nodup from fits.distinct)
  have fresh : ∀ c ∈ cells (top :: rest), c ≠ scope.stash.size := fun c member => Nat.ne_of_lt (fits.there c member)
  have size : (scope.declare name v).stash.size = scope.stash.size + 1 := Array.size_push _
  have same : ∀ c ∈ cells (top :: rest), value (scope.declare name v).stash c = value scope.stash c := by
    intro c member
    unfold value Scope.declare
    rw [Array.getElem?_push, if_neg (fresh c member)]
  have new : value (scope.declare name v).stash scope.stash.size = v := by
    unfold value Scope.declare
    rw [Array.getElem?_push, if_pos rfl]
    rfl
  refine ⟨⟨fun other => ?_, ?_, fun c member => ?_⟩, ?_⟩
  · show (scope.pointers.insert name scope.stash.size).find? other =
      (Fields.get? other (Fields.set name scope.stash.size top)).or (Stack.get? other rest)
    by_cases named : other = name
    · subst named
      rw [Pointers.find?_insert_same, Fields.get?_set_same]
      rfl
    · rw [Pointers.find?_insert_other named, Fields.get?_set_other named]
      exact fits.table other
  · show (frameCells (Fields.set name scope.stash.size top) ++ cells rest).Nodup
    refine List.nodup_append.mpr ⟨nodup_frameCells_set first fun member => ?_, last, fun c member c' member' => ?_⟩
    · exact fresh _ (List.mem_append_left (cells rest) member) rfl
    · rcases mem_frameCells_set member with rfl | member
      · exact fun h => fresh c' (List.mem_append_right (frameCells top) member') h.symm
      · exact apart c member c' member'
  · rw [size]
    rcases List.mem_append.mp (show c ∈ frameCells (Fields.set name scope.stash.size top) ++ cells rest from member) with
      member | member
    · rcases mem_frameCells_set member with rfl | member
      · omega
      · exact Nat.lt_succ_of_lt (fits.there c (List.mem_append_left (cells rest) member))
    · exact Nat.lt_succ_of_lt (fits.there c (List.mem_append_right (frameCells top) member))
  · show Stack.frameMap _ (Fields.set name scope.stash.size top) :: Stack.map _ rest =
      Fields.set name v (Stack.frameMap _ top) :: Stack.map _ rest
    rw [← Stack.set_frameMap, new, frameMap_congr fun c member => same c (List.mem_append_left (cells rest) member),
      show Stack.map (value (scope.declare name v).stash) rest = Stack.map (value scope.stash) rest from
        map_congr fun c member => same c (List.mem_append_right (frameCells top) member)]

/-- **To give a name of the scope a value is to give it to the name of the frames.** -/
theorem Fits.set (fits : Fits (top :: rest) scope) (name : String) (v : Value) :
    ∃ top', Extends top top' ∧ Fits (top' :: rest) (scope.set name v) ∧
      frames (top' :: rest) (scope.set name v).stash = (frames (top :: rest) scope.stash).assign name v := by
  have known : ((frames (top :: rest) scope.stash).get? name).isSome = (scope.pointers.find? name).isSome := by
    rw [fits.table, frames, Stack.get?_map, Option.isSome_map]
  unfold Stack.assign
  rw [known]
  unfold Scope.set
  cases found : scope.pointers.find? name with
  | none =>
    obtain ⟨fits', made⟩ := fits.declare name v
    refine ⟨_, fun other cell here => ?_, fits', made⟩
    -- The name is new to the current frame.
    by_cases named : other = name
    · subst named
      have absent := (fits.table other).symm.trans found
      unfold Stack.get? at absent
      rw [here] at absent
      cases absent
    · rwa [Fields.get?_set_other named]
  | some cell =>
    have at_ := (fits.table name).symm.trans found
    have inside := fits.there cell (mem_cells_of_get? at_)
    dsimp only
    rw [if_pos inside, if_pos (show (some cell).isSome = true from rfl)]
    refine ⟨top, extends_refl top, ⟨fits.table, fits.distinct, fun c member => ?_⟩, ?_⟩
    · rw [Array.size_setIfInBounds]
      exact fits.there c member
    · refine map_eq_update ?_ (fun c other => ?_) fits.distinct at_
      · unfold value
        rw [Array.getElem?_setIfInBounds_self_of_lt inside]
        rfl
      · unfold value
        rw [Array.getElem?_setIfInBounds_ne other.symm]

/-- A scope of given names is one frame of them. -/
theorem exists_fits_ofList (entries : List (String × Value)) :
    ∃ top, Fits [top] (Scope.ofList entries) ∧
      frames [top] (Scope.ofList entries).stash = [Fields.ofList entries] := by
  suffices h : ∀ (entries : List (String × Value)) (scope : Scope) (frame : List (String × Value)) (top),
      Fits [top] scope → frames [top] scope.stash = [frame] →
      ∃ top, Fits [top] (entries.foldl (fun scope e => scope.set e.1 e.2) scope) ∧
        frames [top] (entries.foldl (fun scope e => scope.set e.1 e.2) scope).stash =
          [entries.foldl (fun frame e => Fields.set e.1 e.2 frame) frame] from
    h entries Scope.empty [] [] ⟨fun _ => rfl, List.nodup_nil, fun _ member => absurd member List.not_mem_nil⟩ rfl
  intro entries
  induction entries with
  | nil => exact fun scope frame top fits shown => ⟨top, fits, shown⟩
  | cons e entries ih =>
    intro scope frame top fits shown
    obtain ⟨top', -, fits', shown'⟩ := fits.set e.1 e.2
    refine ih _ _ top' fits' (shown'.trans ?_)
    rw [shown]
    -- On a single frame it makes no difference whether the name is known.
    unfold Stack.assign Stack.update Stack.declare
    rw [Stack.get?_singleton]
    by_cases has : (Fields.get? e.1 frame).isSome = true
    · rw [if_pos has, show Fields.has e.1 frame = true from has]
      rfl
    · rw [if_neg has]

end Fits
end Layout
end PromptScript
