import Mathlib.Data.List.Perm.Subperm
import PromptScript.Proofs.ChatEntries
import PromptScript.Proofs.Equality

/-! # Coherent equality

Strict equality is symmetric and transitive, and every value equals itself that has no NaN in it. It takes objects for
maps: what order their fields are in does not matter, however deep they lie. Loose equality is symmetric, and holds
where strict equality does. Lists of fields stand for maps just if no name is in them twice, as in every object. -/
namespace PromptScript

/-! ## Doubles -/

namespace Number

open Float.Model Float.Model.UnpackedFloat

/-- A double taken apart, without the sign of a zero. -/
def dropSign : UnpackedFloat → UnpackedFloat
  | .zero _ => .zero .positive
  | a => a

/-- Two doubles compare as equal if they are one and the same but for the sign of a zero, and no NaN. -/
theorem compare_eq_iff {a b : UnpackedFloat} :
    a.compare b = some .eq ↔ a.isNaN = false ∧ dropSign a = dropSign b := by
  cases a with
  | notANumber => exact ⟨nofun, nofun⟩
  | zero s =>
    cases b with
    | notANumber => exact ⟨nofun, nofun⟩
    | zero t => exact ⟨fun _ => ⟨rfl, rfl⟩, fun _ => rfl⟩
    | infinity t | finite t _ _ _ => cases t <;> exact ⟨nofun, nofun⟩
  | infinity s =>
    cases b with
    | infinity t => cases s <;> cases t <;> first | exact ⟨fun _ => ⟨rfl, rfl⟩, fun _ => rfl⟩ | exact ⟨nofun, nofun⟩
    | notANumber | zero _ | finite _ _ _ _ => cases s <;> exact ⟨nofun, nofun⟩
  | finite s m e _ =>
    cases b with
    | infinity t => cases s <;> cases t <;> exact ⟨nofun, nofun⟩
    | notANumber | zero _ => cases s <;> exact ⟨nofun, nofun⟩
    | finite t n f _ =>
      -- With one sign they compare by their exponents, and then by their mantissas.
      have parts : (compare e f).then (compare m n) = .eq ↔ e = f ∧ m = n := by
        rw [Ordering.then_eq_eq, Int.compare_eq_eq, Nat.compare_eq_eq]
      cases s with
      | negative =>
        cases t with
        | positive => exact ⟨nofun, nofun⟩
        | negative =>
          refine ⟨fun same => ?_, fun ⟨_, same⟩ => ?_⟩
          · obtain ⟨rfl, rfl⟩ := parts.mp (Ordering.swap_eq_eq.mp (Option.some.inj same))
            exact ⟨rfl, rfl⟩
          · obtain ⟨_, rfl, rfl⟩ := finite.inj same
            exact congrArg (fun o => some o.swap) (parts.mpr ⟨rfl, rfl⟩)
      | positive =>
        cases t with
        | negative => exact ⟨nofun, nofun⟩
        | positive =>
          refine ⟨fun same => ?_, fun ⟨_, same⟩ => ?_⟩
          · obtain ⟨rfl, rfl⟩ := parts.mp (Option.some.inj same)
            exact ⟨rfl, rfl⟩
          · obtain ⟨_, rfl, rfl⟩ := finite.inj same
            exact congrArg some (parts.mpr ⟨rfl, rfl⟩)

theorem beq_iff {x y : Float} :
    (x == y) = true ↔ x.isNaN = false ∧ dropSign x.toModel.unpack = dropSign y.toModel.unpack := by
  show (x.toModel.unpack.compare y.toModel.unpack == some .eq) = true ↔ _
  rw [beq_iff_eq, compare_eq_iff]
  rfl

theorem isNaN_eq_of_dropSign {a b : UnpackedFloat} (same : dropSign a = dropSign b) : a.isNaN = b.isNaN := by
  have kept (a : UnpackedFloat) : (dropSign a).isNaN = a.isNaN := by cases a <;> rfl
  rw [← kept a, same, kept b]

theorem beq_symm {x y : Float} (same : (x == y) = true) : (y == x) = true := by
  obtain ⟨number, alike⟩ := beq_iff.mp same
  exact beq_iff.mpr ⟨(isNaN_eq_of_dropSign alike).symm.trans number, alike.symm⟩

theorem beq_comm (x y : Float) : (x == y) = (y == x) := Bool.eq_iff_iff.mpr ⟨beq_symm, beq_symm⟩

theorem beq_trans {x y z : Float} (first : (x == y) = true) (second : (y == z) = true) : (x == z) = true := by
  obtain ⟨number, alike⟩ := beq_iff.mp first
  exact beq_iff.mpr ⟨number, alike.trans (beq_iff.mp second).2⟩

/-- A double equals itself just if it is no NaN. -/
theorem beq_self_iff {x : Float} : (x == x) = true ↔ x.isNaN = false := beq_iff.trans (and_iff_left rfl)

end Number

/-! ## Fields as maps -/

namespace Fields

variable {α β : Type}

theorem mem_of_get? {name : String} {value : α} {fields : List (String × α)} (found : get? name fields = some value) :
    (name, value) ∈ fields := by
  induction fields with
  | nil => cases found
  | cons e r ih =>
    obtain ⟨k, v⟩ := e
    by_cases same : k = name
    · obtain rfl := Option.some.inj ((if_pos same).symm.trans found)
      exact same ▸ List.mem_cons_self
    · exact List.mem_cons_of_mem _ (ih ((if_neg same).symm.trans found))

/-- As many names, none of them twice, all of which are among others, are these others. -/
theorem perm_names {fields : List (String × α)} {others : List (String × β)} (once : (names fields).Nodup)
    (length : fields.length = others.length) (inside : ∀ name ∈ names fields, name ∈ names others) :
    (names fields).Perm (names others) := by
  refine (List.subperm_of_subset once inside).perm_of_length_le ?_
  rw [names, names, List.length_map, List.length_map]
  exact length ▸ Nat.le_refl _

/-- Whether a name is found is the same in two maps. -/
theorem isSome_of_rel {equal : α → β → Prop} {a : Option α} {b : Option β} (rel : Option.Rel equal a b) :
    a.isSome = b.isSome := by
  cases rel <;> rfl

theorem rel_flip {equal : α → β → Prop} {flipped : β → α → Prop} {a : Option α} {b : Option β}
    (rel : Option.Rel equal a b) (flip : ∀ x y, a = some x → b = some y → equal x y → flipped y x) :
    Option.Rel flipped b a := by
  cases rel with
  | none => exact .none
  | some here => exact .some (flip _ _ rfl rfl here)

/-- **Fields that are as many and are found among others are the same map**, if no name is in either twice. -/
theorem forall_found_iff {equal : α → β → Prop} {fields : List (String × α)} {others : List (String × β)}
    (once : (names fields).Nodup) (once' : (names others).Nodup) :
    (fields.length = others.length ∧ ∀ e ∈ fields, ∃ y, get? e.1 others = some y ∧ equal e.2 y) ↔
      ∀ name, Option.Rel equal (get? name fields) (get? name others) := by
  constructor
  · rintro ⟨length, found⟩ name
    have same := perm_names once length (by
      intro name member
      obtain ⟨e, there, rfl⟩ := List.mem_map.mp member
      obtain ⟨y, first, -⟩ := found e there
      exact List.mem_map_of_mem (mem_of_get? first))
    cases first : get? name fields with
    | none =>
      have absent := get?_eq_none_iff.mp first
      rw [get?_eq_none_iff.mpr fun member => absent (same.mem_iff.mpr member)]
      exact .none
    | some x =>
      obtain ⟨y, second, equal⟩ := found (name, x) (mem_of_get? first)
      rw [second]
      exact .some equal
  · intro rel
    have members (name : String) : name ∈ names fields ↔ name ∈ names others := by
      rw [← not_iff_not, ← get?_eq_none_iff, ← get?_eq_none_iff, ← Option.not_isSome_iff_eq_none,
        ← Option.not_isSome_iff_eq_none, isSome_of_rel (rel name)]
    refine ⟨?_, fun e member => ?_⟩
    · have same := ((List.perm_ext_iff_of_nodup once once').mpr members).length_eq
      rwa [names, names, List.length_map, List.length_map] at same
    · have here := rel e.1
      rw [get?_of_mem once member] at here
      cases second : get? e.1 others with
      | none =>
        rw [second] at here
        cases here
      | some y =>
        rw [second] at here
        cases here with
        | some equal => exact ⟨y, rfl, equal⟩

/-- The order of fields does not matter to a map. -/
theorem get?_perm {fields others : List (String × α)} (once : (names fields).Nodup) (same : fields.Perm others)
    (name : String) : get? name fields = get? name others := by
  have once' : (names others).Nodup := (same.map Prod.fst).nodup_iff.mp once
  cases first : get? name fields with
  | none =>
    have absent := get?_eq_none_iff.mp first
    exact (get?_eq_none_iff.mpr fun member => absent ((same.map Prod.fst).mem_iff.mpr member)).symm
  | some x => exact (get?_of_mem once' (same.mem_iff.mp (mem_of_get? first))).symm

end Fields

namespace Value

/-! ## Strict equality -/

/-- What holds of an array or an object if it holds of all its members, and of every other value, holds of all values. -/
@[elab_as_elim]
theorem memberwise {motive : Value → Prop} (array : ∀ items, (∀ v ∈ items, motive v) → motive (.array items))
    (object : ∀ fields, (∀ e ∈ fields, motive e.2) → motive (.object fields))
    (other : ∀ v, (∀ items, v ≠ .array items) → (∀ fields, v ≠ .object fields) → motive v) : ∀ v : Value, motive v
  | .array items => array items fun v _ => memberwise array object other v
  | .object fields => object fields fun e member => by
    have smaller := List.sizeOf_lt_of_mem member
    have inside : sizeOf e.2 < sizeOf e := by
      obtain ⟨k, v⟩ := e
      simp only [Prod.mk.sizeOf_spec]
      omega
    exact memberwise array object other e.2
  | undefined | null | bool _ | number _ | string _ | date _ | callable _ | method _ _ _ => other _ nofun nofun

theorem everyField_iff {test : Value → Bool} {fields : List (String × Value)} :
    everyField test fields = true ↔ ∀ e ∈ fields, e.2.everywhere test = true := by
  induction fields with
  | nil => exact ⟨fun _ => List.forall_mem_nil _, fun _ => rfl⟩
  | cons e r ih =>
    rw [List.forall_mem_cons, ← ih]
    exact Bool.and_eq_true_iff

/-- How two values look that are strictly equal, given which of their members are. -/
inductive Alike (equal : Value → Value → Prop) : Value → Value → Prop where
  | undefined : Alike equal undefined undefined
  | null : Alike equal null null
  | bool (b : Bool) : Alike equal (bool b) (bool b)
  | number {x y : Float} (same : (x == y) = true) : Alike equal (number x) (number y)
  | string (s : String) : Alike equal (string s) (string s)
  | array {vs ws : List Value} (items : List.Forall₂ equal vs ws) : Alike equal (array vs) (array ws)
  | object {fields others : List (String × Value)} (length : fields.length = others.length)
      (found : ∀ e ∈ fields, ∃ w, Fields.get? e.1 others = some w ∧ equal e.2 w) :
      Alike equal (object fields) (object others)
  | date (millis : Int) : Alike equal (date millis) (date millis)
  | callable (identity : Nat) : Alike equal (callable identity) (callable identity)
  | method (identity : Nat) (v w : Value) (b c : Builtin) : Alike equal (method identity v b) (method identity w c)

/-- The relation of strict equality. -/
def Equals (v w : Value) : Prop := v.strictEquals w = true

theorem equalItems_iff {vs ws : List Value} : equalItems vs ws = true ↔ List.Forall₂ Equals vs ws := by
  induction vs generalizing ws with
  | nil =>
    cases ws with
    | nil => exact ⟨fun _ => .nil, fun _ => rfl⟩
    | cons _ _ => exact ⟨nofun, nofun⟩
  | cons v r ih =>
    cases ws with
    | nil => exact ⟨nofun, nofun⟩
    | cons w s =>
      rw [List.forall₂_cons, ← ih]
      exact Bool.and_eq_true_iff

theorem equalFields_iff {fields others : List (String × Value)} :
    equalFields fields others = true ↔ ∀ e ∈ fields, ∃ w, Fields.get? e.1 others = some w ∧ Equals e.2 w := by
  induction fields with
  | nil => exact ⟨fun _ => List.forall_mem_nil _, fun _ => rfl⟩
  | cons e r ih =>
    rw [List.forall_mem_cons, ← ih]
    refine Bool.and_eq_true_iff.trans (and_congr_left' ?_)
    cases Fields.get? e.1 others with
    | none => simp
    | some w => simp [Equals]

/-- **Strict equality goes by kind, and by members.** -/
theorem equals_iff {v w : Value} : Equals v w ↔ Alike Equals v w := by
  constructor
  · intro same
    unfold Equals strictEquals at same
    split at same
    · exact .undefined
    · exact .null
    · exact eq_of_beq same ▸ .bool _
    · exact .number same
    · exact eq_of_beq same ▸ .string _
    · exact .array (equalItems_iff.mp same)
    · obtain ⟨length, found⟩ := Bool.and_eq_true_iff.mp same
      exact .object (eq_of_beq length) (equalFields_iff.mp found)
    · exact eq_of_beq same ▸ .date _
    · exact eq_of_beq same ▸ .callable _
    · exact eq_of_beq same ▸ .method _ _ _ _ _
    · cases same
  · intro alike
    cases alike with
    | undefined | null => rfl
    | bool | string | date | callable | method => exact beq_self_eq_true _
    | number same => exact same
    | array items => exact equalItems_iff.mpr items
    | object length found => exact Bool.and_eq_true_iff.mpr ⟨beq_iff_eq.mpr length, equalFields_iff.mpr found⟩

/-- Items that are related one by one are so in another way too. -/
theorem forall₂_imp_of_mem {R S : Value → Value → Prop} {vs ws : List Value}
    (imp : ∀ v ∈ vs, ∀ w ∈ ws, R v w → S v w) (all : List.Forall₂ R vs ws) : List.Forall₂ S vs ws := by
  induction all with
  | nil => exact .nil
  | cons here _ ih =>
    refine .cons (imp _ List.mem_cons_self _ List.mem_cons_self here) (ih fun v inside w there => ?_)
    exact imp v (List.mem_cons_of_mem _ inside) w (List.mem_cons_of_mem _ there)

theorem forall₂_trans_of_mem {R : Value → Value → Prop} {us vs ws : List Value}
    (trans : ∀ u ∈ us, ∀ v w, R u v → R v w → R u w) (first : List.Forall₂ R us vs) (second : List.Forall₂ R vs ws) :
    List.Forall₂ R us ws := by
  induction first generalizing ws with
  | nil =>
    cases second
    exact .nil
  | cons here _ ih =>
    cases second with
    | cons there more =>
      obtain ⟨least, others⟩ := List.forall_mem_cons.mp trans
      exact .cons (least _ _ here there) (ih others more)

/-- **Strict equality is transitive.** -/
theorem Equals.trans {u v w : Value} (first : Equals u v) (second : Equals v w) : Equals u w := by
  induction u using memberwise generalizing v w with
  | array items ih =>
    cases equals_iff.mp first with
    | array here =>
      cases equals_iff.mp second with
      | array there => exact equals_iff.mpr (.array (forall₂_trans_of_mem (fun u member v w => ih u member) here there))
  | object fields ih =>
    cases equals_iff.mp first with
    | object length found =>
      cases equals_iff.mp second with
      | object length' found' =>
        refine equals_iff.mpr (.object (length.trans length') fun e member => ?_)
        obtain ⟨v, inside, same⟩ := found e member
        obtain ⟨w, there, same'⟩ := found' (e.1, v) (Fields.mem_of_get? inside)
        exact ⟨w, there, ih e member same same'⟩
  | other u notArray notObject =>
    cases equals_iff.mp first with
    | array => exact absurd rfl (notArray _)
    | object => exact absurd rfl (notObject _)
    | number same =>
      cases equals_iff.mp second with
      | number same' => exact equals_iff.mpr (.number (Number.beq_trans same same'))
    | undefined | null | bool | string | date | callable => exact second
    | method =>
      cases equals_iff.mp second with
      | method => exact equals_iff.mpr (.method ..)

/-- No object in the value has a name twice: it stands for a value that a program can have. -/
abbrev IsNamed (v : Value) : Prop := v.everywhere hasOwnNames = true

theorem IsNamed.item {items : List Value} (named : IsNamed (array items)) {v : Value} (member : v ∈ items) : IsNamed v :=
  everyItem_iff.mp (show everyItem hasOwnNames items = true from named) v member

theorem IsNamed.once {fields : List (String × Value)} (named : IsNamed (object fields)) : (Fields.names fields).Nodup :=
  of_decide_eq_true (Bool.and_eq_true_iff.mp named).1

theorem IsNamed.field {fields : List (String × Value)} (named : IsNamed (object fields)) {k : String} {v : Value}
    (found : Fields.get? k fields = some v) : IsNamed v :=
  everyField_iff.mp (Bool.and_eq_true_iff.mp named).2 (k, v) (Fields.mem_of_get? found)

/-- **Objects are equal as maps are**: under every name they have values that are equal, or none. -/
theorem equals_object_iff {fields others : List (String × Value)} (named : IsNamed (object fields))
    (named' : IsNamed (object others)) : Equals (object fields) (object others) ↔
      ∀ k, Option.Rel Equals (Fields.get? k fields) (Fields.get? k others) := by
  rw [← Fields.forall_found_iff named.once named'.once, equals_iff]
  constructor
  · intro alike
    cases alike with
    | object length found => exact ⟨length, found⟩
  · rintro ⟨length, found⟩
    exact .object length found

/-- **Strict equality is symmetric.** -/
theorem Equals.symm {v w : Value} (named : IsNamed v) (named' : IsNamed w) (same : Equals v w) : Equals w v := by
  induction v using memberwise generalizing w with
  | array items ih =>
    cases equals_iff.mp same with
    | array all =>
      refine equals_iff.mpr (.array (List.Forall₂.flip (forall₂_imp_of_mem (fun v inside w there here => ?_) all)))
      exact ih v inside (named.item inside) (named'.item there) here
  | object fields ih =>
    cases equals_iff.mp same with
    | object =>
      refine (equals_object_iff named' named).mpr fun k => ?_
      refine Fields.rel_flip ((equals_object_iff named named').mp same k) fun v w first second here => ?_
      exact ih (k, v) (Fields.mem_of_get? first) (named.field first) (named'.field second) here
  | other v notArray notObject =>
    cases equals_iff.mp same with
    | array => exact absurd rfl (notArray _)
    | object => exact absurd rfl (notObject _)
    | number same => exact equals_iff.mpr (.number (Number.beq_symm same))
    | undefined | null | bool | string | date | callable => exact same
    | method => exact equals_iff.mpr (.method ..)

/-- Whether a value, whatever is in it, is no NaN. -/
def isNotNaN : Value → Bool
  | number x => !x.isNaN
  | _ => true

/-- **A value equals itself just if no NaN is in it.** -/
theorem equals_self_iff {v : Value} (named : IsNamed v) : Equals v v ↔ v.everywhere isNotNaN = true := by
  induction v using memberwise with
  | array items ih =>
    show equalItems items items = true ↔ everyItem isNotNaN items = true
    rw [equalItems_iff, List.forall₂_same, everyItem_iff]
    exact forall₂_congr fun v member => ih v member (named.item member)
  | object fields ih =>
    show Equals (object fields) (object fields) ↔ everyField isNotNaN fields = true
    rw [everyField_iff, equals_iff]
    have found (e : String × Value) (member : e ∈ fields) := Fields.get?_of_mem named.once member
    constructor
    · intro alike e member
      cases alike with
      | object _ all =>
        obtain ⟨w, there, same⟩ := all e member
        obtain rfl := Option.some.inj ((found e member).symm.trans there)
        exact (ih e member (named.field there)).mp same
    · intro numbers
      refine .object rfl fun e member => ⟨e.2, found e member, ?_⟩
      exact (ih e member (named.field (found e member))).mpr (numbers e member)
  | other v notArray notObject =>
    cases v with
    | array items => exact absurd rfl (notArray items)
    | object fields => exact absurd rfl (notObject fields)
    | number x =>
      show (x == x) = true ↔ (!x.isNaN) = true
      rw [Number.beq_self_iff, Bool.not_eq_true']
    | undefined | null => exact ⟨fun _ => rfl, fun _ => rfl⟩
    | bool | string | date | callable | method => exact ⟨fun _ => rfl, fun _ => beq_self_eq_true _⟩

/-- The second value is the first with the fields of some objects in it, at any depth, in another order. -/
inductive Reordered : Value → Value → Prop where
  | refl (v : Value) : Reordered v v
  | trans {u v w : Value} (first : Reordered u v) (second : Reordered v w) : Reordered u w
  | fields {fields others : List (String × Value)} (same : fields.Perm others) : Reordered (object fields) (object others)
  | item {v w : Value} (inside : Reordered v w) (before after : List Value) :
      Reordered (array (before ++ v :: after)) (array (before ++ w :: after))
  | field {v w : Value} (inside : Reordered v w) (k : String) (before after : List (String × Value)) :
      Reordered (object (before ++ (k, v) :: after)) (object (before ++ (k, w) :: after))

theorem Reordered.symm {v w : Value} (reordered : Reordered v w) : Reordered w v := by
  induction reordered with
  | refl v => exact .refl v
  | trans _ _ ih ih' => exact .trans ih' ih
  | fields same => exact .fields same.symm
  | item _ before after ih => exact .item ih before after
  | field _ k before after ih => exact .field ih k before after

theorem forall₂_replace {R : Value → Value → Prop} {v v' : Value} (imp : ∀ w, R v w → R v' w) {before after ws : List Value}
    (all : List.Forall₂ R (before ++ v :: after) ws) : List.Forall₂ R (before ++ v' :: after) ws := by
  induction before generalizing ws with
  | nil =>
    cases all with
    | cons here more => exact .cons (imp _ here) more
  | cons b r ih =>
    cases all with
    | cons here more => exact .cons here (ih more)

theorem Equals.of_reordered {v v' w : Value} (reordered : Reordered v v') (same : Equals v w) : Equals v' w := by
  induction reordered generalizing w with
  | refl => exact same
  | trans _ _ ih ih' => exact ih' (ih same)
  | fields perm =>
    cases equals_iff.mp same with
    | object length found =>
      exact equals_iff.mpr (.object (perm.length_eq ▸ length) fun e member => found e (perm.mem_iff.mpr member))
  | item _ before after ih =>
    cases equals_iff.mp same with
    | array all => exact equals_iff.mpr (.array (forall₂_replace (fun w => ih) all))
  | field _ k before after ih =>
    cases equals_iff.mp same with
    | object length found =>
      obtain ⟨first, found⟩ := List.forall_mem_append.mp found
      obtain ⟨⟨w, there, here⟩, last⟩ := List.forall_mem_cons.mp found
      refine equals_iff.mpr (.object (by simpa using length) (List.forall_mem_append.mpr ⟨first, ?_⟩))
      exact List.forall_mem_cons.mpr ⟨⟨w, there, ih here⟩, last⟩

/-- **The order of fields does not matter to strict equality**, at any depth. -/
theorem Reordered.equals_iff {v v' : Value} (reordered : Reordered v v') (w : Value) : Equals v' w ↔ Equals v w :=
  ⟨.of_reordered reordered.symm, .of_reordered reordered⟩

/-- **A function equals only itself.** -/
theorem equals_callable_iff {identity : Nat} {v : Value} : Equals (callable identity) v ↔ v = callable identity := by
  constructor
  · intro same
    cases equals_iff.mp same
    rfl
  · rintro rfl
    exact equals_iff.mpr (.callable identity)

/-- A method equals only what was read together with it. -/
theorem equals_method_iff {identity : Nat} {receiver v : Value} {builtin : Builtin} :
    Equals (method identity receiver builtin) v ↔ ∃ w b, v = method identity w b := by
  constructor
  · intro same
    cases equals_iff.mp same
    exact ⟨_, _, rfl⟩
  · rintro ⟨w, b, rfl⟩
    exact equals_iff.mpr (.method ..)

/-! ## Loose equality -/

/-- What two values are brought to before loose equality compares them. -/
inductive Ground where
  | nothing | number | text | itself
  deriving DecidableEq

/-- The common ground of two values. -/
def ground (v w : Value) : Ground :=
  if v.isNullish || w.isNullish then .nothing
  else match v, w with
    | bool _, _ | _, bool _ => .number
    | number _, string _ | string _, number _ => .number
    | array _, number _ | object _, number _ | number _, array _ | number _, object _ => .number
    | array _, string _ | object _, string _ | date _, string _ => .text
    | string _, array _ | string _, object _ | string _, date _ => .text
    | _, _ => .itself

theorem ground_comm (v w : Value) : ground v w = ground w v := by
  cases v <;> cases w <;> rfl

/-- **Loose equality compares two values on their common ground.** -/
theorem looseEquals_eq (v w : Value) : v.looseEquals w =
    match ground v w with
    | .nothing => v.isNullish && w.isNullish
    | .number => v.toNumber == w.toNumber
    | .text => v.toText == w.toText
    | .itself => v.strictEquals w := by
  cases v <;> cases w <;> rfl

/-- **Loose equality is symmetric.** -/
theorem looseEquals_comm {v w : Value} (named : IsNamed v) (named' : IsNamed w) : v.looseEquals w = w.looseEquals v := by
  rw [looseEquals_eq, looseEquals_eq w, ground_comm w]
  cases ground v w with
  | nothing => exact Bool.and_comm _ _
  | number => exact Number.beq_comm _ _
  | text => exact BEq.comm
  | itself => exact Bool.eq_iff_iff.mpr ⟨Equals.symm named named', Equals.symm named' named⟩

/-- **What is strictly equal is loosely equal.** -/
theorem Equals.loose {v w : Value} (same : Equals v w) : v.looseEquals w = true := by
  cases equals_iff.mp same with
  | undefined | null => rfl
  | bool b => cases b <;> decide +kernel
  | number | string | array | object | date | callable | method => exact same

theorem isNaN_toNumber_callable (identity : Nat) : (callable identity).toNumber.isNaN = true := by
  have none : (0.0 / 0.0 : Float).isNaN = true := by decide +kernel
  exact none

/-- A function is loosely equal only to itself. -/
theorem looseEquals_callable_iff {identity : Nat} {v : Value} :
    (callable identity).looseEquals v = true ↔ v = callable identity := by
  refine ⟨fun same => ?_, fun same => (equals_callable_iff.mpr same).loose⟩
  cases v with
  | bool b =>
    -- As numbers they are not equal: a function is NaN.
    have number := (Number.beq_iff.mp same).1
    rw [isNaN_toNumber_callable] at number
    cases number
  | callable => exact equals_callable_iff.mp same
  | _ => cases same

/-- **Equality is coherent.** Strict equality is symmetric and transitive; a value equals itself just if no NaN is in it;
loose equality is symmetric, and holds of what is strictly equal. Objects are equal as maps are, and what order the
fields in a value have does not matter, at any depth; a function equals only itself. -/
theorem equality_coherent {u v w : Value} (named : IsNamed u) (named' : IsNamed v) :
    u.strictEquals v = v.strictEquals u ∧
    (u.strictEquals v = true → v.strictEquals w = true → u.strictEquals w = true) ∧
    (u.strictEquals u = true ↔ u.everywhere isNotNaN = true) ∧
    u.looseEquals v = v.looseEquals u ∧
    (u.strictEquals v = true → u.looseEquals v = true) ∧
    (∀ fields others, u = object fields → v = object others →
      (u.strictEquals v = true ↔ ∀ k, Option.Rel Equals (Fields.get? k fields) (Fields.get? k others))) ∧
    (∀ u', Reordered u u' → u'.strictEquals v = u.strictEquals v) ∧
    (∀ identity, u = callable identity →
      (u.strictEquals v = true ↔ v = callable identity) ∧ (u.looseEquals v = true ↔ v = callable identity)) ∧
    (∀ identity receiver builtin, u = method identity receiver builtin →
      (u.strictEquals v = true ↔ ∃ r b, v = method identity r b)) := by
  refine ⟨?symmetric, Equals.trans, equals_self_iff named, looseEquals_comm named named', Equals.loose, ?maps, ?orders,
    ?functions, ?methods⟩
  case symmetric => exact Bool.eq_iff_iff.mpr ⟨Equals.symm named named', Equals.symm named' named⟩
  case maps =>
    rintro fields others rfl rfl
    exact equals_object_iff named named'
  case orders => exact fun u' reordered => Bool.eq_iff_iff.mpr (reordered.equals_iff v)
  case functions =>
    rintro identity rfl
    exact ⟨equals_callable_iff, looseEquals_callable_iff⟩
  case methods =>
    rintro identity receiver builtin rfl
    exact equals_method_iff

/-- Two orders of the fields of an object, and of one in a list in it. -/
theorem equality_coherent_of_reordered :
    let inner : List (String × Value) := [("c", null), ("d", string "x")]
    let u := object [("a", number 1), ("b", array [object inner])]
    let v := object [("b", array [object inner.reverse]), ("a", number 1)]
    IsNamed u ∧ IsNamed v ∧ Reordered u v ∧ u.everywhere isNotNaN = true ∧ u.strictEquals u = true ∧
      v.strictEquals u = true ∧ u.strictEquals v = true ∧ u.looseEquals v = true := by
  intro inner u v
  have named : IsNamed u := by decide
  have named' : IsNamed v := by decide
  have numbers : u.everywhere isNotNaN = true := by decide +kernel
  have inside : Reordered (object inner) (object inner.reverse) := .fields (List.reverse_perm inner).symm
  have reordered : Reordered u v :=
    .trans (.field (.item inside [] []) "b" [("a", number 1)] []) (.fields (List.Perm.swap _ _ []))
  obtain ⟨symmetric, -, self, -, loose, -, orders, -⟩ := equality_coherent (w := u) named named'
  have back : v.strictEquals u = true := by
    rw [(equality_coherent (w := u) named named).2.2.2.2.2.2.1 v reordered]
    exact self.mpr numbers
  have forth : u.strictEquals v = true := symmetric.trans back
  exact ⟨named, named', reordered, numbers, self.mpr numbers, back, forth, loose forth⟩

end Value
end PromptScript
