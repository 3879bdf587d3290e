import PromptScript.Proofs.IndexTexts
import PromptScript.Proofs.Places

/-! # Members that can be written

Whether a value has a member of its own is asked of the key itself where the value is an array, while reading and writing
go by the text of the key. The two agree for keys that are strings, and for those that are numbers, since a double is
written as an index just if it is one; in an array of more than `2 ^ 53` items, which no memory holds, there would be items
that doubles skip. Any other key is overlooked: an array has no member of its own for it, though its text may be the index
of an item that is read and written. -/
namespace PromptScript

namespace Value

open Number

/-! ## Keys -/

theorem isIndexBelow_iff {n : Nat} {x : Float} : isIndexBelow n x = true ↔ ∃ i < n, StandsFor (Real64.ofFloat x) i := by
  unfold isIndexBelow isWhole truncate?
  cases finite : Real64.ofFloat x with
  | nan | infinite => exact ⟨nofun, fun ⟨_, _, stands⟩ => stands.elim⟩
  | finite negative m e =>
    have cut (above : negative = true → m = 0) :
        (if negative then -(Real64.scale m e : Int) else Real64.scale m e).toNat = Real64.scale m e := by
      cases negative with
      | false => rfl
      | true =>
        obtain rfl := above rfl
        have none : Real64.scale 0 e = 0 := by simp [Real64.scale]
        rw [none]
        rfl
    dsimp only
    rw [Bool.and_eq_true, Bool.and_eq_true, decide_eq_true_eq, decide_eq_true_eq, nonneg_iff finite]
    constructor
    · rintro ⟨⟨whole, above⟩, below⟩
      rw [cut above] at below
      exact ⟨_, below, above, natural_iff.mpr ⟨whole, rfl⟩⟩
    · rintro ⟨i, below, above, same⟩
      obtain ⟨whole, rfl⟩ := natural_iff.mp same
      rw [cut above]
      exact ⟨⟨whole, above⟩, below⟩

/-- A number is an index below the length of an array just if its text is, unless the array is longer than doubles
count. -/
theorem isIndexBelow_iff_text {n : Nat} (counted : n ≤ 2 ^ 53) {x : Float} :
    isIndexBelow n x = true ↔ ∃ i, indexOfKey? (number x).toText = some i ∧ i < n := by
  have text : indexOfKey? (number x).toText = readIndex? (inText.write x) := by
    show readIndex? (String.ofList (inText.write x)).toList = _
    rw [String.toList_ofList]
  rw [isIndexBelow_iff, text]
  constructor
  · rintro ⟨i, below, stands⟩
    exact ⟨i, (readIndex?_write_iff (by omega)).mpr stands, below⟩
  · rintro ⟨i, read, below⟩
    exact ⟨i, below, (readIndex?_write_iff (by omega)).mp read⟩

/-- An item of an array is named by the text of a key that is neither a number nor a string. -/
def Overlooked (o k : Value) : Prop :=
  ∃ items i, o = array items ∧ (∀ x, k ≠ number x) ∧ (∀ s, k ≠ string s) ∧ indexOfKey? k.toText = some i ∧
    i < items.length

/-- A member is there under a key. -/
def There (o k : Value) : Prop := ∃ s w, o.step? k = some s ∧ o.child? s = some w

variable {o k v o' : Value}

theorem there_object {fields : List (String × Value)} : There (object fields) k ↔ Fields.has k.toText fields = true := by
  unfold Fields.has
  rw [Option.isSome_iff_exists]
  exact ⟨fun ⟨_, w, step, there⟩ => by cases step; exact ⟨w, there⟩, fun ⟨w, there⟩ => ⟨_, w, rfl, there⟩⟩

theorem there_array {items : List Value} :
    There (array items) k ↔ ∃ i, indexOfKey? k.toText = some i ∧ i < items.length := by
  constructor
  · rintro ⟨s, w, step, there⟩
    obtain ⟨i, index, rfl⟩ := Option.map_eq_some_iff.mp step
    exact ⟨i, index, (List.getElem?_eq_some_iff.mp there).1⟩
  · rintro ⟨i, index, inside⟩
    exact ⟨.item i, items[i], by simp [step?, index], List.getElem?_eq_getElem inside⟩

/-- A member is written if it is there. -/
theorem setOwn?_eq_bind (o k v : Value) :
    o.setOwn? k v = (o.step? k).bind fun s => (o.child? s).map fun _ => o.setChild s v := by
  cases o with
  | object fields =>
    show (if (Fields.get? k.toText fields).isSome then _ else _) = (Fields.get? k.toText fields).map _
    cases Fields.get? k.toText fields <;> rfl
  | array items =>
    have named : (array items).step? k = (indexOfKey? k.toText).map .item := rfl
    rw [named]
    unfold setOwn?
    dsimp only
    cases indexOfKey? k.toText with
    | none => rfl
    | some i =>
      show (if i < items.length then _ else _) = (items[i]?).map _
      by_cases inside : i < items.length
      · rw [if_pos inside, List.getElem?_eq_getElem inside]
        rfl
      · rw [if_neg inside, List.getElem?_eq_none (Nat.not_lt.mp inside)]
        rfl
  | _ => rfl

theorem setOwn?_eq_some_iff : o.setOwn? k v = some o' ↔
    ∃ s w, o.step? k = some s ∧ o.child? s = some w ∧ o.setChild s v = o' := by
  simp only [setOwn?_eq_bind, Option.bind_eq_some_iff, Option.map_eq_some_iff, exists_and_left]

/-- Which members are there: those of its own, and those that are overlooked. -/
theorem there_iff (counted : ∀ items x, o = array items → k = number x → items.length ≤ 2 ^ 53) :
    There o k ↔ o.hasOwn k = true ∨ Overlooked o k := by
  have asked (none : ∀ items, o ≠ array items) : ¬ Overlooked o k := fun ⟨items, _, same, _⟩ => none items same
  cases o with
  | object fields =>
    rw [there_object, or_iff_left (asked nofun)]
    rfl
  | array items =>
    rw [there_array]
    cases k with
    | number x =>
      have asked : ¬ Overlooked (array items) (number x) := fun ⟨_, _, _, other, _⟩ => other x rfl
      rw [or_iff_left asked]
      exact (isIndexBelow_iff_text (counted items x rfl rfl)).symm
    | string s =>
      have asked : ¬ Overlooked (array items) (string s) := fun ⟨_, _, _, _, other, _⟩ => other s rfl
      rw [or_iff_left asked]
      show _ ↔ (indexOfKey? s).any (· < items.length) = true
      rw [Option.any_eq_true]
      simp only [decide_eq_true_eq]
      rfl
    | _ =>
      -- About any other key an array is not asked at all.
      rw [or_iff_right (by exact Bool.false_ne_true)]
      exact ⟨fun ⟨i, index, inside⟩ => ⟨items, i, rfl, nofun, nofun, index, inside⟩,
        fun ⟨_, i, same, _, _, index, inside⟩ => ⟨i, index, by cases same; exact inside⟩⟩
  | _ =>
    rw [or_iff_left (asked nofun)]
    exact ⟨fun ⟨_, _, step, _⟩ => (nomatch step), nofun⟩

/-- No key is overlooked that an array has a member of its own for. -/
theorem Overlooked.hasOwn_eq_false (overlooked : Overlooked o k) : o.hasOwn k = false := by
  obtain ⟨items, i, rfl, unnumbered, unspelt, -, -⟩ := overlooked
  cases k with
  | number x => exact absurd rfl (unnumbered x)
  | string s => exact absurd rfl (unspelt s)
  | _ => rfl

/-! ## Writes -/

/-- A write leaves every member where it is. -/
theorem hasOwn_setChild {s : Step} {w : Value} (there : o.child? s = some w) (v key : Value) :
    (o.setChild s v).hasOwn key = o.hasOwn key := by
  cases o with
  | object fields =>
    cases s with
    | item i => rfl
    | field name =>
      show (Fields.get? key.toText (Fields.set name v fields)).isSome = (Fields.get? key.toText fields).isSome
      by_cases same : key.toText = name
      · have there : Fields.get? name fields = some w := there
        rw [same, Fields.get?_set_same, there]
        rfl
      · rw [Fields.get?_set_other same]
  | array items =>
    cases s with
    | field name => rfl
    | item i => cases key <;> simp [setChild, hasOwn]
  | _ => rfl

/-- A member of a value is written anew, and nothing else. -/
structure WritesOwn (o k v o' : Value) : Prop where
  reads : ∀ identity, o'.getMember? identity k = some v
  members : o.SameMembers o'
  own : ∀ key, o'.hasOwn key = o.hasOwn key
  others : ∀ key, o.step? key ≠ o.step? k → ∀ s w, o.step? key = some s → o.child? s = some w →
    o'.child? s = some w ∧ ∀ identity, o'.getMember? identity key = some w

theorem writesOwn_of_setOwn? (set : o.setOwn? k v = some o') : WritesOwn o k v o' := by
  obtain ⟨s, w, step, there, rfl⟩ := setOwn?_eq_some_iff.mp set
  have same (key : Value) : (o.setChild s v).step? key = o.step? key := step?_setChild o s v key
  refine ⟨getMember?_eq ((same k).trans step) (child?_setChild_same there v), sameMembers_setChild there v,
    hasOwn_setChild there v, fun key apart s' w' step' there' => ?_⟩
  have apart : s' ≠ s := fun h => apart (by rw [step', step, h])
  have kept : (o.setChild s v).child? s' = some w' := (child?_setChild_other apart o v).trans there'
  exact ⟨kept, getMember?_eq ((same key).trans step') kept⟩

/-- **A member is written just if it is a member of its own or is overlooked**, and then nothing else is: the key reads what
was written, every other key reads what it did, and what members there are stays. -/
theorem own_members (o k v : Value) (counted : ∀ items x, o = array items → k = number x → items.length ≤ 2 ^ 53) :
    ((∃ o', o.setOwn? k v = some o') ↔ o.hasOwn k = true ∨ Overlooked o k) ∧
      (Overlooked o k → o.hasOwn k = false) ∧ ∀ o', o.setOwn? k v = some o' → WritesOwn o k v o' := by
  refine ⟨?_, Overlooked.hasOwn_eq_false, fun o' set => writesOwn_of_setOwn? set⟩
  rw [← there_iff counted]
  constructor
  · rintro ⟨o', set⟩
    obtain ⟨s, w, step, there, -⟩ := setOwn?_eq_some_iff.mp set
    exact ⟨s, w, step, there⟩
  · rintro ⟨s, w, step, there⟩
    exact ⟨_, setOwn?_eq step there v⟩

/-- A number names an item. -/
theorem own_members_of_number : ∃ o', setOwn? (array [null, bool true]) (number 1) (bool false) = some o' ∧
    WritesOwn (array [null, bool true]) (number 1) (bool false) o' := by
  have all := own_members (array [null, bool true]) (number 1) (bool false) (by rintro _ _ ⟨⟩ -; decide)
  have own : hasOwn (array [null, bool true]) (number 1) = true := by decide +kernel
  obtain ⟨o', set⟩ := all.1.mpr (.inl own)
  exact ⟨o', set, all.2.2 o' set⟩

/-- An array in the place of a key is overlooked. -/
theorem array_is_overlooked : ¬ ∀ o k v : Value, (∃ o', o.setOwn? k v = some o') ↔ o.hasOwn k = true := by
  intro agree
  have index : indexOfKey? (array [number 0]).toText = some 0 := by decide +kernel
  have own : hasOwn (array [number 1]) (array [number 0]) = true :=
    (agree _ _ (number 2)).mp ⟨_, setOwn?_eq (s := .item 0) (w := number 1) (by simp [step?, index]) rfl _⟩
  cases own

end Value
end PromptScript
