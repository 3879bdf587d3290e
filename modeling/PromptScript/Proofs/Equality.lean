import PromptScript.Proofs.Restored
import PromptScript.Value.Equality

/-! # Values that come back equal

The stored form gives a value back that equals the value, just if nothing in it looks like the mark of undefined.
Equality does not see the sign of zero, which the stored form drops; it gives back the very same value where no zero
has a sign. -/
namespace PromptScript

/-! ## Equality of doubles -/

namespace Number

open Float.Model Float.Model.UnpackedFloat

/-- Whether a double is neither infinite nor NaN. -/
def isFinite (x : Float) : Bool :=
  match Real64.ofFloat x with
  | .finite _ _ _ => true
  | _ => false

/-- The exponent of a double in its bits. -/
theorem toNat_unpackExponent (bits : BitVec Format.binary64.numBits) :
    (@unpackExponent Format.binary64 bits).toNat = bits.toNat / Nat.pow 2 52 % Nat.pow 2 11 := by
  unfold unpackExponent
  rw [BitVec.toNat_cast, BitVec.extractLsb_toNat, Nat.shiftRight_eq_div_pow]
  rfl

/-- A finite double is a number. -/
theorem unpack_ne_notANumber {x : Float} (finite : isFinite x = true) : x.toModel.unpack ≠ .notANumber := by
  have exponent := toNat_unpackExponent x.toModel.toBits.toBitVec
  intro none
  unfold Float.Model.unpack UnpackedFloat.unpack at none
  dsimp only at none
  by_cases ones : @unpackExponent Format.binary64 x.toModel.toBits.toBitVec = -BitVec.ofNat _ 1
  · -- An exponent of ones is that of infinity or NaN.
    rw [ones] at exponent
    have top : x.toBits.toNat / Nat.pow 2 52 % Nat.pow 2 11 = 2047 := exponent.symm
    unfold isFinite Real64.ofFloat Real64.ofBits at finite
    dsimp only at finite
    rw [if_pos top] at finite
    split at finite
    · next special => split at special <;> cases special
    · cases finite
  · rw [if_neg ones] at none
    by_cases low : @unpackExponent Format.binary64 x.toModel.toBits.toBitVec = BitVec.ofNat _ 0
    · rw [if_pos low] at none
      by_cases empty : @unpackMantissa Format.binary64 x.toModel.toBits.toBitVec = BitVec.ofNat _ 0
      · rw [dif_pos empty] at none
        cases none
      · rw [dif_neg empty] at none
        cases none
    · rw [if_neg low] at none
      cases none

theorem compare_self {a : UnpackedFloat} (number : a ≠ .notANumber) : a.compare a = some .eq := by
  cases a with
  | notANumber => exact absurd rfl number
  | infinity s => cases s <;> rfl
  | zero s => cases s <;> rfl
  | finite s m e pos =>
    have same : (compare e e).then (compare m m) = .eq := by simp
    cases s with
    | negative => exact congrArg (fun o => some o.swap) same
    | positive => exact congrArg some same

/-- A finite double equals itself. -/
theorem beq_self {x : Float} (finite : isFinite x = true) : (x == x) = true := by
  have same := compare_self (unpack_ne_notANumber finite)
  show (x.toModel.unpack.compare x.toModel.unpack == some .eq) = true
  rw [same]
  rfl

/-- A finite double that JSON has no number for is negative zero. -/
theorem eq_negativeZero {x : Float} (finite : isFinite x = true) (signed : isPlain x = false) : x = -ofInt 0 := by
  have bits : (-ofInt 0).toBits.toNat = Nat.pow 2 63 := by decide +kernel
  unfold isFinite at finite
  unfold isPlain at signed
  cases form : Real64.ofFloat x with
  | nan | infinite => simp [form] at finite
  | finite negative m e =>
    rw [form] at signed
    obtain ⟨rfl, rfl⟩ : negative = true ∧ m = 0 := by simpa using signed
    refine eq_of_toBits ?_
    rw [bits]
    obtain ⟨-, -, zero⟩ | ⟨least, -⟩ := bits_of_finite x.toBits.toNat_lt form
    · exact zero
    · exact absurd least (by decide)

end Number

namespace Fields

/-- A field is found by its name, if no other field has it. -/
theorem get?_of_mem {α : Type} {fields : List (String × α)} (once : (names fields).Nodup) {e : String × α}
    (member : e ∈ fields) : get? e.1 fields = some e.2 := by
  induction fields with
  | nil => cases member
  | cons f r ih =>
    obtain ⟨new, rest⟩ := List.nodup_cons.mp once
    rcases List.mem_cons.mp member with rfl | later
    · exact if_pos rfl
    · have other : f.1 ≠ e.1 := fun same => new (same ▸ List.mem_map_of_mem later)
      exact (if_neg other).trans (ih rest later)

end Fields

namespace Value

/-! ## Data -/

/-- Whether a value, whatever is in it, is data: it is no function and no date, its number is finite, and its fields
have different names. -/
def isDatum : Value → Bool
  | number x => Number.isFinite x
  | date _ | callable _ | method _ _ _ => false
  | object fields => decide (Fields.names fields).Nodup
  | _ => true

/-- A value that is made of undefined, null, booleans, finite numbers, strings, arrays and objects. -/
def isData (v : Value) : Bool := v.everywhere isDatum

/-! ## The very same value -/

mutual

/-- What comes back from the stored form as it was is lasting. -/
theorem isLasting_of_restored : ∀ v : Value, v.restored = v → v.isLasting = true
  | undefined, _ | null, _ | bool _, _ | string _, _ => rfl
  | number x, kept => by
    have alike : (number x).settled = (number x).restored := by
      show ofJson (Json.ofFloat x) = ofStored (Json.ofFloat x)
      unfold Json.ofFloat
      split
      · dsimp only
        split <;> rfl
      · rfl
    exact (settled_number_eq_iff x).mp (alike.trans kept)
  | array items, kept => everyItem_of_restored items (array.inj kept)
  | object fields, kept => by
    have kept : (if isUndefinedMark (fieldsToStored fields) then undefined
      else object (fieldsOfStored (fieldsToStored fields))) = object fields := kept
    split at kept
    · cases kept
    · exact everyField_of_restored fields (object.inj kept)
  | date _, kept | callable _, kept | method _ _ _, kept => by cases kept

theorem everyItem_of_restored : ∀ vs : List Value, itemsOfStored (itemsToStored vs) = vs → everyItem hasForm vs = true
  | [], _ => rfl
  | v :: r, kept => by
    obtain ⟨here, later⟩ := List.cons.inj kept
    exact (Bool.and_eq_true_iff).mpr ⟨isLasting_of_restored v here, everyItem_of_restored r later⟩

theorem everyField_of_restored : ∀ fields : List (String × Value),
    fieldsOfStored (fieldsToStored fields) = fields → everyField hasForm fields = true
  | [], _ => rfl
  | (_, v) :: r, kept => by
    obtain ⟨here, later⟩ := List.cons.inj kept
    exact (Bool.and_eq_true_iff).mpr ⟨isLasting_of_restored v (Prod.mk.inj here).2, everyField_of_restored r later⟩

end

/-- The stored form keeps just the lasting values nothing in which looks like its mark. -/
theorem restored_eq_self_iff (v : Value) : v.restored = v ↔ v.isLasting = true ∧ v.isUnmarked = true := by
  constructor
  · intro kept
    have lasting := isLasting_of_restored v kept
    exact ⟨lasting, (restored_eq_iff lasting).mp kept⟩
  · exact fun h => (restored_eq_iff h.1).mpr h.2

/-! ## An equal value -/

/-- A finite number comes back equal. -/
theorem strictEquals_restored_number {x : Float} (finite : Number.isFinite x = true) :
    (number x).restored.strictEquals (number x) = true := by
  cases plain : Number.isPlain x with
  | true =>
    have kept : (number x).restored = number x := ofStored_of_toFloat? (Number.toFloat?_ofFloat_of_plain plain)
    rw [kept]
    exact Number.beq_self finite
  | false =>
    rw [Number.eq_negativeZero finite plain]
    decide +kernel

theorem length_restoredFields (fields : List (String × Value)) :
    (fieldsOfStored (fieldsToStored fields)).length = fields.length := by
  induction fields with
  | nil => rfl
  | cons f r ih => exact congrArg (· + 1) ih

theorem timeless_of_data {fields : List (String × Value)} (data : everyField isDatum fields = true) (k : String)
    (millis : Int) : (k, date millis) ∉ fields :=
  fun member => nomatch everywhere_of_mem data member

mutual

/-- **Data come back equal** just if nothing in them looks like the mark. -/
theorem strictEquals_restored_iff : ∀ v : Value, v.isData = true →
    (v.restored.strictEquals v = true ↔ v.isUnmarked = true)
  | undefined, _ | null, _ => ⟨fun _ => rfl, fun _ => rfl⟩
  | bool b, _ => ⟨fun _ => rfl, fun _ => beq_self_eq_true b⟩
  | string s, _ => ⟨fun _ => rfl, fun _ => beq_self_eq_true s⟩
  | number _, data => ⟨fun _ => rfl, fun _ => strictEquals_restored_number data⟩
  | array items, data => by
    have items_data : everyItem isDatum items = true := data
    show equalItems (itemsOfStored (itemsToStored items)) items = true ↔ everyItem _ items = true
    exact equalItems_restored_iff items items_data
  | object fields, data => by
    obtain ⟨once, inside⟩ : decide (Fields.names fields).Nodup = true ∧ everyField isDatum fields = true :=
      (Bool.and_eq_true_iff).mp data
    have found : ∀ e ∈ fields, Fields.get? e.1 fields = some e.2 :=
      fun e => Fields.get?_of_mem (of_decide_eq_true once)
    have shape := isUndefinedMark_fieldsToStored fields (timeless_of_data inside)
    have same := equalFields_restored_iff fields fields inside found
    have back : (object fields).restored = if isUndefinedMark (fieldsToStored fields) then undefined
      else object (fieldsOfStored (fieldsToStored fields)) := rfl
    have unmarked : (object fields).isUnmarked = (!(object fields).looksUndefined &&
      everyField (fun v => !v.looksUndefined) fields) := rfl
    rw [back, unmarked, shape]
    cases looks : (object fields).looksUndefined with
    | true => exact ⟨nofun, nofun⟩
    | false =>
      show ((fieldsOfStored (fieldsToStored fields)).length == fields.length &&
        equalFields (fieldsOfStored (fieldsToStored fields)) fields) = true ↔ _
      rw [length_restoredFields, beq_self_eq_true, Bool.true_and, same]
      exact Iff.rfl
  | date _, data | callable _, data | method _ _ _, data => nomatch data

theorem equalItems_restored_iff : ∀ vs : List Value, everyItem isDatum vs = true →
    (equalItems (itemsOfStored (itemsToStored vs)) vs = true ↔ everyItem (fun v => !v.looksUndefined) vs = true)
  | [], _ => ⟨fun _ => rfl, fun _ => rfl⟩
  | v :: r, data => by
    obtain ⟨here, later⟩ := (Bool.and_eq_true_iff).mp data
    show (v.restored.strictEquals v && equalItems (itemsOfStored (itemsToStored r)) r) = true ↔
      (v.isUnmarked && everyItem _ r) = true
    rw [Bool.and_eq_true, Bool.and_eq_true, strictEquals_restored_iff v here, equalItems_restored_iff r later]

/-- The fields that come back are looked up among those that were stored. -/
theorem equalFields_restored_iff : ∀ fields stored : List (String × Value), everyField isDatum fields = true →
    (∀ e ∈ fields, Fields.get? e.1 stored = some e.2) →
      (equalFields (fieldsOfStored (fieldsToStored fields)) stored = true ↔
        everyField (fun v => !v.looksUndefined) fields = true)
  | [], _, _, _ => ⟨fun _ => rfl, fun _ => rfl⟩
  | (k, v) :: r, stored, data, found => by
    obtain ⟨here, later⟩ := (Bool.and_eq_true_iff).mp data
    obtain ⟨first, rest⟩ := List.forall_mem_cons.mp found
    show ((match Fields.get? k stored with
      | some w => v.restored.strictEquals w
      | none => false) && equalFields (fieldsOfStored (fieldsToStored r)) stored) = true ↔
      (v.isUnmarked && everyField _ r) = true
    rw [first, Bool.and_eq_true, Bool.and_eq_true, strictEquals_restored_iff v here,
      equalFields_restored_iff r stored later rest]

end

theorem everyItem_iff {test : Value → Bool} {vs : List Value} :
    everyItem test vs = true ↔ ∀ v ∈ vs, v.everywhere test = true := by
  induction vs with
  | nil => exact ⟨fun _ _ none => absurd none List.not_mem_nil, fun _ => rfl⟩
  | cons v r ih =>
    rw [List.forall_mem_cons, ← ih]
    exact Bool.and_eq_true_iff

/-- **What is stored comes back**: a value, the cells of a list, and a value that may be missing where it is there. Data
come back equal just if nothing in them looks like the mark of undefined, and the very same just if, besides, no zero
in them has a sign. -/
theorem stored_comes_back {v : Value} (data : v.isData = true) (cells : Stash)
    (all : ∀ w ∈ cells.toList, w.isData = true) {p : Progress} (memo : p.memo = some v) :
    ((ofStored v.toStored).strictEquals v = true ↔ v.isUnmarked = true) ∧
    (ofStored v.toStored = v ↔ v.isLasting = true ∧ v.isUnmarked = true) ∧
    (∃ back, Stash.ofStored? cells.toStored = some back ∧
      (equalItems back.toList cells.toList = true ↔ ∀ w ∈ cells.toList, w.isUnmarked = true)) ∧
    ∃ back w, Progress.ofJson? p.toJson = some back ∧ back.memo = some w ∧
      (w.strictEquals v = true ↔ v.isUnmarked = true) := by
  refine ⟨strictEquals_restored_iff v data, restored_eq_self_iff v, ?_, ?_⟩
  · refine ⟨cells.restored, Stash.ofStored?_toStored cells, ?_⟩
    rw [Stash.restored, Array.toList_map, ← itemsOfStored_itemsToStored,
      equalItems_restored_iff cells.toList (everyItem_iff.mpr all)]
    exact everyItem_iff
  · refine ⟨p.restored, v.restored, Progress.ofJson?_toJson p, ?_, strictEquals_restored_iff v data⟩
    rw [Progress.restored, memo]
    rfl

/-- An object with undefined and null in a list, and with a negative zero. -/
def gapped : Value := object [("a", array [undefined, null]), ("b", number (-0.0))]

/-- It comes back equal, and undefined does so in a list; but it is not the very same object. -/
theorem gapped_comes_back : (ofStored gapped.toStored).strictEquals gapped = true ∧
    ofStored gapped.toStored ≠ gapped ∧
    ∃ back, Stash.ofStored? (Stash.toStored #[undefined, gapped]) = some back ∧
      equalItems back.toList [undefined, gapped] = true := by
  have data : gapped.isData = true := by decide +kernel
  have all : ∀ w ∈ [undefined, gapped], w.isData = true :=
    List.forall_mem_cons.mpr ⟨rfl, List.forall_mem_singleton.mpr data⟩
  have unmarked : ∀ w ∈ [undefined, gapped], w.isUnmarked = true :=
    List.forall_mem_cons.mpr ⟨rfl, List.forall_mem_singleton.mpr rfl⟩
  obtain ⟨equal, same, ⟨back, read, equals⟩, -⟩ :=
    stored_comes_back data #[undefined, gapped] all (p := { memo := some gapped }) rfl
  refine ⟨equal.mpr rfl, ?_, back, read, equals.mpr unmarked⟩
  rw [Ne, same]
  decide +kernel

/-- **An object that looks like the mark does not come back.** -/
theorem marked_does_not_come_back :
    (object [("__promptlType", string "undefined")]).isData = true ∧
    ofStored (object [("__promptlType", string "undefined")]).toStored = undefined ∧
    (ofStored (object [("__promptlType", string "undefined")]).toStored).strictEquals
      (object [("__promptlType", string "undefined")]) = false :=
  ⟨by decide, rfl, rfl⟩

end Value
end PromptScript
