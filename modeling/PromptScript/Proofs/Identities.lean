import Mathlib.Data.List.Basic
import PromptScript.Attachment
import PromptScript.Scope
import PromptScript.Value.Operator

/-! # Identities

Every read of a built-in member makes a value with a new identity, and strict equality tells two of them apart by it.
Nothing else looks at identities: `renamed` gives the members in a value other ones, and each operation on values does
the same before and after, as long as no two of them become one. A value is `Under` a bound if all identities in it
are; what an operation makes of such values is under the bound as well, which need not be proved apart. -/
namespace PromptScript

/-- What may hold built-in members, and has others when their identities are changed. -/
class Renamable (α : Type) where
  renamed : (Nat → Nat) → α → α

export Renamable (renamed)

namespace Value

mutual

/-- The value with other identities for the built-in members in it. -/
def withIdentities (f : Nat → Nat) : Value → Value
  | undefined => undefined
  | null => null
  | bool b => bool b
  | number x => number x
  | string s => string s
  | array items => array (itemsWithIdentities f items)
  | object fields => object (fieldsWithIdentities f fields)
  | date millis => date millis
  | callable identity => callable identity
  | method identity receiver builtin => method (f identity) (withIdentities f receiver) builtin

def itemsWithIdentities (f : Nat → Nat) : List Value → List Value
  | [] => []
  | v :: r => withIdentities f v :: itemsWithIdentities f r

def fieldsWithIdentities (f : Nat → Nat) : List (String × Value) → List (String × Value)
  | [] => []
  | (k, v) :: r => (k, withIdentities f v) :: fieldsWithIdentities f r

end

instance : Renamable Value := ⟨withIdentities⟩

end Value

section Instances

variable {α β : Type} [Renamable α] [Renamable β]

instance : Renamable (List α) := ⟨fun f => List.map (renamed f)⟩

instance : Renamable (Option α) := ⟨fun f => Option.map (renamed f)⟩

instance : Renamable (α × β) := ⟨fun f => Prod.map (renamed f) (renamed f)⟩

instance : Renamable (Array α) := ⟨fun f => Array.map (renamed f)⟩

instance {ε : Type} : Renamable (Except ε α) := ⟨fun f => Except.map (renamed f)⟩

instance : Renamable String := ⟨fun _ => id⟩

instance : Renamable Unit := ⟨fun _ => id⟩

variable (f : Nat → Nat)

@[simp] theorem renamed_nil : renamed f ([] : List α) = [] := rfl

@[simp] theorem renamed_cons (a : α) (r : List α) : renamed f (a :: r) = renamed f a :: renamed f r := rfl

@[simp] theorem renamed_append (a b : List α) : renamed f (a ++ b) = renamed f a ++ renamed f b := List.map_append

@[simp] theorem renamed_none : renamed f (none : Option α) = none := rfl

@[simp] theorem renamed_some (a : α) : renamed f (some a) = some (renamed f a) := rfl

@[simp] theorem renamed_mk (a : α) (b : β) : renamed f (a, b) = (renamed f a, renamed f b) := rfl

@[simp] theorem renamed_fst (p : α × β) : (renamed f p).1 = renamed f p.1 := rfl

@[simp] theorem renamed_snd (p : α × β) : (renamed f p).2 = renamed f p.2 := rfl

@[simp] theorem renamed_ok {ε : Type} (a : α) : renamed f (.ok a : Except ε α) = .ok (renamed f a) := rfl

@[simp] theorem renamed_error {ε : Type} (e : ε) : renamed f (.error e : Except ε α) = .error e := rfl

@[simp] theorem renamed_string (s : String) : renamed f s = s := rfl

@[simp] theorem renamed_unit (u : Unit) : renamed f u = u := rfl

end Instances

/-! ## Bounds -/

/-- All identities are below a bound: no change of others makes a difference. -/
def Under {α : Type} [Renamable α] (bound : Nat) (a : α) : Prop :=
  ∀ f : Nat → Nat, Function.Injective f → (∀ i < bound, f i = i) → renamed f a = a

section Under

variable {α β : Type} [Renamable α] [Renamable β] {bound more : Nat}

theorem Under.mono {a : α} (h : Under bound a) (le : bound ≤ more) : Under more a :=
  fun f one same => h f one fun i below => same i (Nat.lt_of_lt_of_le below le)

/-- What is made in the same way of the same is under the same bound. -/
theorem Under.of_natural {k : α → β} {a : α} (h : Under bound a)
    (natural : ∀ f : Nat → Nat, Function.Injective f → renamed f (k a) = k (renamed f a)) : Under bound (k a) :=
  fun f one same => by rw [natural f one, h f one same]

theorem under_nil : Under bound ([] : List α) := fun _ _ _ => rfl

theorem under_none : Under bound (none : Option α) := fun _ _ _ => rfl

theorem under_string (s : String) : Under bound s := fun _ _ _ => rfl

theorem under_unit (u : Unit) : Under bound u := fun _ _ _ => rfl

theorem under_cons {a : α} {r : List α} : Under bound (a :: r) ↔ Under bound a ∧ Under bound r := by
  simp only [Under, renamed_cons, List.cons.injEq]
  exact ⟨fun h => ⟨fun f one same => (h f one same).1, fun f one same => (h f one same).2⟩,
    fun h f one same => ⟨h.1 f one same, h.2 f one same⟩⟩

theorem under_some {a : α} : Under bound (some a) ↔ Under bound a := by
  simp only [Under, renamed_some, Option.some.injEq]

theorem under_mk {a : α} {b : β} : Under bound (a, b) ↔ Under bound a ∧ Under bound b := by
  simp only [Under, renamed_mk, Prod.mk.injEq]
  exact ⟨fun h => ⟨fun f one same => (h f one same).1, fun f one same => (h f one same).2⟩,
    fun h f one same => ⟨h.1 f one same, h.2 f one same⟩⟩

theorem under_append {a b : List α} : Under bound (a ++ b) ↔ Under bound a ∧ Under bound b := by
  induction a with
  | nil => exact ⟨fun h => ⟨under_nil, h⟩, fun h => h.2⟩
  | cons x r ih => rw [List.cons_append, under_cons, under_cons, ih, and_assoc]

end Under

/-! ## Values -/

namespace Value

variable {f : Nat → Nat}

theorem itemsWithIdentities_eq (items : List Value) : itemsWithIdentities f items = renamed f items := by
  induction items with
  | nil => rfl
  | cons v r ih => exact congrArg (withIdentities f v :: ·) ih

theorem fieldsWithIdentities_eq (fields : List (String × Value)) : fieldsWithIdentities f fields = renamed f fields := by
  induction fields with
  | nil => rfl
  | cons e r ih => exact congrArg ((e.1, withIdentities f e.2) :: ·) ih

@[simp] theorem renamed_undefined : renamed f undefined = undefined := rfl

@[simp] theorem renamed_null : renamed f null = null := rfl

@[simp] theorem renamed_bool (b : Bool) : renamed f (bool b) = bool b := rfl

@[simp] theorem renamed_number (x : Float) : renamed f (number x) = number x := rfl

@[simp] theorem renamed_text (s : String) : renamed f (string s) = string s := rfl

@[simp] theorem renamed_date (millis : Int) : renamed f (date millis) = date millis := rfl

@[simp] theorem renamed_callable (identity : Nat) : renamed f (callable identity) = callable identity := rfl

@[simp] theorem renamed_array (items : List Value) : renamed f (array items) = array (renamed f items) :=
  congrArg array (itemsWithIdentities_eq items)

@[simp] theorem renamed_object (fields : List (String × Value)) : renamed f (object fields) = object (renamed f fields) :=
  congrArg object (fieldsWithIdentities_eq fields)

@[simp] theorem renamed_method (identity : Nat) (receiver : Value) (builtin : Builtin) :
    renamed f (method identity receiver builtin) = method (f identity) (renamed f receiver) builtin := rfl

/-! ### As something else -/

@[simp] theorem isNullish_renamed (v : Value) : (renamed f v).isNullish = v.isNullish := by cases v <;> simp [isNullish]

@[simp] theorem isTruthy_renamed (v : Value) : (renamed f v).isTruthy = v.isTruthy := by cases v <;> simp [isTruthy]

@[simp] theorem typeName_renamed (v : Value) : (renamed f v).typeName = v.typeName := by cases v <;> simp [typeName]

@[simp] theorem string?_renamed (v : Value) : (renamed f v).string? = v.string? := by cases v <;> simp [string?]

@[simp] theorem joinsAsText_renamed (v : Value) : (renamed f v).joinsAsText = v.joinsAsText := by
  cases v <;> simp [joinsAsText]

mutual

@[simp] theorem toText_renamed : ∀ v : Value, (renamed f v).toText = v.toText
  | undefined | null | bool _ | number _ | string _ | date _ | callable _ | method _ _ _ => rfl
  | object fields => by rw [renamed_object, toText, toText]
  | array items => by rw [renamed_array, toText, toText, itemTexts_renamed items]

@[simp] theorem itemTexts_renamed : ∀ items : List Value, itemTexts (renamed f items) = itemTexts items
  | [] => rfl
  | v :: r => by rw [renamed_cons, itemTexts, itemTexts, isNullish_renamed, toText_renamed v, itemTexts_renamed r]

end

mutual

@[simp] theorem toJson_renamed : ∀ v : Value, (renamed f v).toJson = v.toJson
  | undefined | null | bool _ | number _ | string _ | date _ | callable _ | method _ _ _ => rfl
  | object fields => by rw [renamed_object, toJson, toJson, fieldsToJson_renamed fields]
  | array items => by rw [renamed_array, toJson, toJson, itemsToJson_renamed items]

@[simp] theorem itemsToJson_renamed : ∀ items : List Value, itemsToJson (renamed f items) = itemsToJson items
  | [] => rfl
  | v :: r => by rw [renamed_cons, itemsToJson, itemsToJson, toJson_renamed v, itemsToJson_renamed r]

@[simp] theorem fieldsToJson_renamed : ∀ fields : List (String × Value),
    fieldsToJson (renamed f fields) = fieldsToJson fields
  | [] => rfl
  | (k, v) :: r => by
    rw [renamed_cons, renamed_mk, fieldsToJson, fieldsToJson, toJson_renamed v, fieldsToJson_renamed r, renamed_string]

end

@[simp] theorem toRendered_renamed (v : Value) : (renamed f v).toRendered = v.toRendered := by
  have json := toJson_renamed (f := f) v
  have text := toText_renamed (f := f) v
  cases v <;> simp_all [toRendered]

@[simp] theorem toNumber_renamed (v : Value) : (renamed f v).toNumber = v.toNumber := by
  cases v with
  | array items =>
    match items with
    | [] => rfl
    | [v] => simp [toNumber]
    | v :: w :: r => simp [toNumber]
  | object fields => simp [toNumber]
  | _ => rfl

mutual

/-- The value that JSON stands for has no functions. -/
@[simp] theorem renamed_ofJson : ∀ j : Json, renamed f (ofJson j) = ofJson j
  | .null | .bool _ | .int _ | .float _ | .str _ => rfl
  | .arr items => by rw [ofJson, renamed_array, renamed_itemsOfJson items]
  | .obj fields => by rw [ofJson, renamed_object, renamed_fieldsOfJson fields]

theorem renamed_itemsOfJson : ∀ items : List Json, renamed f (itemsOfJson items) = itemsOfJson items
  | [] => rfl
  | j :: r => by rw [itemsOfJson, renamed_cons, renamed_ofJson j, renamed_itemsOfJson r]

theorem renamed_fieldsOfJson : ∀ fields : List (String × Json), renamed f (fieldsOfJson fields) = fieldsOfJson fields
  | [] => rfl
  | (k, j) :: r => by
    rw [fieldsOfJson, renamed_cons, renamed_mk, renamed_ofJson j, renamed_fieldsOfJson r, renamed_string]

end

end Value

/-! ## Fields -/

namespace Fields

variable {α : Type} [Renamable α] {f : Nat → Nat}

@[simp] theorem get?_renamed (name : String) (fields : List (String × α)) :
    get? name (renamed f fields) = renamed f (get? name fields) := by
  induction fields with
  | nil => rfl
  | cons e r ih =>
    rw [renamed_cons, show renamed f e = (e.1, renamed f e.2) from rfl, get?, get?, ih]
    split <;> rfl

@[simp] theorem has_renamed (name : String) (fields : List (String × α)) :
    has name (renamed f fields) = has name fields := by
  unfold has
  rw [get?_renamed]
  exact Option.isSome_map

@[simp] theorem renamed_set (name : String) (a : α) (fields : List (String × α)) :
    renamed f (set name a fields) = set name (renamed f a) (renamed f fields) := by
  induction fields with
  | nil => rfl
  | cons e r ih =>
    rw [renamed_cons, show renamed f e = (e.1, renamed f e.2) from rfl, set, set, ← ih]
    split <;> rfl

@[simp] theorem renamed_erase (name : String) (fields : List (String × α)) :
    renamed f (erase name fields) = erase name (renamed f fields) := by
  induction fields with
  | nil => rfl
  | cons e r ih =>
    rw [renamed_cons, show renamed f e = (e.1, renamed f e.2) from rfl, erase, erase, ← ih]
    split <;> rfl

@[simp] theorem names_renamed (fields : List (String × α)) : names (renamed f fields) = names fields := by
  show (fields.map (renamed f)).map Prod.fst = fields.map Prod.fst
  rw [List.map_map]
  rfl

end Fields

/-! ## Operations -/

namespace Value

variable {f : Nat → Nat}

section Equality

mutual

theorem strictEquals_renamed (one : Function.Injective f) : ∀ a b : Value, (renamed f a).strictEquals (renamed f b) = a.strictEquals b
  | array xs, b => by
    cases b with
    | array ys => rw [renamed_array, renamed_array, strictEquals, strictEquals, equalItems_renamed one xs ys]
    | object gs => rw [renamed_array, renamed_object]; rfl
    | _ => rw [renamed_array]; rfl
  | object fs, b => by
    cases b with
    | object gs =>
      have lengths : (renamed f fs).length = fs.length ∧ (renamed f gs).length = gs.length :=
        ⟨List.length_map _, List.length_map _⟩
      rw [renamed_object, renamed_object, strictEquals, strictEquals, equalFields_renamed one fs gs, lengths.1, lengths.2]
    | array ys => rw [renamed_array, renamed_object]; rfl
    | _ => rw [renamed_object]; rfl
  | method i r m, b => by
    cases b with
    | method j s n =>
      rw [renamed_method, renamed_method, strictEquals, strictEquals, Bool.eq_iff_iff, beq_iff_eq, beq_iff_eq]
      exact one.eq_iff
    | array ys => rw [renamed_array]; rfl
    | object gs => rw [renamed_object]; rfl
    | _ => rfl
  | undefined, b | null, b | bool _, b | number _, b | string _, b | date _, b | callable _, b => by
    cases b with
    | array ys => rw [renamed_array]; rfl
    | object gs => rw [renamed_object]; rfl
    | _ => rfl

theorem equalItems_renamed (one : Function.Injective f) : ∀ xs ys : List Value, equalItems (renamed f xs) (renamed f ys) = equalItems xs ys
  | [], [] => rfl
  | [], _ :: _ => rfl
  | _ :: _, [] => rfl
  | x :: xs, y :: ys => by
    rw [renamed_cons, renamed_cons, equalItems, equalItems, strictEquals_renamed one x y, equalItems_renamed one xs ys]

theorem equalFields_renamed (one : Function.Injective f) : ∀ fs gs : List (String × Value),
    equalFields (renamed f fs) (renamed f gs) = equalFields fs gs
  | [], _ => rfl
  | (k, x) :: fs, gs => by
    rw [renamed_cons, renamed_mk, equalFields, equalFields, equalFields_renamed one fs gs, renamed_string,
      Fields.get?_renamed]
    cases Fields.get? k gs with
    | none => rfl
    | some y => rw [renamed_some]; dsimp only; rw [strictEquals_renamed one x y]

end

theorem looseEquals_renamed (one : Function.Injective f) (a b : Value) : (renamed f a).looseEquals (renamed f b) = a.looseEquals b := by
  have strict := strictEquals_renamed one a b
  have numbers := And.intro (toNumber_renamed (f := f) a) (toNumber_renamed (f := f) b)
  have texts := And.intro (toText_renamed (f := f) a) (toText_renamed (f := f) b)
  unfold looseEquals
  rw [isNullish_renamed, isNullish_renamed]
  split
  · rfl
  · cases a <;> cases b <;> simp_all

end Equality

theorem renamed_unary (op : UnaryOp) (v : Value) : renamed f (unary op v) = unary op (renamed f v) := by
  cases op <;> simp [unary]

theorem holdsKey_renamed (object : Value) (key : String) : (renamed f object).holdsKey key = object.holdsKey key := by
  have lengths : ∀ items : List Value, (renamed f items).length = items.length := fun items => List.length_map _
  cases object <;> simp [holdsKey, lengths]

theorem renamed_compareBy (texts : String → String → Bool) (numbers : Float → Float → Bool) (a b : Value) :
    renamed f (compareBy texts numbers a b) = compareBy texts numbers (renamed f a) (renamed f b) := by
  have left := toNumber_renamed (f := f) a
  have right := toNumber_renamed (f := f) b
  unfold compareBy
  cases a <;> cases b <;> simp_all

theorem renamed_binary (one : Function.Injective f) (op : BinaryOp) (a b : Value) :
    renamed f (binary op a b) = binary op (renamed f a) (renamed f b) := by
  have plus : renamed f (plus a b) = Value.plus (renamed f a) (renamed f b) := by
    simp only [Value.plus, joinsAsText_renamed, toText_renamed, toNumber_renamed]
    split <;> rfl
  cases op <;> simp [binary, plus, onInt32, holdsKey_renamed, renamed_compareBy, strictEquals_renamed one,
    looseEquals_renamed one]

/-! ### Members -/

theorem renamed_arrayMember (identity : Nat) (items : List Value) (name : String) :
    renamed f (arrayMember identity items name) = arrayMember (f identity) (renamed f items) name := by
  have at_ : ∀ i : Nat, (renamed f items)[i]? = renamed f items[i]? := fun i => List.getElem?_map
  have length : (renamed f items).length = items.length := List.length_map _
  unfold arrayMember
  split
  · next i _ => rw [at_]; cases items[i]? <;> rfl
  · split <;> simp [length]

theorem renamed_stringMember (identity : Nat) (s name : String) :
    renamed f (stringMember identity s name) = stringMember (f identity) s name := by
  unfold stringMember
  split
  · next i _ => cases s.toList[i]? <;> rfl
  · split <;> rfl

theorem renamed_getMember? (identity : Nat) (object key : Value) :
    renamed f (getMember? identity object key) = getMember? (f identity) (renamed f object) (renamed f key) := by
  unfold getMember?
  rw [toText_renamed]
  cases object with
  | object fields =>
    simp only [renamed_object, Fields.get?_renamed]
    cases Fields.get? key.toText fields <;> rfl
  | array items => simp only [renamed_array, renamed_some, renamed_arrayMember]
  | string s => simp only [renamed_text, renamed_some, renamed_stringMember]
  | date millis => simp only [renamed_date]; split <;> rfl
  | number x => simp only [renamed_number]; split <;> rfl
  | _ => rfl

theorem firstText_renamed : ∀ args : List Value, firstText (renamed f args) = firstText args
  | [] => rfl
  | v :: _ => toText_renamed v

theorem renamed_first : ∀ args : List Value, renamed f (first args) = first (renamed f args)
  | [] | _ :: _ => rfl

theorem placesOf_renamed : ∀ args : List Value, placesOf (renamed f args) = placesOf args
  | [] => rfl
  | v :: r => by rw [renamed_cons, placesOf, placesOf, toNumber_renamed]

/-- A separator that is there is taken as a text. -/
theorem splitText_cons {v : Value} (there : v ≠ undefined) (s : String) (r : List Value) :
    splitText s (v :: r) = splitText s [string v.toText] := by
  cases v with
  | undefined => exact absurd rfl there
  | _ => rfl

theorem splitText_renamed (s : String) : ∀ args : List Value, splitText s (renamed f args) = splitText s args
  | [] => rfl
  | v :: r => by
    by_cases there : v = undefined
    · subst there
      rfl
    · have there' : renamed f v ≠ undefined := by
        cases v <;> simp at there ⊢
      rw [renamed_cons, splitText_cons there', splitText_cons there, toText_renamed]

/-- The parts of a string are strings. -/
theorem renamed_splitText (s : String) (args : List Value) : renamed f (splitText s args) = splitText s args := by
  have strings : ∀ {β : Type} (text : β → String) (l : List β),
      renamed f (l.map fun x => string (text x)) = l.map fun x => string (text x) :=
    fun text l => List.map_map.trans rfl
  unfold splitText
  split
  · rfl
  · rfl
  · dsimp only
    split <;> exact strings _ _

theorem renamed_callBuiltin (one : Function.Injective f) (receiver : Value) (builtin : Builtin) (args : List Value) :
    renamed f (callBuiltin receiver builtin args) = callBuiltin (renamed f receiver) builtin (renamed f args) := by
  have equal : ∀ v : Value, (renamed f v).strictEquals (first (renamed f args)) = v.strictEquals (first args) :=
    fun v => by rw [← renamed_first, strictEquals_renamed one]
  cases receiver with
  | array items =>
    rw [renamed_array]
    cases builtin with
    | join =>
      cases args with
      | nil => simp [callBuiltin]
      | cons v r => cases v <;> simp [callBuiltin, toText]
    | includes =>
      have any : (renamed f items).any (·.strictEquals (first (renamed f args))) =
          items.any (·.strictEquals (first args)) :=
        List.any_map.trans (congrArg items.any (funext equal))
      simp only [callBuiltin, any, renamed_bool]
    | indexOf =>
      have index : (renamed f items).findIdx? (·.strictEquals (first (renamed f args))) =
          items.findIdx? (·.strictEquals (first args)) :=
        List.findIdx?_map.trans (congrArg (fun p => List.findIdx? p items) (funext equal))
      simp only [callBuiltin, index]
      split <;> rfl
    | _ => rfl
  | string s =>
    cases builtin with
    | split => simp only [callBuiltin, renamed_text, renamed_array, renamed_splitText, splitText_renamed]
    | _ => simp [callBuiltin, firstText_renamed]
  | number x => cases builtin <;> simp [callBuiltin, placesOf_renamed]
  | object fields =>
    rw [renamed_object]
    rfl
  | _ => cases builtin <;> rfl

theorem renamed_setOwn? (object key v : Value) :
    renamed f (setOwn? object key v) = setOwn? (renamed f object) (renamed f key) (renamed f v) := by
  have length : ∀ items : List Value, (renamed f items).length = items.length := fun items => List.length_map _
  have set : ∀ (items : List Value) i, renamed f (items.set i v) = (renamed f items).set i (renamed f v) :=
    fun items i => List.map_set
  unfold setOwn?
  rw [toText_renamed]
  cases object with
  | object fields =>
    simp only [renamed_object, Fields.has_renamed]
    split <;> simp
  | array items =>
    simp only [renamed_array, length]
    split
    · split <;> simp [set]
    · rfl
  | _ => rfl

end Value

/-! ### Attachments -/

namespace Attachment

variable {f : Nat → Nat}

theorem isMarked_renamed (v : Value) : isMarked (renamed f v) = isMarked v := by
  cases v with
  | object fields =>
    rw [Value.renamed_object]
    unfold isMarked
    dsimp only
    rw [Fields.get?_renamed]
    cases Fields.get? markField fields with
    | none => rfl
    | some v => rw [renamed_some, Option.bind_some, Option.bind_some, Value.string?_renamed]
  | array items => rw [Value.renamed_array]; rfl
  | _ => rfl

/-- An attachment is made of texts, a number and a truth value. -/
theorem ofValue?_renamed (v : Value) : ofValue? (renamed f v) = ofValue? v := by
  have marked := isMarked_renamed (f := f) v
  cases v with
  | object fields =>
    rw [Value.renamed_object] at marked ⊢
    have text : ∀ name, (Fields.get? name (renamed f fields)).bind Value.string? =
        (Fields.get? name fields).bind Value.string? := by
      intro name
      rw [Fields.get?_renamed]
      cases Fields.get? name fields <;> simp
    have size : (Fields.get? "size" (renamed f fields)).map (fun v => bytesOf v.toNumber) =
        (Fields.get? "size" fields).map fun v => bytesOf v.toNumber := by
      rw [Fields.get?_renamed]
      cases Fields.get? "size" fields <;> simp
    have image : (Fields.get? "isImage" (renamed f fields)).map Value.isTruthy =
        (Fields.get? "isImage" fields).map Value.isTruthy := by
      rw [Fields.get?_renamed]
      cases Fields.get? "isImage" fields <;> simp
    unfold ofValue?
    simp only [marked, text, size, image]
  | array items => rw [Value.renamed_array]; rfl
  | _ => rfl

theorem listOf?_renamed (v : Value) : listOf? (renamed f v) = listOf? v := by
  have whole := ofValue?_renamed (f := f) v
  cases v with
  | array items =>
    rw [Value.renamed_array] at whole ⊢
    cases items with
    | nil => rfl
    | cons item items =>
      have all : (renamed f (item :: items)).all isMarked = (item :: items).all isMarked :=
        List.all_map.trans (congrArg (item :: items).all (funext isMarked_renamed))
      have files : (renamed f (item :: items)).filterMap ofValue? = (item :: items).filterMap ofValue? :=
        List.filterMap_map.trans (congrArg (fun p => (item :: items).filterMap p) (funext ofValue?_renamed))
      rw [renamed_cons] at all files ⊢
      unfold listOf?
      dsimp only
      rw [all, files]
  | object fields =>
    rw [Value.renamed_object] at whole ⊢
    unfold listOf?
    dsimp only
    rw [whole]
  | _ => rfl

end Attachment
end PromptScript
