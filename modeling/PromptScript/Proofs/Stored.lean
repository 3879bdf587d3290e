import PromptScript.Document.Decoding
import PromptScript.Proofs.Doubles
import PromptScript.Value.Persisted

/-! # Values through JSON

What becomes of a value that is written as JSON and read again. Plain JSON keeps everything but undefined, functions,
dates and what is no plain number; the stored form keeps undefined as well, but takes an object that looks like its
mark for it. -/
namespace PromptScript.Value

/-- What is left of a value in plain JSON. -/
def settled (v : Value) : Value := ofJson v.toJson

/-- What is left of a value in its stored form. -/
def restored (v : Value) : Value := ofStored v.toStored

mutual

/-- Whether a value and everything in it passes a test. -/
def everywhere (test : Value → Bool) : Value → Bool
  | array items => test (array items) && everyItem test items
  | object fields => test (object fields) && everyField test fields
  | v => test v

def everyItem (test : Value → Bool) : List Value → Bool
  | [] => true
  | v :: r => everywhere test v && everyItem test r

def everyField (test : Value → Bool) : List (String × Value) → Bool
  | [] => true
  | (_, v) :: r => everywhere test v && everyField test r

end

/-- Whether a value has a stored form: it is no function and no date, and JSON has its number. -/
def hasForm : Value → Bool
  | number x => Number.isPlain x
  | date _ | callable _ | method _ _ _ => false
  | _ => true

/-- Whether a value has a form in plain JSON. -/
def hasPlainForm : Value → Bool
  | undefined => false
  | v => v.hasForm

/-- Whether a value looks like the mark of undefined. -/
def looksUndefined : Value → Bool
  | object [(k, string s)] => k == typeField && s == "undefined"
  | _ => false

/-- A value without functions and dates, without numbers that are not finite, and without negative zero. -/
def isLasting (v : Value) : Bool := v.everywhere hasForm

/-- A lasting value without undefined. -/
def isPlain (v : Value) : Bool := v.everywhere hasPlainForm

/-- A value nothing in which looks like the mark of undefined. -/
def isUnmarked (v : Value) : Bool := v.everywhere fun v => !v.looksUndefined

/-! ## Numbers -/

theorem ofJson_of_toFloat? {j : Json} {x : Float} (h : j.toFloat? = some x) : ofJson j = number x := by
  cases j with
  | int n => exact congrArg number (Option.some.inj h)
  | float y => exact congrArg number (Option.some.inj h)
  | _ => cases h

theorem ofStored_of_toFloat? {j : Json} {x : Float} (h : j.toFloat? = some x) : ofStored j = number x := by
  cases j with
  | int n => exact congrArg number (Option.some.inj h)
  | float y => exact congrArg number (Option.some.inj h)
  | _ => cases h

/-- Plain JSON keeps the plain numbers. -/
theorem settled_number_eq_iff (x : Float) : (number x).settled = number x ↔ Number.isPlain x = true := by
  constructor
  · intro kept
    cases plain : Number.isPlain x with
    | true => rfl
    | false =>
      have kept : ofJson (Json.ofFloat x) = number x := kept
      obtain zero | none := Number.ofFloat_of_not_plain plain
      · rw [zero] at kept
        obtain rfl : Number.ofInt 0 = x := number.inj kept
        rw [Number.isPlain_ofInt_zero] at plain
        cases plain
      · rw [none] at kept
        cases kept
  · exact fun plain => ofJson_of_toFloat? (Number.toFloat?_ofFloat_of_plain plain)

theorem toJson_settled_number (x : Float) : (number x).settled.toJson = (number x).toJson := by
  cases plain : Number.isPlain x with
  | true => rw [(settled_number_eq_iff x).mpr plain]
  | false =>
    show (ofJson (Json.ofFloat x)).toJson = Json.ofFloat x
    obtain zero | none := Number.ofFloat_of_not_plain plain
    · rw [zero]
      exact Number.ofFloat_ofInt_zero
    · rw [none]
      rfl

/-! ## Plain JSON -/

mutual

/-- Plain JSON keeps just the plain values. -/
theorem settled_eq_iff : ∀ v : Value, v.settled = v ↔ v.isPlain = true
  | undefined => ⟨nofun, nofun⟩
  | null => ⟨fun _ => rfl, fun _ => rfl⟩
  | bool _ => ⟨fun _ => rfl, fun _ => rfl⟩
  | number x => settled_number_eq_iff x
  | string _ => ⟨fun _ => rfl, fun _ => rfl⟩
  | array items => by
    show array (itemsOfJson (itemsToJson items)) = array items ↔ (true && everyItem _ items) = true
    rw [array.injEq, Bool.true_and]
    exact itemsSettled_eq_iff items
  | object fields => by
    show object (fieldsOfJson (fieldsToJson fields)) = object fields ↔ (true && everyField _ fields) = true
    rw [object.injEq, Bool.true_and]
    exact fieldsSettled_eq_iff fields
  | date _ => ⟨nofun, nofun⟩
  | callable _ => ⟨nofun, nofun⟩
  | method _ _ _ => ⟨nofun, nofun⟩

theorem itemsSettled_eq_iff : ∀ vs : List Value, itemsOfJson (itemsToJson vs) = vs ↔
    everyItem hasPlainForm vs = true
  | [] => ⟨fun _ => rfl, fun _ => rfl⟩
  | v :: r => by
    show v.settled :: itemsOfJson (itemsToJson r) = v :: r ↔ (v.isPlain && everyItem _ r) = true
    rw [List.cons.injEq, Bool.and_eq_true, settled_eq_iff v, itemsSettled_eq_iff r]

theorem fieldsSettled_eq_iff : ∀ fields : List (String × Value), fieldsOfJson (fieldsToJson fields) = fields ↔
    everyField hasPlainForm fields = true
  | [] => ⟨fun _ => rfl, fun _ => rfl⟩
  | (k, v) :: r => by
    show (k, v.settled) :: fieldsOfJson (fieldsToJson r) = (k, v) :: r ↔ (v.isPlain && everyField _ r) = true
    rw [List.cons.injEq, Bool.and_eq_true, Prod.mk.injEq, settled_eq_iff v, fieldsSettled_eq_iff r]
    simp only [true_and]

end

mutual

/-- What is left of a value in plain JSON is written like the value. -/
theorem toJson_settled : ∀ v : Value, v.settled.toJson = v.toJson
  | undefined | null | bool _ | string _ | date _ | callable _ | method _ _ _ => rfl
  | number x => toJson_settled_number x
  | array items => congrArg Json.arr (itemsToJson_settled items)
  | object fields => congrArg Json.obj (fieldsToJson_settled fields)

theorem itemsToJson_settled : ∀ vs : List Value, itemsToJson (itemsOfJson (itemsToJson vs)) = itemsToJson vs
  | [] => rfl
  | v :: r => by
    show v.settled.toJson :: itemsToJson (itemsOfJson (itemsToJson r)) = v.toJson :: itemsToJson r
    rw [toJson_settled v, itemsToJson_settled r]

theorem fieldsToJson_settled : ∀ fields : List (String × Value),
    fieldsToJson (fieldsOfJson (fieldsToJson fields)) = fieldsToJson fields
  | [] => rfl
  | (k, v) :: r => by
    show (k, v.settled.toJson) :: fieldsToJson (fieldsOfJson (fieldsToJson r)) = (k, v.toJson) :: fieldsToJson r
    rw [toJson_settled v, fieldsToJson_settled r]

end

/-! ## The stored form -/

theorem itemsOfStored_itemsToStored (vs : List Value) : itemsOfStored (itemsToStored vs) = vs.map restored := by
  induction vs with
  | nil => rfl
  | cons v r ih =>
    show v.restored :: itemsOfStored (itemsToStored r) = _
    rw [ih]
    rfl

/-- What every value passes is passed by each. -/
theorem everywhere_of_mem {test : Value → Bool} {fields : List (String × Value)} (all : everyField test fields = true)
    {e : String × Value} (member : e ∈ fields) : e.2.everywhere test = true := by
  induction fields with
  | nil => cases member
  | cons f r ih =>
    obtain ⟨first, rest⟩ := (Bool.and_eq_true_iff).mp all
    rcases List.mem_cons.mp member with rfl | later
    · exact first
    · exact ih rest later

/-- Of fields without dates just those that look like the mark are written as the mark. -/
theorem isUndefinedMark_fieldsToStored : ∀ fields : List (String × Value), (∀ k millis, (k, date millis) ∉ fields) →
    isUndefinedMark (fieldsToStored fields) = (object fields).looksUndefined
  | [], _ => rfl
  | [(_, undefined)], _ | [(_, null)], _ | [(_, bool _)], _ | [(_, string _)], _ | [(_, array _)], _
  | [(_, object _)], _ | [(_, callable _)], _ | [(_, method _ _ _)], _ => rfl
  | [(_, number x)], _ => by
    show isUndefinedMark [(_, Json.ofFloat x)] = false
    unfold Json.ofFloat
    split
    · dsimp only
      split <;> rfl
    · rfl
  | [(_, date _)], timeless => absurd List.mem_cons_self (timeless _ _)
  | (_, _) :: (_, _) :: _, _ => by
    unfold fieldsToStored fieldsToStored isUndefinedMark looksUndefined
    simp

mutual

/-- The stored form keeps lasting values that do not look like the mark. -/
theorem restored_of_unmarked : ∀ v : Value, v.isLasting = true → v.isUnmarked = true → v.restored = v
  | undefined, _, _ | null, _, _ | bool _, _, _ | string _, _, _ => rfl
  | number x, lasting, _ => by
    have plain : Number.isPlain x = true := lasting
    exact ofStored_of_toFloat? (Number.toFloat?_ofFloat_of_plain plain)
  | array items, lasting, unmarked => by
    have items_lasting : everyItem hasForm items = true := lasting
    have items_unmarked : everyItem (fun v => !v.looksUndefined) items = true := unmarked
    exact congrArg array (itemsRestored_of_unmarked items items_lasting items_unmarked)
  | object fields, lasting, unmarked => by
    have fields_lasting : everyField hasForm fields = true := lasting
    obtain ⟨here, inside⟩ : (!(object fields).looksUndefined) = true ∧
        everyField (fun v => !v.looksUndefined) fields = true := (Bool.and_eq_true_iff).mp unmarked
    have other : isUndefinedMark (fieldsToStored fields) = false := by
      rw [isUndefinedMark_fieldsToStored fields fun _ _ member => nomatch everywhere_of_mem fields_lasting member]
      simpa using here
    show (if isUndefinedMark (fieldsToStored fields) then undefined
      else object (fieldsOfStored (fieldsToStored fields))) = object fields
    rw [other, fieldsRestored_of_unmarked fields fields_lasting inside]
    rfl
  | date _, lasting, _ | callable _, lasting, _ | method _ _ _, lasting, _ => nomatch lasting

theorem itemsRestored_of_unmarked : ∀ vs : List Value, everyItem hasForm vs = true →
    everyItem (fun v => !v.looksUndefined) vs = true → itemsOfStored (itemsToStored vs) = vs
  | [], _, _ => rfl
  | v :: r, lasting, unmarked => by
    obtain ⟨first_lasting, rest_lasting⟩ := (Bool.and_eq_true_iff).mp lasting
    obtain ⟨first_unmarked, rest_unmarked⟩ := (Bool.and_eq_true_iff).mp unmarked
    show v.restored :: itemsOfStored (itemsToStored r) = v :: r
    rw [restored_of_unmarked v first_lasting first_unmarked, itemsRestored_of_unmarked r rest_lasting rest_unmarked]

theorem fieldsRestored_of_unmarked : ∀ fields : List (String × Value), everyField hasForm fields = true →
    everyField (fun v => !v.looksUndefined) fields = true → fieldsOfStored (fieldsToStored fields) = fields
  | [], _, _ => rfl
  | (k, v) :: r, lasting, unmarked => by
    obtain ⟨first_lasting, rest_lasting⟩ := (Bool.and_eq_true_iff).mp lasting
    obtain ⟨first_unmarked, rest_unmarked⟩ := (Bool.and_eq_true_iff).mp unmarked
    show (k, v.restored) :: fieldsOfStored (fieldsToStored r) = (k, v) :: r
    rw [restored_of_unmarked v first_lasting first_unmarked, fieldsRestored_of_unmarked r rest_lasting rest_unmarked]

end

/-- What is read as an object does not look like the mark. -/
theorem looksUndefined_ofStored : ∀ fields : List (String × Json), isUndefinedMark fields = false →
    (object (fieldsOfStored fields)).looksUndefined = false
  | [], _ => rfl
  | [(_, .str _)], other => other
  | [(_, .null)], _ | [(_, .bool _)], _ | [(_, .int _)], _ | [(_, .float _)], _ | [(_, .arr _)], _ => rfl
  | [(_, .obj inner)], _ => by
    unfold fieldsOfStored ofStored
    cases isUndefinedMark inner <;> rfl
  | (_, _) :: (_, _) :: _, _ => by
    unfold fieldsOfStored fieldsOfStored looksUndefined
    simp

mutual

/-- No value that is read from a stored form looks like the mark. -/
theorem isUnmarked_ofStored : ∀ j : Json, (ofStored j).isUnmarked = true
  | .null | .bool _ | .int _ | .float _ | .str _ => rfl
  | .arr items => by
    show (true && everyItem (fun v => !v.looksUndefined) (itemsOfStored items)) = true
    rw [Bool.true_and]
    exact everyItem_itemsOfStored items
  | .obj fields => by
    unfold ofStored
    cases other : isUndefinedMark fields with
    | true => rfl
    | false =>
      show (!(object (fieldsOfStored fields)).looksUndefined &&
        everyField (fun v => !v.looksUndefined) (fieldsOfStored fields)) = true
      rw [looksUndefined_ofStored fields other, everyField_fieldsOfStored fields]
      rfl

theorem everyItem_itemsOfStored : ∀ items : List Json,
    everyItem (fun v => !v.looksUndefined) (itemsOfStored items) = true
  | [] => rfl
  | j :: r => by
    show ((ofStored j).isUnmarked && everyItem _ (itemsOfStored r)) = true
    rw [isUnmarked_ofStored j, everyItem_itemsOfStored r]
    rfl

theorem everyField_fieldsOfStored : ∀ fields : List (String × Json),
    everyField (fun v => !v.looksUndefined) (fieldsOfStored fields) = true
  | [] => rfl
  | (_, j) :: r => by
    show ((ofStored j).isUnmarked && everyField _ (fieldsOfStored r)) = true
    rw [isUnmarked_ofStored j, everyField_fieldsOfStored r]
    rfl

end

/-- Of the lasting values the stored form keeps just those nothing in which looks like its mark. -/
theorem restored_eq_iff {v : Value} (lasting : v.isLasting = true) : v.restored = v ↔ v.isUnmarked = true := by
  constructor
  · intro kept
    rw [← kept]
    exact isUnmarked_ofStored v.toStored
  · exact restored_of_unmarked v lasting

end PromptScript.Value

/-! ## Expressions through JSON

An expression is read as it was written, but for the values of its literals, of which plain JSON leaves what it
leaves of any value. -/
namespace PromptScript

theorem Json.index?_natCast (n : Nat) : index? (.int n) = some n := by
  show (if 0 ≤ (n : Int) then some (n : Int).toNat else none) = some n
  rw [if_pos (by omega), Int.toNat_natCast]

@[simp] theorem Span.ofJson?_toJson (span : Span) : ofJson? span.toJson = some span := by
  simp [ofJson?, toJson, Json.record?, Json.need?, Fields.get?, Json.index?_natCast]

@[simp] theorem UnaryOp.ofJson?_symbol (op : UnaryOp) : ofJson? (.str op.symbol) = some op := by cases op <;> rfl

@[simp] theorem BinaryOp.ofJson?_symbol (op : BinaryOp) : ofJson? (.str op.symbol) = some op := by cases op <;> rfl

@[simp] theorem LogicalOp.ofJson?_symbol (op : LogicalOp) : ofJson? (.str op.symbol) = some op := by
  cases op <;> rfl

@[simp] theorem UpdateOp.ofJson?_symbol (op : UpdateOp) : ofJson? (.str op.symbol) = some op := by cases op <;> rfl

@[simp] theorem AssignOp.ofJson?_toJson (op : AssignOp) : ofJson? op.toJson = some op := by
  cases op with
  | assign => rfl
  | binary op => exact congrArg (Option.map binary) (BinaryOp.ofJson?_symbol op)
  | logical op => exact congrArg (Option.map logical) (LogicalOp.ofJson?_symbol op)

namespace Expr

mutual

/-- The values of the literals of an expression. -/
def literals : Expr → List Value
  | literal _ v => [v]
  | identifier _ _ => []
  | array _ items | sequence _ items => literalsOfItems items
  | object _ fields => literalsOfFields fields
  | unary _ _ e | update _ _ _ e | chain _ e => literals e
  | binary _ _ a b | logical _ _ a b | assignment _ _ a b => literals a ++ literals b
  | member _ base key _ => literals base ++ literalsOfKey key
  | conditional _ test a b => literals test ++ literals a ++ literals b
  | call _ callee arguments _ => literals callee ++ literalsOfItems arguments

def literalsOfItems : List Expr → List Value
  | [] => []
  | e :: r => literals e ++ literalsOfItems r

def literalsOfFields : List (Key × Expr) → List Value
  | [] => []
  | (key, e) :: r => literalsOfKey key ++ literals e ++ literalsOfFields r

def literalsOfKey : Key → List Value
  | .named _ => []
  | .computed e => literals e

end

mutual

/-- The expression with what plain JSON leaves of its literals. -/
def restored : Expr → Expr
  | literal span v => literal span v.settled
  | identifier span name => identifier span name
  | array span items => array span (restoredItems items)
  | object span fields => object span (restoredFields fields)
  | sequence span items => sequence span (restoredItems items)
  | unary span op e => unary span op (restored e)
  | binary span op a b => binary span op (restored a) (restored b)
  | logical span op a b => logical span op (restored a) (restored b)
  | assignment span op target value => assignment span op (restored target) (restored value)
  | update span op before e => update span op before (restored e)
  | member span base key optional => member span (restored base) (restoredKey key) optional
  | conditional span test a b => conditional span (restored test) (restored a) (restored b)
  | call span callee arguments optional => call span (restored callee) (restoredItems arguments) optional
  | chain span e => chain span (restored e)

def restoredItems : List Expr → List Expr
  | [] => []
  | e :: r => restored e :: restoredItems r

def restoredFields : List (Key × Expr) → List (Key × Expr)
  | [] => []
  | (key, e) :: r => (restoredKey key, restored e) :: restoredFields r

def restoredKey : Key → Key
  | .named name => .named name
  | .computed e => .computed (restored e)

end

/-! ### Reading what was written -/

section Reading

variable (span : Span) (kind : String) (fields : List (String × Json))

theorem need?_span : Json.need? "span" Span.ofJson?
    [("span", span.toJson), ("kind", .obj (("type", .str kind) :: fields))] = some span := by
  simp [Json.need?, Fields.get?]

theorem need?_kind : Json.need? "kind" (Json.tagged? kinds)
    [("span", span.toJson), ("kind", .obj (("type", .str kind) :: fields))] = some (kind, .obj fields) := by
  simp [Json.need?, Fields.get?, Json.tagged?, Json.kind?, Fields.erase]

/-- An expression is read by its span and by what its kind makes of the rest. -/
theorem bind_kindJson (next : Span → String × Json → Option Expr) :
    ((kindJson span kind fields).record? ["span", "kind"] >>= fun fields =>
      Json.need? "span" Span.ofJson? fields >>= fun span =>
      Json.need? "kind" (Json.tagged? kinds) fields >>= next span) = next span (kind, .obj fields) := by
  simp only [kindJson, Json.record?, need?_span, need?_kind, Option.bind_eq_bind, Option.bind_some]

/-- The fields of an expression lie two levels deep. -/
theorem depth_kindJson : (kindJson span kind fields).depth = 2 + Json.depthFields fields := by
  simp only [kindJson, Span.toJson, Json.depth, Json.depthFields]
  omega

end Reading

mutual

/-- **Reading is the inverse of writing**, but for the literals. -/
theorem ofJsonWithin?_toJson : ∀ (e : Expr) (d : Nat), e.toJson.depth < d →
    ofJsonWithin? d e.toJson = some e.restored
  | e, 0, bound => absurd bound (Nat.not_lt_zero _)
  | literal span v, d + 1, _ => by
    rw [ofJsonWithin?, toJson, bind_kindJson]
    simp [Json.record?, Json.need?, Fields.get?, restored, Value.settled]
  | identifier span name, d + 1, _ => by
    rw [ofJsonWithin?, toJson, bind_kindJson]
    simp [Json.record?, Json.need?, Fields.get?, restored, Json.str?]
  | array span items, d + 1, bound => by
    rw [toJson, depth_kindJson] at bound
    simp only [Json.depthFields, Json.depth] at bound
    have read := itemsOfJsonWithin?_toJson items d (by omega)
    rw [ofJsonWithin?, toJson, bind_kindJson]
    simp [Json.record?, Json.need?, Fields.get?, Json.list?, Json.arr?, restored, read]
  | object span fields, d + 1, bound => by
    rw [toJson, depth_kindJson] at bound
    simp only [Json.depthFields, Json.depth] at bound
    have read := fieldsOfJsonWithin?_toJson fields d (by omega)
    rw [ofJsonWithin?, toJson, bind_kindJson]
    simp [Json.record?, Json.need?, Fields.get?, Json.list?, Json.arr?, restored, read]
  | sequence span items, d + 1, bound => by
    rw [toJson, depth_kindJson] at bound
    simp only [Json.depthFields, Json.depth] at bound
    have read := itemsOfJsonWithin?_toJson items d (by omega)
    rw [ofJsonWithin?, toJson, bind_kindJson]
    simp [Json.record?, Json.need?, Fields.get?, Json.list?, Json.arr?, restored, read]
  | unary span op e, d + 1, bound => by
    rw [toJson, depth_kindJson] at bound
    simp only [Json.depthFields, Json.depth] at bound
    have read := ofJsonWithin?_toJson e d (by omega)
    rw [ofJsonWithin?, toJson, bind_kindJson]
    simp [Json.record?, Json.need?, Fields.get?, restored, read]
  | binary span op a b, d + 1, bound => by
    rw [toJson, depth_kindJson] at bound
    simp only [Json.depthFields, Json.depth] at bound
    have left := ofJsonWithin?_toJson a d (by omega)
    have right := ofJsonWithin?_toJson b d (by omega)
    rw [ofJsonWithin?, toJson, bind_kindJson]
    simp [Json.record?, Json.need?, Fields.get?, restored, left, right]
  | logical span op a b, d + 1, bound => by
    rw [toJson, depth_kindJson] at bound
    simp only [Json.depthFields, Json.depth] at bound
    have left := ofJsonWithin?_toJson a d (by omega)
    have right := ofJsonWithin?_toJson b d (by omega)
    rw [ofJsonWithin?, toJson, bind_kindJson]
    simp [Json.record?, Json.need?, Fields.get?, restored, left, right]
  | assignment span op target value, d + 1, bound => by
    rw [toJson, depth_kindJson] at bound
    simp only [Json.depthFields] at bound
    have left := ofJsonWithin?_toJson target d (by omega)
    have right := ofJsonWithin?_toJson value d (by omega)
    rw [ofJsonWithin?, toJson, bind_kindJson]
    simp [Json.record?, Json.need?, Fields.get?, restored, left, right]
  | update span op before e, d + 1, bound => by
    rw [toJson, depth_kindJson] at bound
    simp only [Json.depthFields, Json.depth] at bound
    have read := ofJsonWithin?_toJson e d (by omega)
    rw [ofJsonWithin?, toJson, bind_kindJson]
    simp [Json.record?, Json.need?, Fields.get?, restored, Json.bool?, read]
  | member span base key optional, d + 1, bound => by
    rw [toJson, depth_kindJson] at bound
    simp only [Json.depthFields, Json.depth] at bound
    have left := ofJsonWithin?_toJson base d (by omega)
    have right := keyOfJsonWithin?_toJson key d (by omega)
    rw [ofJsonWithin?, toJson, bind_kindJson]
    simp [Json.record?, Json.need?, Fields.get?, restored, Json.bool?, left, right]
  | conditional span test a b, d + 1, bound => by
    rw [toJson, depth_kindJson] at bound
    simp only [Json.depthFields] at bound
    have first := ofJsonWithin?_toJson test d (by omega)
    have left := ofJsonWithin?_toJson a d (by omega)
    have right := ofJsonWithin?_toJson b d (by omega)
    rw [ofJsonWithin?, toJson, bind_kindJson]
    simp [Json.record?, Json.need?, Fields.get?, restored, first, left, right]
  | call span callee arguments optional, d + 1, bound => by
    rw [toJson, depth_kindJson] at bound
    simp only [Json.depthFields, Json.depth] at bound
    have left := ofJsonWithin?_toJson callee d (by omega)
    have right := itemsOfJsonWithin?_toJson arguments d (by omega)
    rw [ofJsonWithin?, toJson, bind_kindJson]
    simp [Json.record?, Json.need?, Fields.get?, Json.list?, Json.arr?, restored, Json.bool?, left, right]
  | chain span e, d + 1, bound => by
    rw [toJson, depth_kindJson] at bound
    simp only [Json.depthFields] at bound
    have read := ofJsonWithin?_toJson e d (by omega)
    rw [ofJsonWithin?, toJson, bind_kindJson]
    simp [Json.record?, Json.need?, Fields.get?, restored, read]

theorem itemsOfJsonWithin?_toJson : ∀ (es : List Expr) (d : Nat), Json.depthItems (itemsToJson es) < d →
    (itemsToJson es).mapM (ofJsonWithin? d) = some (restoredItems es)
  | [], _, _ => rfl
  | e :: r, d, bound => by
    simp only [itemsToJson, Json.depthItems] at bound
    have first := ofJsonWithin?_toJson e d (by omega)
    have rest := itemsOfJsonWithin?_toJson r d (by omega)
    simp [itemsToJson, restoredItems, first, rest]

theorem fieldsOfJsonWithin?_toJson : ∀ (fields : List (Key × Expr)) (d : Nat),
    Json.depthItems (fieldsToJson fields) < d →
    (fieldsToJson fields).mapM (fieldOfJson? (ofJsonWithin? d)) = some (restoredFields fields)
  | [], _, _ => rfl
  | (key, e) :: r, d, bound => by
    simp only [fieldsToJson, Json.depthItems, Json.depth, Json.depthFields] at bound
    have name := keyOfJsonWithin?_toJson key d (by omega)
    have first := ofJsonWithin?_toJson e d (by omega)
    have rest := fieldsOfJsonWithin?_toJson r d (by omega)
    simp [fieldsToJson, restoredFields, fieldOfJson?, Json.record?, Json.need?, Fields.get?, name, first, rest]

theorem keyOfJsonWithin?_toJson : ∀ (key : Key) (d : Nat), (keyToJson key).depth < d →
    keyOfJson? (ofJsonWithin? d) (keyToJson key) = some (restoredKey key)
  | .named _, _, _ => rfl
  | .computed e, d, bound => by
    simp only [keyToJson, Json.depth, Json.depthFields] at bound
    have read := ofJsonWithin?_toJson e d (by omega)
    exact congrArg (Option.map Key.computed) read

end

@[simp] theorem ofJson?_toJson (e : Expr) : ofJson? e.toJson = some e.restored :=
  ofJsonWithin?_toJson e _ (Nat.lt_succ_self _)

/-! ### Literals that are kept -/

mutual

/-- An expression is read as it was written just if its literals are plain. -/
theorem restored_eq_iff : ∀ e : Expr, e.restored = e ↔ ∀ v ∈ e.literals, v.isPlain = true
  | literal _ v => by
    rw [restored, literal.injEq, literals, List.forall_mem_singleton, Value.settled_eq_iff]
    simp only [true_and]
  | identifier _ _ => by simp only [restored, literals, List.not_mem_nil, false_imp_iff, implies_true]
  | array _ items => by
    simp only [restored, literals, array.injEq, true_and, restoredItems_eq_iff items]
  | object _ fields => by
    simp only [restored, literals, object.injEq, true_and, restoredFields_eq_iff fields]
  | sequence _ items => by
    simp only [restored, literals, sequence.injEq, true_and, restoredItems_eq_iff items]
  | unary _ _ e => by simp only [restored, literals, unary.injEq, true_and, restored_eq_iff e]
  | binary _ _ a b => by
    simp only [restored, literals, binary.injEq, true_and, restored_eq_iff a, restored_eq_iff b, List.forall_mem_append]
  | logical _ _ a b => by
    simp only [restored, literals, logical.injEq, true_and, restored_eq_iff a, restored_eq_iff b,
      List.forall_mem_append]
  | assignment _ _ a b => by
    simp only [restored, literals, assignment.injEq, true_and, restored_eq_iff a, restored_eq_iff b,
      List.forall_mem_append]
  | update _ _ _ e => by simp only [restored, literals, update.injEq, true_and, restored_eq_iff e]
  | member _ base key _ => by
    simp only [restored, literals, member.injEq, true_and, and_true, restored_eq_iff base, restoredKey_eq_iff key,
      List.forall_mem_append]
  | conditional _ test a b => by
    simp only [restored, literals, conditional.injEq, true_and, restored_eq_iff test, restored_eq_iff a,
      restored_eq_iff b, List.forall_mem_append, and_assoc]
  | call _ callee arguments _ => by
    simp only [restored, literals, call.injEq, true_and, and_true, restored_eq_iff callee,
      restoredItems_eq_iff arguments, List.forall_mem_append]
  | chain _ e => by simp only [restored, literals, chain.injEq, true_and, restored_eq_iff e]

theorem restoredItems_eq_iff : ∀ es : List Expr,
    restoredItems es = es ↔ ∀ v ∈ literalsOfItems es, v.isPlain = true
  | [] => by simp only [restoredItems, literalsOfItems, List.not_mem_nil, false_imp_iff, implies_true]
  | e :: r => by
    simp only [restoredItems, literalsOfItems, List.cons.injEq, restored_eq_iff e, restoredItems_eq_iff r,
      List.forall_mem_append]

theorem restoredFields_eq_iff : ∀ fields : List (Key × Expr),
    restoredFields fields = fields ↔ ∀ v ∈ literalsOfFields fields, v.isPlain = true
  | [] => by simp only [restoredFields, literalsOfFields, List.not_mem_nil, false_imp_iff, implies_true]
  | (key, e) :: r => by
    simp only [restoredFields, literalsOfFields, List.cons.injEq, Prod.mk.injEq, restoredKey_eq_iff key,
      restored_eq_iff e, restoredFields_eq_iff r, List.forall_mem_append]

theorem restoredKey_eq_iff : ∀ key : Key, restoredKey key = key ↔ ∀ v ∈ literalsOfKey key, v.isPlain = true
  | .named _ => by simp only [restoredKey, literalsOfKey, List.not_mem_nil, false_imp_iff, implies_true]
  | .computed e => by simp only [restoredKey, literalsOfKey, Key.computed.injEq, restored_eq_iff e]

end

end Expr
end PromptScript
