import PromptScript.Proofs.Persistence

/-! # Stored forms that stay

What storing takes from a value it takes the first time. A chain that is read from its stored form is stored in the
same form again, whatever it holds, if no attribute in its history has the name of a field it is written beside. -/
namespace PromptScript

/-! ## Values and marks -/

namespace Value

theorem isUndefinedMark_iff {fields : List (String × Json)} :
    isUndefinedMark fields = true ↔ fields = [(typeField, .str "undefined")] := by
  constructor
  · intro mark
    unfold isUndefinedMark at mark
    split at mark
    · rw [Bool.and_eq_true, beq_iff_eq, beq_iff_eq] at mark
      rw [mark.1, mark.2]
    · cases mark
  · rintro rfl
    rfl

mutual

/-- **What the stored form leaves of a value is stored in the same form.** -/
theorem toStored_restored : ∀ v : Value, v.restored.toStored = v.toStored
  | undefined | null | bool _ | string _ | date _ | callable _ | method _ _ _ => rfl
  | number x => by
    cases plain : Number.isPlain x with
    | true => rw [restored_of_unmarked (number x) plain rfl]
    | false =>
      show (ofStored (Json.ofFloat x)).toStored = Json.ofFloat x
      obtain zero | none := Number.ofFloat_of_not_plain plain
      · rw [zero]
        exact Number.ofFloat_ofInt_zero
      · rw [none]
        rfl
  | array items => congrArg Json.arr (itemsToStored_restored items)
  | object fields => by
    show (if isUndefinedMark (fieldsToStored fields) then undefined
      else object (fieldsOfStored (fieldsToStored fields))).toStored = .obj (fieldsToStored fields)
    split
    -- An object that looks like the mark is taken for it, and the mark is what it was written as.
    · next mark => exact congrArg Json.obj (isUndefinedMark_iff.mp mark).symm
    · exact congrArg Json.obj (fieldsToStored_restored fields)

theorem itemsToStored_restored : ∀ vs : List Value, itemsToStored (itemsOfStored (itemsToStored vs)) = itemsToStored vs
  | [] => rfl
  | v :: r => by
    show v.restored.toStored :: itemsToStored (itemsOfStored (itemsToStored r)) = v.toStored :: itemsToStored r
    rw [toStored_restored v, itemsToStored_restored r]

theorem fieldsToStored_restored : ∀ fields : List (String × Value),
    fieldsToStored (fieldsOfStored (fieldsToStored fields)) = fieldsToStored fields
  | [] => rfl
  | (k, v) :: r => by
    show (k, v.restored.toStored) :: fieldsToStored (fieldsOfStored (fieldsToStored r)) =
      (k, v.toStored) :: fieldsToStored r
    rw [toStored_restored v, fieldsToStored_restored r]

end

end Value

theorem Stash.toStored_restored (stash : Stash) : toStored stash.restored = toStored stash := by
  have items := Value.itemsToStored_restored stash.toList
  rw [Value.itemsOfStored_itemsToStored] at items
  show Json.arr (Value.itemsToStored (stash.map Value.restored).toList) = _
  rw [Array.toList_map, items]
  rfl

theorem Progress.toJson_restored (p : Progress) : p.restored.toJson = p.toJson := by
  obtain ⟨done, memo, pointers, round, stash⟩ := p
  cases memo <;> cases stash <;> simp [toJson, restored, Value.toStored_restored, Stash.toStored_restored]

theorem Progress.map_toJson_restored (p : Option Progress) : (p.map restored).map toJson = p.map toJson := by
  rw [Option.map_map]
  exact congrArg (Option.map · p) (funext toJson_restored)

/-! ## Documents -/

namespace Expr

mutual

/-- What reading leaves of an expression is written like the expression. -/
theorem toJson_restored : ∀ e : Expr, e.restored.toJson = e.toJson
  | literal _ v => by rw [restored, toJson, toJson, Value.toJson_settled]
  | identifier _ _ => rfl
  | array _ items => by rw [restored, toJson, toJson, itemsToJson_restored items]
  | object _ fields => by rw [restored, toJson, toJson, fieldsToJson_restored fields]
  | sequence _ items => by rw [restored, toJson, toJson, itemsToJson_restored items]
  | unary _ _ e => by rw [restored, toJson, toJson, toJson_restored e]
  | binary _ _ a b => by rw [restored, toJson, toJson, toJson_restored a, toJson_restored b]
  | logical _ _ a b => by rw [restored, toJson, toJson, toJson_restored a, toJson_restored b]
  | assignment _ _ a b => by rw [restored, toJson, toJson, toJson_restored a, toJson_restored b]
  | update _ _ _ e => by rw [restored, toJson, toJson, toJson_restored e]
  | member _ base key _ => by rw [restored, toJson, toJson, toJson_restored base, keyToJson_restored key]
  | conditional _ test a b => by
    rw [restored, toJson, toJson, toJson_restored test, toJson_restored a, toJson_restored b]
  | call _ callee arguments _ => by
    rw [restored, toJson, toJson, toJson_restored callee, itemsToJson_restored arguments]
  | chain _ e => by rw [restored, toJson, toJson, toJson_restored e]

theorem itemsToJson_restored : ∀ es : List Expr, itemsToJson (restoredItems es) = itemsToJson es
  | [] => rfl
  | e :: r => by rw [restoredItems, itemsToJson, itemsToJson, toJson_restored e, itemsToJson_restored r]

theorem fieldsToJson_restored : ∀ fields : List (Key × Expr), fieldsToJson (restoredFields fields) = fieldsToJson fields
  | [] => rfl
  | (key, e) :: r => by
    rw [restoredFields, fieldsToJson, fieldsToJson, keyToJson_restored key, toJson_restored e, fieldsToJson_restored r]

theorem keyToJson_restored : ∀ key : Key, keyToJson (restoredKey key) = keyToJson key
  | .named _ => rfl
  | .computed e => by rw [restoredKey, keyToJson, keyToJson, toJson_restored e]

end

end Expr

namespace Node

theorem kindJson_restored (kind : String) (fields : List (String × Option Json)) (p : Option Progress) :
    kindJson kind fields (p.map Progress.restored) = kindJson kind fields p := by
  unfold kindJson
  rw [Progress.map_toJson_restored]

mutual

/-- What reading leaves of a node is written like the node. -/
theorem toJson_restored : ∀ n : Node, n.restored.toJson = n.toJson
  | text _ _ p | comment _ _ p | config _ _ p => by rw [restored, toJson, toJson, kindJson_restored]
  | interpolation _ e p => by rw [restored, toJson, toJson, kindJson_restored, Expr.toJson_restored]
  | choice _ test body none p => by
    rw [restored, toJson, toJson, kindJson_restored, Expr.toJson_restored, allToJson_restored body]
  | choice _ test body (some other) p => by
    rw [restored, toJson, toJson, kindJson_restored, Expr.toJson_restored, allToJson_restored body,
      allToJson_restored other]
  | loop _ items _ _ body none p => by
    rw [restored, toJson, toJson, kindJson_restored, Expr.toJson_restored, allToJson_restored body]
  | loop _ items _ _ body (some other) p => by
    rw [restored, toJson, toJson, kindJson_restored, Expr.toJson_restored, allToJson_restored body,
      allToJson_restored other]
  | element _ _ attributes body p => by
    rw [restored, toJson, toJson, kindJson_restored, attributesToJson_restored attributes, allToJson_restored body]
  | group _ body p => by rw [restored, toJson, toJson, kindJson_restored, allToJson_restored body]

theorem allToJson_restored : ∀ nodes : List Node, allToJson (restoredAll nodes) = allToJson nodes
  | [] => rfl
  | n :: r => by rw [restoredAll, allToJson, allToJson, toJson_restored n, allToJson_restored r]

theorem attributesToJson_restored : ∀ attributes : List Attribute,
    attributesToJson (restoredAttributes attributes) = attributesToJson attributes
  | [] => rfl
  | .mk _ _ .flag :: r => by
    rw [restoredAttributes, attributesToJson, attributesToJson, attributesToJson_restored r]
  | .mk _ _ (.nodes parts) :: r => by
    rw [restoredAttributes, attributesToJson, attributesToJson, valueToJson, valueToJson, allToJson_restored parts,
      attributesToJson_restored r]

end

end Node

/-- What reading leaves of a document is written like the document. -/
theorem Document.toJson_restored (d : Document) : d.restored.toJson = d.toJson := by
  unfold Document.toJson restored
  rw [Node.allToJson_restored, Progress.map_toJson_restored]

/-! ## Messages -/

namespace Fields

variable {α β : Type}

theorem set_append_of_not_mem {name : String} {own : List (String × α)} (apart : name ∉ names own) (value : α)
    (fields : List (String × α)) : set name value (own ++ fields) = own ++ set name value fields := by
  induction own with
  | nil => rfl
  | cons e r ih =>
    obtain ⟨other, later⟩ : name ≠ e.1 ∧ name ∉ names r := by simpa [names] using apart
    rw [List.cons_append, set, if_neg other.symm, ih later]
    rfl

/-- Entries under other names are merged behind fields by themselves. -/
theorem ofList_append {own more : List (String × α)} (nodup : (names own).Nodup)
    (apart : ∀ name ∈ names more, name ∉ names own) : ofList (own ++ more) = own ++ ofList more := by
  have build : ∀ acc, merge (own ++ acc) more = own ++ merge acc more := by
    induction more with
    | nil => exact fun acc => rfl
    | cons e r ih =>
      intro acc
      show merge (set e.1 e.2 (own ++ acc)) r = own ++ merge (set e.1 e.2 acc) r
      rw [set_append_of_not_mem (apart e.1 List.mem_cons_self)]
      exact ih (fun name there => apart name (List.mem_cons_of_mem _ there)) _
  have first : merge [] own = own := ofList_of_nodup nodup
  calc ofList (own ++ more) = merge (merge [] own) more := List.foldl_append
    _ = merge (own ++ []) more := by rw [first, List.append_nil]
    _ = own ++ ofList more := build []

theorem set_map (f : α → β) (name : String) (value : α) (fields : List (String × α)) :
    set name (f value) (fields.map fun e => (e.1, f e.2)) = (set name value fields).map fun e => (e.1, f e.2) := by
  induction fields with
  | nil => rfl
  | cons e r ih =>
    rw [List.map_cons, set, set, ih]
    split <;> rfl

theorem ofList_map (f : α → β) (entries : List (String × α)) :
    ofList (entries.map fun e => (e.1, f e.2)) = (ofList entries).map fun e => (e.1, f e.2) := by
  suffices build : ∀ acc : List (String × α), merge (acc.map fun e => (e.1, f e.2)) (entries.map fun e => (e.1, f e.2)) =
      (merge acc entries).map fun e => (e.1, f e.2) from build []
  induction entries with
  | nil => exact fun acc => rfl
  | cons e r ih =>
    intro acc
    show merge (set e.1 (f e.2) (acc.map _)) (r.map _) = (merge (set e.1 e.2 acc) r).map _
    rw [set_map, ih]

end Fields

theorem Attributes.toJson_ofList (attributes : Attributes) :
    Fields.ofList attributes.toJson = Attributes.toJson (Fields.ofList attributes) :=
  Fields.ofList_map Value.toJson attributes

/-- In fields beside own ones, attributes stand once each. -/
theorem Attributes.ofList_append_ofList {own : List (String × Json)} (once : (Fields.names own).Nodup) {a : Attributes}
    (apart : ∀ name ∈ Fields.names a, name ∉ Fields.names own) :
    Fields.ofList (own ++ toJson (Fields.ofList a)) = Fields.ofList (own ++ a.toJson) := by
  have named : ∀ name ∈ Fields.names a.toJson, name ∉ Fields.names own := by
    rw [names_toJson]
    exact apart
  rw [← toJson_ofList, Fields.ofList_append once named, Fields.ofList_append once,
    Fields.ofList_of_nodup (Fields.nodup_names_ofList _)]
  exact fun name there => named name (Fields.mem_names_ofList.mp there)

namespace Content

/-- The item with each attribute once, as it was last set. -/
def merged : Content → Content
  | text s sources a => text s sources (Fields.ofList a)
  | image url a => image url (Fields.ofList a)
  | file url mimeType a => file url mimeType (Fields.ofList a)
  | toolCall id name arguments a => toolCall id name arguments (Fields.ofList a)
  | toolResult id name result failed a => toolResult id name result failed (Fields.ofList a)

/-- No attribute of an item has the name of a field that items of its kind have. -/
def Apart (c : Content) : Prop := ∀ name ∈ Fields.names c.attributes, name ∉ "type" :: c.fieldNames

instance (c : Content) : Decidable c.Apart :=
  inferInstanceAs (Decidable (∀ name ∈ Fields.names c.attributes, name ∉ "type" :: c.fieldNames))

theorem attributes_merged (c : Content) : c.merged.attributes = Fields.ofList c.attributes := by cases c <;> rfl

theorem fieldNames_merged (c : Content) : c.merged.fieldNames = c.fieldNames := by cases c <;> rfl

theorem Apart.distinct {c : Content} (apart : c.Apart) : c.merged.Distinct := by
  constructor
  · rw [attributes_merged]
    exact Fields.nodup_names_ofList _
  · intro name there
    rw [attributes_merged, Fields.mem_names_ofList] at there
    rw [fieldNames_merged]
    exact apart name there

/-- In JSON a name that is repeated stands once. -/
theorem Apart.toJson_merged {c : Content} (apart : c.Apart) : c.merged.toJson = c.toJson := by
  obtain ⟨own, inside⟩ := names_ownFields c
  have untyped : "type" ∉ c.fieldNames := by cases c <;> simp [fieldNames]
  have split : c.entries = (("type", .str c.kindName) :: c.ownFields) ++ c.attributes.toJson := rfl
  have merged : c.merged.entries =
      (("type", .str c.kindName) :: c.ownFields) ++ Attributes.toJson (Fields.ofList c.attributes) := by
    cases c <;> rfl
  unfold toJson
  rw [merged, split, Attributes.ofList_append_ofList]
  · exact List.nodup_cons.mpr ⟨fun there => untyped (inside _ there), own⟩
  · intro name there first
    refine apart name there ?_
    obtain rfl | more := List.mem_cons.mp first
    · exact List.mem_cons_self
    · exact List.mem_cons_of_mem _ (inside name more)

end Content

namespace Message

/-- The message with each attribute once. -/
def merged (m : Message) : Message := ⟨m.role, m.content.map Content.merged, Fields.ofList m.attributes⟩

/-- No attribute of a message has the name of one of its fields, and so for its items. -/
structure Apart (m : Message) : Prop where
  own : ∀ name ∈ Fields.names m.attributes, name ∉ fieldNames
  items : ∀ c ∈ m.content, c.Apart

instance (m : Message) : Decidable m.Apart :=
  decidable_of_iff ((∀ name ∈ Fields.names m.attributes, name ∉ fieldNames) ∧ ∀ c ∈ m.content, c.Apart)
    ⟨fun h => ⟨h.1, h.2⟩, fun h => ⟨h.own, h.items⟩⟩

theorem Apart.distinct {m : Message} (apart : m.Apart) : m.merged.Distinct where
  own := ⟨Fields.nodup_names_ofList _, fun name there => apart.own name (Fields.mem_names_ofList.mp there)⟩
  items c there := by
    obtain ⟨item, mem, rfl⟩ := List.mem_map.mp there
    exact (apart.items item mem).distinct

theorem Apart.toJson_merged {m : Message} (apart : m.Apart) : m.merged.toJson = m.toJson := by
  have items : m.merged.content.map Content.toJson = m.content.map Content.toJson := by
    rw [merged, List.map_map]
    exact List.map_congr_left fun c there => (apart.items c there).toJson_merged
  unfold toJson entries
  rw [items]
  exact congrArg Json.obj (Attributes.ofList_append_ofList (by simp [Fields.names]) apart.own)

/-- A message whose attributes stand apart from its fields is read, and what is read is written like the message. -/
theorem Apart.reads {m : Message} (apart : m.Apart) :
    ofJson? m.toJson = some m.merged.settled ∧ m.merged.settled.toJson = m.toJson := by
  rw [toJson_settled, ← apart.toJson_merged]
  exact ⟨(ofJson?_toJson_iff _).mpr apart.distinct, rfl⟩

end Message

/-! ## Chains -/

namespace Chain

/-- **Storing is a fixpoint.** A chain in whose history no attribute has the name of a field beside which it is written
can be read from its stored form, and what is read has the same stored form. -/
theorem stored_fixpoint (chain : Chain) (apart : ∀ m ∈ chain.history, m.Apart) :
    ∃ back, ofJson chain.toJson = .ok back ∧ back.toJson = chain.toJson := by
  have read : (chain.history.map Message.toJson).mapM Message.ofJson? =
      some (chain.history.map fun m => m.merged.settled) :=
    (mapM_map_eq_some_iff _).mpr fun m there => (apart m there).reads.1
  have name : Format.ofName? chain.format.name = some chain.format := Format.ofName?_name chain.format
  refine ⟨{ chain.restored with history := chain.history.map fun m => m.merged.settled }, ?_, ?_⟩
  · unfold ofJson
    rw [read?_toJson, read]
    simp only [Option.map_some, name]
    rfl
  · have history : (chain.history.map fun m => m.merged.settled).map Message.toJson = chain.history.map Message.toJson := by
      rw [List.map_map]
      exact List.map_congr_left fun m there => (apart m there).reads.2
    have scope : Scope.toStored ⟨chain.scope.stash.restored, chain.scope.pointers⟩ = chain.scope.toStored := by
      unfold Scope.toStored
      rw [Stash.toStored_restored]
    unfold toJson stored restored
    rw [history, Document.toJson_restored, scope]

/-- In the second round of a loop over `undefined` and a number, with messages that have an attribute and a step whose
variables are its own. -/
theorem stored_in_round : ∃ first last turns world back,
    start "\x7b\x7b for x in [undefined, 2] \x7d\x7d<step isolated as=\"r\"><user name=\"Ann\">ask \x7b\x7b x \x7d\x7d</user></step>\x7b\x7b endfor \x7d\x7d"
        [] .canonical {} = .ok first ∧
      Run (Expr.eval Host.idle) first ⟨0, ()⟩ turns last world ∧ turns.map Prod.fst = [none, some (.text "so")] ∧
      (∀ m ∈ last.history, m.Apart) ∧ ofJson last.toJson = .ok back ∧ back.toJson = last.toJson := by
  have made : reaches (Expr.eval Host.idle)
      "\x7b\x7b for x in [undefined, 2] \x7d\x7d<step isolated as=\"r\"><user name=\"Ann\">ask \x7b\x7b x \x7d\x7d</user></step>\x7b\x7b endfor \x7d\x7d"
      [] .canonical {} [none, some (.text "so")] ⟨0, ()⟩ (fun last _ => ∀ m ∈ last.history, m.Apart) := by
    decide +kernel
  obtain ⟨first, last, turns, world, begins, run, answers, fine⟩ := exists_run_of_reaches made
  have apart := of_decide_eq_true fine
  obtain ⟨back, read, same⟩ := stored_fixpoint last apart
  exact ⟨first, last, turns, world, back, begins, run, answers, apart, read, same⟩

end Chain
end PromptScript

/-! ## Messages as they are

In the canonical format a message is its fields beside its attributes. Reading gives back what was written, in the
form that JSON has for values, just if no attribute has the name of a field or of another attribute. -/
namespace PromptScript

namespace Value

/-! ### The form that JSON has for values -/

/-- A number that JSON has: zero has no sign, and what is not finite is null. -/
def ordinary (x : Float) : Value :=
  match Real64.ofFloat x with
  | .finite _ m _ => if m = 0 then number (Number.ofInt 0) else number x
  | _ => null

mutual

/-- A value with null for all that JSON has no value for, and with dates as strings. -/
def normal : Value → Value
  | undefined | null | callable _ | method _ _ _ => null
  | bool b => bool b
  | number x => ordinary x
  | string s => string s
  | date millis => string (Calendar.isoText millis)
  | array items => array (normalItems items)
  | object fields => object (normalFields fields)

def normalItems : List Value → List Value
  | [] => []
  | v :: r => normal v :: normalItems r

def normalFields : List (String × Value) → List (String × Value)
  | [] => []
  | (k, v) :: r => (k, normal v) :: normalFields r

end

theorem settled_number (x : Float) : (number x).settled = ordinary x := by
  show ofJson (Json.ofFloat x) = ordinary x
  unfold ordinary Json.ofFloat
  cases finite : Real64.ofFloat x with
  | nan | infinite => rfl
  | finite negative m e =>
    by_cases zero : m = 0
    · subst zero
      have none : Real64.scale 0 e = 0 := by simp [Real64.scale]
      have whole : Real64.isWhole 0 e = true := by simp [Real64.isWhole]
      dsimp only
      rw [none, if_pos ⟨whole, Nat.zero_le _⟩, if_pos rfl]
      cases negative <;> rfl
    · have plain : Number.isPlain x = true := by simp [Number.isPlain, finite, zero]
      have kept := (settled_number_eq_iff x).mpr plain
      dsimp only
      rw [if_neg zero, ← kept]
      show _ = ofJson (Json.ofFloat x)
      unfold Json.ofFloat
      rw [finite]

mutual

/-- **Plain JSON leaves the normal form of a value.** -/
theorem settled_eq_normal : ∀ v : Value, v.settled = v.normal
  | undefined | null | bool _ | string _ | date _ | callable _ | method _ _ _ => rfl
  | number x => settled_number x
  | array items => congrArg array (itemsSettled_eq_normal items)
  | object fields => congrArg object (fieldsSettled_eq_normal fields)

theorem itemsSettled_eq_normal : ∀ vs : List Value, itemsOfJson (itemsToJson vs) = normalItems vs
  | [] => rfl
  | v :: r => by
    show v.settled :: itemsOfJson (itemsToJson r) = v.normal :: normalItems r
    rw [settled_eq_normal v, itemsSettled_eq_normal r]

theorem fieldsSettled_eq_normal : ∀ fields : List (String × Value),
    fieldsOfJson (fieldsToJson fields) = normalFields fields
  | [] => rfl
  | (k, v) :: r => by
    show (k, v.settled) :: fieldsOfJson (fieldsToJson r) = (k, v.normal) :: normalFields r
    rw [settled_eq_normal v, fieldsSettled_eq_normal r]

end

end Value

theorem Attributes.settled_eq_normal : ∀ attributes : Attributes, attributes.settled = Value.normalFields attributes
  | [] => rfl
  | (k, v) :: r => by
    show (k, v.settled) :: Attributes.settled r = (k, v.normal) :: Value.normalFields r
    rw [Value.settled_eq_normal v, settled_eq_normal r]

/-! ### Messages in normal form -/

namespace Content

/-- The item with the normal forms of its values: of its kind, with its payload, each attribute under its name. -/
def normal : Content → Content
  | text s sources a => text s sources (Value.normalFields a)
  | image url a => image url (Value.normalFields a)
  | file url mimeType a => file url mimeType (Value.normalFields a)
  | toolCall id name arguments a => toolCall id name arguments.normal (Value.normalFields a)
  | toolResult id name result failed a => toolResult id name result.normal failed (Value.normalFields a)

theorem settled_eq_normal (c : Content) : c.settled = c.normal := by
  cases c <;> simp only [settled, normal, Attributes.settled_eq_normal, Value.settled_eq_normal]

end Content

namespace Message

/-- The message with the normal forms of its values, of its role, with its items, each attribute under its name. -/
def normal (m : Message) : Message := ⟨m.role, m.content.map Content.normal, Value.normalFields m.attributes⟩

theorem settled_eq_normal (m : Message) : m.settled = m.normal := by
  have items : m.content.map Content.settled = m.content.map Content.normal :=
    List.map_congr_left fun c _ => c.settled_eq_normal
  simp only [settled, normal, items, Attributes.settled_eq_normal]

end Message

/-- The conversation with its messages in normal form. -/
def Conversation.normal (c : Conversation) : Conversation := ⟨c.config, c.messages.map Message.normal⟩

/-! ### There and back -/

namespace Format

theorem encode_canonical (c : Conversation) : canonical.encode c = .ok ⟨c.config, c.messages.map Message.toJson⟩ := by
  have all : ∀ ms : List Message, ms.mapM canonical.encodeMessage = .ok (ms.map Message.toJson) := by
    intro ms
    induction ms with
    | nil => rfl
    | cons m r ih =>
      rw [List.mapM_cons, ih]
      rfl
  unfold encode
  rw [all]
  rfl

theorem decodeMessages_canonical_cons (j : Json) (r : List Json) : canonical.decodeMessages (j :: r) =
    (Message.ofJson? j).elim (.error .invalidMessage) fun m => (canonical.decodeMessages r).map (m :: ·) := by
  unfold decodeMessages
  dsimp only
  rw [List.mapM_cons]
  cases Message.ofJson? j with
  | none => rfl
  | some m =>
    generalize r.mapM (m := Except ProviderFault) _ = rest
    cases rest <;> rfl

/-- Messages are read if each of them is. -/
theorem decodeMessages_canonical_eq_ok_iff (js : List Json) (ms : List Message) :
    canonical.decodeMessages js = .ok ms ↔ js.mapM Message.ofJson? = some ms := by
  induction js generalizing ms with
  | nil => simp [decodeMessages, pure, Except.pure]
  | cons j r ih =>
    rw [decodeMessages_canonical_cons, List.mapM_cons]
    cases Message.ofJson? j with
    | none => simp
    | some m =>
      cases rest : canonical.decodeMessages r with
      | ok ms' => simp [(ih ms').mp rest, Except.map]
      | error fault =>
        have fails : ∀ ms', r.mapM Message.ofJson? ≠ some ms' := by
          intro ms' read
          cases rest.symm.trans ((ih ms').mpr read)
        simp [Option.eq_none_iff_forall_ne_some.mpr fails, Except.map]

/-- **The canonical format is lossless** just where all attributes have names of their own. -/
theorem decode_encode_canonical_iff (c : Conversation) :
    (canonical.encode c >>= canonical.decode) = .ok c.normal ↔ ∀ m ∈ c.messages, m.Distinct := by
  have reads : canonical.decodeMessages (c.messages.map Message.toJson) = .ok (c.messages.map Message.normal) ↔
      ∀ m ∈ c.messages, m.Distinct := by
    rw [decodeMessages_canonical_eq_ok_iff, mapM_map_eq_some_iff]
    refine forall₂_congr fun m _ => ?_
    rw [← m.settled_eq_normal]
    exact m.ofJson?_toJson_iff
  rw [encode_canonical, ← reads]
  show (canonical.decode ⟨c.config, c.messages.map Message.toJson⟩) = _ ↔ _
  unfold decode Conversation.normal
  cases canonical.decodeMessages (c.messages.map Message.toJson) with
  | error fault => exact ⟨nofun, nofun⟩
  | ok ms =>
    constructor
    · intro same
      exact congrArg Except.ok (Conversation.mk.inj (Except.ok.inj same)).2
    · intro same
      cases same
      rfl

end Format
end PromptScript
