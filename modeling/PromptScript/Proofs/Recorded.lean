import PromptScript.Message.Decoding
import PromptScript.Message.Encoding
import PromptScript.Proofs.Restored

/-! # Messages through JSON

The attributes of a message are written beside its own fields. It is read as it was written, but for what plain JSON
leaves of its values, just if no attribute has the name of a field or of another attribute. -/
namespace PromptScript

namespace Fields

variable {α : Type}

theorem set_of_new {name : String} {value : α} : ∀ {fields : List (String × α)}, name ∉ names fields →
    set name value fields = fields ++ [(name, value)]
  | [], _ => rfl
  | (k, v) :: r, new => by
    obtain ⟨other, later⟩ : name ≠ k ∧ name ∉ names r := by simpa [names] using new
    rw [set, if_neg other.symm, set_of_new later]
    rfl

/-- Entries that repeat no name are fields as they are. -/
theorem ofList_of_nodup {entries : List (String × α)} (h : (names entries).Nodup) : ofList entries = entries := by
  suffices build : ∀ (later acc : List (String × α)), (names (acc ++ later)).Nodup → merge acc later = acc ++ later from
    build entries [] h
  intro later
  induction later with
  | nil => exact fun acc _ => (List.append_nil acc).symm
  | cons e r ih =>
    intro acc distinct
    have new : e.1 ∉ names acc := by
      have apart : ∀ name ∈ names acc, ∀ other ∈ names (e :: r), name ≠ other := by
        have both : (names acc ++ names (e :: r)).Nodup := by simpa [names] using distinct
        exact (List.nodup_append.mp both).2.2
      exact fun there => apart e.1 there e.1 List.mem_cons_self rfl
    show merge (set e.1 e.2 acc) r = acc ++ e :: r
    rw [set_of_new new, ih]
    · simp
    · simpa using distinct

theorem names_erase (name : String) (fields : List (String × α)) :
    names (erase name fields) = (names fields).erase name := by
  induction fields with
  | nil => rfl
  | cons e r ih =>
    unfold erase
    split
    · next same => simp [names, same]
    · next other =>
      have apart : (e.1 == name) = false := beq_eq_false_iff_ne.mpr other
      simp only [names, List.map_cons, List.erase_cons, apart] at ih ⊢
      rw [ih]
      rfl

theorem get?_append (name : String) (fields more : List (String × α)) :
    get? name (fields ++ more) = (get? name fields).or (get? name more) := by
  induction fields with
  | nil => rfl
  | cons e r ih =>
    rw [List.cons_append, get?, get?, ih]
    split <;> rfl

end Fields

namespace Attributes

/-- What plain JSON leaves of attributes. -/
def settled (attributes : Attributes) : Attributes := attributes.map fun e => (e.1, e.2.settled)

/-- Attributes under names of their own, none of which is one of `own`. -/
structure Distinct (own : List String) (attributes : Attributes) : Prop where
  nodup : (Fields.names attributes).Nodup
  apart : ∀ name ∈ Fields.names attributes, name ∉ own

instance (own : List String) (attributes : Attributes) : Decidable (Distinct own attributes) :=
  decidable_of_iff ((Fields.names attributes).Nodup ∧ ∀ name ∈ Fields.names attributes, name ∉ own)
    ⟨fun h => ⟨h.1, h.2⟩, fun h => ⟨h.nodup, h.apart⟩⟩

theorem names_settled (attributes : Attributes) : Fields.names attributes.settled = Fields.names attributes := by
  simp [settled, Fields.names]

theorem names_toJson (attributes : Attributes) : Fields.names attributes.toJson = Fields.names attributes := by
  simp [toJson, Fields.names]

theorem names_ofJson (own : List String) (fields : List (String × Json)) :
    Fields.names (ofJson own fields) = (Fields.names fields).filter fun name => !own.contains name := by
  simp [ofJson, Fields.names, List.filter_map, Function.comp_def]

/-- Attributes that are read from fields stand apart from those they are read beside, and have names that the fields
have. -/
theorem distinct_ofJson {own all : List String} {fields : List (String × Json)} (h : (Fields.names fields).Nodup)
    (other : ∀ name ∈ Fields.names fields, name ∈ all → name ∈ own) : Distinct all (ofJson own fields) := by
  constructor
  · rw [names_ofJson]
    exact h.filter _
  · intro name there inside
    rw [names_ofJson, List.mem_filter] at there
    have apart : name ∉ own := by simpa using there.2
    exact apart (other name there.1 inside)

theorem distinct_settled (own : List String) (attributes : Attributes) :
    Distinct own attributes.settled ↔ Distinct own attributes := by
  constructor
  · rintro ⟨nodup, apart⟩
    rw [names_settled] at nodup apart
    exact ⟨nodup, apart⟩
  · rintro ⟨nodup, apart⟩
    refine ⟨?_, ?_⟩
    · rw [names_settled]
      exact nodup
    · rw [names_settled]
      exact apart

/-- Attributes under other names are all that is left of their fields beside others. -/
theorem ofJson_append {own : List String} {fields : List (String × Json)} {attributes : Attributes}
    (inside : ∀ name ∈ Fields.names fields, name ∈ own) (apart : ∀ name ∈ Fields.names attributes, name ∉ own) :
    ofJson own (fields ++ attributes.toJson) = attributes.settled := by
  have none : fields.filter (fun e => !own.contains e.1) = [] := by
    refine List.filter_eq_nil_iff.mpr fun e there => ?_
    simpa using inside e.1 (List.mem_map_of_mem there)
  have all : attributes.toJson.filter (fun e => !own.contains e.1) = attributes.toJson := by
    refine List.filter_eq_self.mpr fun e there => ?_
    have named : e.1 ∈ Fields.names attributes := by
      rw [← names_toJson]
      exact List.mem_map_of_mem there
    simpa using apart e.1 named
  show List.map _ (List.filter (fun e => !own.contains e.1) (fields ++ attributes.toJson)) = _
  rw [List.filter_append, none, all, List.nil_append]
  simp [toJson, settled, Value.settled, Function.comp_def]

theorem get?_toJson_of_not_mem {name : String} {attributes : Attributes} (h : name ∉ Fields.names attributes) :
    Fields.get? name attributes.toJson = none := by
  rw [Fields.get?_eq_none_iff, names_toJson]
  exact h

end Attributes

/-- A list is read as what each of its items is read as. -/
theorem mapM_eq_some_iff {α β : Type} {f : α → Option β} {xs : List α} {ys : List β} :
    xs.mapM f = some ys ↔ xs.map f = ys.map some := by
  induction xs generalizing ys with
  | nil => cases ys <;> simp
  | cons x r ih =>
    rw [List.mapM_cons, List.map_cons]
    cases f x with
    | none => cases ys <;> simp
    | some y =>
      cases ys with
      | nil => cases r.mapM f <;> simp
      | cons z zs =>
        rw [List.map_cons, List.cons.injEq, ← ih]
        cases r.mapM f <;> simp

/-- A list is read as it was written just if every item is. -/
theorem mapM_map_eq_some_iff {α β γ : Type} {read : β → Option γ} {w : α → β} {f : α → γ} (items : List α) :
    (items.map w).mapM read = some (items.map f) ↔ ∀ a ∈ items, read (w a) = some (f a) := by
  rw [mapM_eq_some_iff, List.map_map, List.map_map, List.map_inj_left]
  rfl

theorem SourceRef.ofJson?_toJson (r : SourceRef) : ofJson? r.toJson = some r := by
  obtain ⟨start, stop, identifier⟩ := r
  unfold ofJson? toJson
  simp only [Json.record?, Option.bind_eq_bind, Option.bind_some]
  rw [Json.allow?_of_get? (w := Json.str) (f := id) (o := identifier)
    (by simp [Json.get?_present_cons, Json.get?_present_nil]) (fun _ => rfl) nofun]
  simp [Json.need?, Json.get?_present_cons, Json.index?_natCast]

/-- What plain JSON leaves of attributes is written like the attributes. -/
theorem Attributes.toJson_settled (attributes : Attributes) : attributes.settled.toJson = attributes.toJson := by
  simp [settled, toJson, Value.toJson_settled]

namespace Content

/-- An item with what plain JSON leaves of its values. -/
def settled : Content → Content
  | text s sources a => text s sources a.settled
  | image url a => image url a.settled
  | file url mimeType a => file url mimeType a.settled
  | toolCall id name arguments a => toolCall id name arguments.settled a.settled
  | toolResult id name result failed a => toolResult id name result.settled failed a.settled

/-- The names of the fields that an item of a kind may have, but for the kind. -/
def fieldNames : Content → List String
  | text _ _ _ => ["text", "_promptlSourceMap"]
  | image _ _ => ["image"]
  | file _ _ _ => ["file", "mimeType"]
  | toolCall _ _ _ _ => ["toolCallId", "toolName", "toolArguments"]
  | toolResult _ _ _ _ _ => ["toolCallId", "toolName", "result", "isError"]

/-- The attributes of an item have names of their own. -/
def Distinct (c : Content) : Prop := c.attributes.Distinct ("type" :: c.fieldNames)

instance (c : Content) : Decidable c.Distinct :=
  inferInstanceAs (Decidable (c.attributes.Distinct ("type" :: c.fieldNames)))

theorem attributes_settled (c : Content) : c.settled.attributes = c.attributes.settled := by cases c <;> rfl

theorem fieldNames_settled (c : Content) : c.settled.fieldNames = c.fieldNames := by cases c <;> rfl

theorem toJson_settled (c : Content) : c.settled.toJson = c.toJson := by
  have same : c.settled.entries = c.entries := by
    cases c <;> simp [entries, ownFields, settled, kindName, attributes, Attributes.toJson_settled, Value.toJson_settled]
  unfold toJson
  rw [same]

/-- The attributes of an item are read beside its own fields. -/
theorem attributes_of_ofFields? {kind : String} {fields : List (String × Json)} {c : Content}
    (h : ofFields? kind fields = some c) : c.attributes = Attributes.ofJson c.fieldNames fields := by
  unfold ofFields? at h
  split at h
  · simp only [Option.bind_eq_bind, Option.bind_eq_some_iff, Option.pure_def, Option.some.injEq] at h
    obtain ⟨_, -, _, -, rfl⟩ := h
    rfl
  · simp only [Option.bind_eq_bind, Option.bind_eq_some_iff, Option.pure_def, Option.some.injEq] at h
    obtain ⟨_, -, rfl⟩ := h
    rfl
  · simp only [Option.bind_eq_bind, Option.bind_eq_some_iff, Option.pure_def, Option.some.injEq] at h
    obtain ⟨_, -, _, -, rfl⟩ := h
    rfl
  · simp only [Option.bind_eq_bind, Option.bind_eq_some_iff, Option.pure_def, Option.some.injEq] at h
    obtain ⟨_, -, _, -, rfl⟩ := h
    rfl
  · simp only [Option.bind_eq_bind, Option.bind_eq_some_iff, Option.pure_def, Option.some.injEq] at h
    obtain ⟨_, -, _, -, _, -, _, -, rfl⟩ := h
    rfl
  · cases h

theorem names_ownFields (c : Content) :
    (Fields.names c.ownFields).Nodup ∧ ∀ name ∈ Fields.names c.ownFields, name ∈ c.fieldNames := by
  cases c with
  | text s sources a => cases sources <;> simp [ownFields, Json.present, Fields.names, fieldNames]
  | toolResult id name result failed a => cases failed <;> simp [ownFields, Json.present, Fields.names, fieldNames]
  | _ => simp [ownFields, Fields.names, fieldNames]

/-- An item whose attributes have names of their own repeats no name. -/
theorem nodup_names_entries {c : Content} (distinct : c.Distinct) : (Fields.names c.entries).Nodup := by
  obtain ⟨own, inside⟩ := names_ownFields c
  obtain ⟨nodup, apart⟩ := distinct
  have untyped : "type" ∉ c.fieldNames := by cases c <;> simp [fieldNames]
  have split : Fields.names c.entries = "type" :: (Fields.names c.ownFields ++ Fields.names c.attributes) := by
    rw [← Attributes.names_toJson]
    simp [entries, Fields.names]
  rw [split, List.nodup_cons, List.nodup_append, List.mem_append]
  refine ⟨?_, own, nodup, ?_⟩
  · rintro (there | there)
    · exact untyped (inside _ there)
    · exact apart _ there List.mem_cons_self
  · rintro name there other more rfl
    exact apart name more (List.mem_cons_of_mem _ (inside name there))

/-- An item is read from its fields in the order in which they are written. -/
theorem ofFields?_ownFields {c : Content} (distinct : c.Distinct) :
    ofFields? c.kindName (c.ownFields ++ c.attributes.toJson) = some c.settled := by
  have rest : Attributes.ofJson c.fieldNames (c.ownFields ++ c.attributes.toJson) = c.attributes.settled :=
    Attributes.ofJson_append (names_ownFields c).2 fun name there own =>
      distinct.apart name there (List.mem_cons_of_mem _ own)
  have free (name : String) (own : name ∈ c.fieldNames) : Fields.get? name c.attributes.toJson = none :=
    Attributes.get?_toJson_of_not_mem fun there => distinct.apart name there (List.mem_cons_of_mem _ own)
  cases c with
  | text s sources a =>
    simp only [kindName, ownFields, attributes, fieldNames] at rest free ⊢
    have places := free "_promptlSourceMap" (by simp)
    unfold ofFields?
    simp only [rest, Option.bind_eq_bind]
    rw [Json.allow?_of_get? (w := fun refs => .arr (refs.map SourceRef.toJson)) (f := id) (o := sources)
      (by simp [Fields.get?_append, Json.get?_present_cons, Json.get?_present_nil, places])
      (fun refs => by simpa [Json.list?, Json.arr?] using
        (mapM_map_eq_some_iff (f := id) refs).mpr fun r _ => SourceRef.ofJson?_toJson r) (by rintro _ ⟨⟩)]
    simp [Json.need?, Fields.get?_append, Json.get?_present_cons, Json.str?, settled]
  | image url a =>
    simp only [kindName, ownFields, attributes, fieldNames] at rest ⊢
    unfold ofFields?
    simp only [rest, Option.bind_eq_bind]
    simp [Json.need?, Fields.get?, Json.str?, settled]
  | file url mimeType a =>
    simp only [kindName, ownFields, attributes, fieldNames] at rest ⊢
    unfold ofFields?
    simp only [rest, Option.bind_eq_bind]
    simp [Json.need?, Fields.get?, Json.str?, settled]
  | toolCall id name arguments a =>
    simp only [kindName, ownFields, attributes, fieldNames] at rest ⊢
    unfold ofFields?
    simp only [rest, Option.bind_eq_bind]
    simp [Json.need?, Fields.get?, Json.str?, settled, Value.settled]
  | toolResult call name result failed a =>
    simp only [kindName, ownFields, attributes, fieldNames] at rest free ⊢
    have flag := free "isError" (by simp)
    unfold ofFields?
    simp only [rest, Option.bind_eq_bind]
    rw [Json.allow?_of_get? (w := Json.bool) (f := id) (o := failed)
      (by simp [Fields.get?_append, Json.get?_present_cons, Json.get?_present_nil, flag]) (fun _ => rfl) (by rintro _ ⟨⟩)]
    simp [Json.need?, Fields.get?_append, Json.get?_present_cons, Json.str?, settled, Value.settled]

/-- **An item is read as it was written** just if its attributes have names of their own. -/
theorem ofJson?_toJson_iff (c : Content) : ofJson? c.toJson = some c.settled ↔ c.Distinct := by
  constructor
  · intro read
    unfold ofJson? toJson at read
    simp only [Json.obj?, Option.bind_eq_bind, Option.bind_some, Option.bind_eq_some_iff] at read
    obtain ⟨kind, -, rest⟩ := read
    have same := attributes_of_ofFields? rest
    rw [attributes_settled, fieldNames_settled] at same
    have whole : (Fields.names (Fields.ofList c.entries)).Nodup := Fields.nodup_names_ofList _
    have distinct : Attributes.Distinct ("type" :: c.fieldNames) c.attributes.settled := by
      rw [same]
      refine Attributes.distinct_ofJson ?_ fun name there inside => ?_
      · rw [Fields.names_erase]
        exact whole.erase _
      · rcases List.mem_cons.mp inside with rfl | own
        · rw [Fields.names_erase] at there
          exact absurd there whole.not_mem_erase
        · exact own
    exact (Attributes.distinct_settled ..).mp distinct
  · intro distinct
    unfold ofJson? toJson
    rw [Fields.ofList_of_nodup (nodup_names_entries distinct)]
    simp only [entries, Json.obj?, Json.need?, Fields.get?, Fields.erase, Json.str?, Option.bind_eq_bind,
      Option.bind_some, if_true]
    exact ofFields?_ownFields distinct

end Content

namespace Message

/-- A message with what plain JSON leaves of its values. -/
def settled (m : Message) : Message := ⟨m.role, m.content.map Content.settled, m.attributes.settled⟩

theorem toJson_settled (m : Message) : m.settled.toJson = m.toJson := by
  have items : m.content.map (Content.toJson ∘ Content.settled) = m.content.map Content.toJson :=
    List.map_congr_left fun c _ => Content.toJson_settled c
  have same : m.settled.entries Content.toJson = m.entries Content.toJson := by
    simp only [entries, settled, List.map_map, items, Attributes.toJson_settled]
  unfold toJson
  rw [same]

/-- The names of the fields of a message. -/
def fieldNames : List String := ["role", "content"]

/-- The attributes of a message, and those of each of its items, have names of their own. -/
structure Distinct (m : Message) : Prop where
  own : m.attributes.Distinct fieldNames
  items : ∀ c ∈ m.content, c.Distinct

instance (m : Message) : Decidable m.Distinct :=
  decidable_of_iff (m.attributes.Distinct fieldNames ∧ ∀ c ∈ m.content, c.Distinct)
    ⟨fun h => ⟨h.1, h.2⟩, fun h => ⟨h.own, h.items⟩⟩

theorem nodup_names_entries {m : Message} (distinct : m.attributes.Distinct fieldNames) :
    (Fields.names (m.entries Content.toJson)).Nodup := by
  obtain ⟨nodup, apart⟩ := distinct
  have split : Fields.names (m.entries Content.toJson) = fieldNames ++ Fields.names m.attributes := by
    rw [← Attributes.names_toJson]
    simp [entries, Fields.names, fieldNames]
  rw [split, List.nodup_append]
  refine ⟨by simp [fieldNames], nodup, ?_⟩
  rintro name own other there rfl
  exact apart name there own

/-- **A message is read as it was written** just if its attributes have names of their own, and those of its items
have, too. -/
theorem ofJson?_toJson_iff (m : Message) : ofJson? m.toJson = some m.settled ↔ m.Distinct := by
  have reads (distinct : m.attributes.Distinct fieldNames) : ofJson? m.toJson =
      ((m.content.map Content.toJson).mapM Content.ofJson?).map fun items =>
        ⟨m.role, items, m.attributes.settled⟩ := by
    have role : Role.ofJson? (.str m.role.name) = some m.role := Role.ofName?_name m.role
    have rest : Attributes.ofJson ["role", "content"] (m.entries Content.toJson) = m.attributes.settled :=
      Attributes.ofJson_append (by simp [Fields.names]) distinct.apart
    unfold ofJson? toJson
    rw [Fields.ofList_of_nodup (nodup_names_entries distinct)]
    simp only [Json.obj?, Option.bind_eq_bind, Option.bind_some, rest]
    simp only [entries, List.cons_append, Json.need?, Fields.get?, Option.bind_some, role, Json.list?, Json.arr?,
      if_true, String.reduceEq, if_false]
    rw [Option.map_eq_bind]
    rfl
  constructor
  · intro read
    have distinct : m.attributes.Distinct fieldNames := by
      unfold ofJson? toJson at read
      simp only [Json.obj?, Option.bind_eq_bind, Option.bind_some, Option.bind_eq_some_iff, Option.pure_def,
        Option.some.injEq] at read
      obtain ⟨_, -, _, -, same⟩ := read
      have same : Attributes.ofJson fieldNames _ = m.attributes.settled := congrArg attributes same
      rw [← Attributes.distinct_settled, ← same]
      exact Attributes.distinct_ofJson (Fields.nodup_names_ofList _) fun _ _ own => own
    rw [reads distinct] at read
    obtain ⟨items, all, same⟩ := Option.map_eq_some_iff.mp read
    obtain rfl : items = m.content.map Content.settled := congrArg content same
    exact ⟨distinct, fun c there => (Content.ofJson?_toJson_iff c).mp ((mapM_map_eq_some_iff m.content).mp all c there)⟩
  · rintro ⟨distinct, items⟩
    rw [reads distinct, (mapM_map_eq_some_iff (f := Content.settled) m.content).mpr fun c there =>
      (Content.ofJson?_toJson_iff c).mpr (items c there)]
    rfl

end Message
end PromptScript
