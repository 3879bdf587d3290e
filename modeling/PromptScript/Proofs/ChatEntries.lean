import PromptScript.Proofs.Exchanged
import PromptScript.Proofs.Merged

/-! # Entries of chat completions, read again

An entry is read as it was written, but for what plain JSON leaves of its attributes, if they have names of their own.
The arguments of a request are read from their text, if the text gives back its numbers and is not too deep. -/
namespace PromptScript

/-- Fields beside attributes that have names of their own repeat no name. -/
theorem Attributes.Distinct.nodup_append {own : List String} {fields : List (String × Json)} {a : Attributes}
    (distinct : a.Distinct own) (once : (Fields.names fields).Nodup)
    (inside : ∀ name ∈ Fields.names fields, name ∈ own) : (Fields.names (fields ++ a.toJson)).Nodup := by
  have split : Fields.names (fields ++ a.toJson) = Fields.names fields ++ Fields.names a := by
    rw [← Attributes.names_toJson]
    simp [Fields.names]
  rw [split, List.nodup_append]
  refine ⟨once, distinct.nodup, ?_⟩
  rintro name here other there rfl
  exact distinct.apart name there (inside name here)

namespace Value

/-! ## Arguments -/

/-- Whether a value, whatever is in it, is no object that repeats a name. -/
def hasOwnNames : Value → Bool
  | object fields => decide (Fields.names fields).Nodup
  | _ => true

mutual

/-- Where no object repeats a name, none comes together. -/
theorem merged_eq_self : ∀ v : Value, v.everywhere hasOwnNames = true → v.merged = v
  | undefined, _ | null, _ | bool _, _ | number _, _ | string _, _ | date _, _ | callable _, _ | method _ _ _, _ => rfl
  | array items, named => congrArg array (mergedItems_eq_self items named)
  | object fields, named => by
    obtain ⟨once, inside⟩ := Bool.and_eq_true_iff.mp named
    show object (Fields.ofList (mergedFields fields)) = object fields
    rw [mergedFields_eq_self fields inside, Fields.ofList_of_nodup (of_decide_eq_true once)]

theorem mergedItems_eq_self : ∀ vs : List Value, everyItem hasOwnNames vs = true → mergedItems vs = vs
  | [], _ => rfl
  | v :: r, named => by
    obtain ⟨here, later⟩ := Bool.and_eq_true_iff.mp named
    rw [mergedItems, merged_eq_self v here, mergedItems_eq_self r later]

theorem mergedFields_eq_self : ∀ fields : List (String × Value), everyField hasOwnNames fields = true →
    mergedFields fields = fields
  | [], _ => rfl
  | (k, v) :: r, named => by
    obtain ⟨here, later⟩ := Bool.and_eq_true_iff.mp named
    rw [mergedFields, merged_eq_self v here, mergedFields_eq_self r later]

end

/-- A value that its text gives back: no object in it repeats a name, it is not too deep for a reader, and its numbers
are read as they are written. -/
structure Carried (v : Value) : Prop where
  named : v.everywhere hasOwnNames = true
  shallow : v.toJson.depth ≤ Json.depthLimit
  exactly : ∀ n ∈ v.toJson.numbers, n.Exact

theorem Carried.parse? {v : Value} (carried : v.Carried) : Json.parse? v.toJson.toText = some v.toJson := by
  rw [Json.parse?_toText carried.exactly, if_pos carried.shallow, ← toJson_merged, merged_eq_self v carried.named]

end Value

namespace Chat

/-! ## Parts -/

namespace Part

/-- What a part holds beyond its own fields. -/
def extra : Part → Attributes
  | text _ extra => extra
  | image _ extra => extra
  | audio _ _ extra => extra

/-- The fields of a part, without its attributes. -/
def ownFields : Part → List (String × Json)
  | text s _ => [("type", .str "text"), ("text", .str s)]
  | image url _ => [("type", .str "image"), ("image", .str url)]
  | audio data format _ => [("type", .str "input_audio"), ("data", .str data), ("format", .str format)]

theorem toJson_eq (part : Part) : part.toJson = .obj (Fields.ofList (part.ownFields ++ part.extra.toJson)) := by
  cases part <;> rfl

/-- The names of the fields of a part. -/
def fieldNames (part : Part) : List String := Fields.names part.ownFields

/-- The attributes of a part have names of their own. -/
def Distinct (part : Part) : Prop := part.extra.Distinct part.fieldNames

/-- A part is read as it was written. -/
theorem ofJson?_toJson {part : Part} (distinct : part.Distinct) : ofJson? part.toJson = some part.settled := by
  have once : part.fieldNames.Nodup := by cases part <;> simp [fieldNames, ownFields, Fields.names]
  have rest : Attributes.ofJson part.fieldNames (part.ownFields ++ part.extra.toJson) = part.extra.settled :=
    Attributes.ofJson_append (fun _ => id) distinct.apart
  unfold ofJson?
  rw [toJson_eq, Fields.ofList_of_nodup (distinct.nodup_append once fun _ => id)]
  cases part with
  | text s extra => exact congrArg (fun a => some (text s a)) rest
  | image url extra => exact congrArg (fun a => some (image url a)) rest
  | audio data format extra => exact congrArg (fun a => some (audio data format a)) rest

end Part

namespace Body

/-- The parts of a body. -/
def parts? : Body → List Part
  | text _ => []
  | parts ps => ps

/-- A body whose parts are read as they are written. -/
def Distinct (body : Body) : Prop := ∀ part ∈ body.parts?, part.Distinct

theorem ofJson?_toJson {body : Body} (distinct : body.Distinct) : ofJson? body.toJson = some body.settled := by
  cases body with
  | text s => rfl
  | parts ps =>
    have read : (ps.map Part.toJson).mapM Part.ofJson? = some (ps.map Part.settled) :=
      (mapM_map_eq_some_iff ps).mpr fun part there => Part.ofJson?_toJson (distinct part there)
    show (Json.list? Part.ofJson? (.arr (ps.map Part.toJson))).map parts = _
    unfold Json.list?
    rw [Json.arr?, Option.bind_some, read]
    rfl

end Body

/-! ## Entries -/

theorem Call.ofJson?_toJson (call : Call) : ofJson? call.toJson = some call := rfl

theorem Call.mapM_ofJson? (calls : List Call) : (calls.map toJson).mapM ofJson? = some calls := by
  have read : (calls.map toJson).mapM ofJson? = some (calls.map fun call => call) :=
    (mapM_map_eq_some_iff calls).mpr fun call _ => ofJson?_toJson call
  rwa [List.map_id'] at read

namespace Entry

/-- What an entry holds beyond its own fields. -/
def extra : Entry → Attributes
  | spoken _ _ extra => extra
  | assistant _ _ extra => extra
  | tool _ _ extra => extra

/-- The fields of an entry, without its attributes. -/
def ownFields : Entry → List (String × Json)
  | spoken role body _ => [("role", .str role.name), ("content", body.toJson)]
  | assistant body calls _ =>
    [("role", .str Role.assistant.name), ("content", (body.map Body.toJson).getD .null)] ++
      if calls = [] then [] else [("tool_calls", .arr (calls.map Call.toJson))]
  | tool id body _ => [("role", .str Role.tool.name), ("tool_call_id", .str id), ("content", body.toJson)]

theorem toJson_eq (entry : Entry) : entry.toJson = .obj (Fields.ofList (entry.ownFields ++ entry.extra.toJson)) := by
  cases entry <;> rfl

/-- The names of the fields that an entry may have. -/
def fieldNames : Entry → List String
  | spoken _ _ _ => ["role", "content"]
  | assistant _ _ _ => ["role", "content", "tool_calls"]
  | tool _ _ _ => ["role", "tool_call_id", "content"]

theorem names_ownFields (entry : Entry) :
    (Fields.names entry.ownFields).Nodup ∧ ∀ name ∈ Fields.names entry.ownFields, name ∈ entry.fieldNames := by
  cases entry with
  | assistant body calls extra =>
    by_cases silent : calls = [] <;> simp [ownFields, Fields.names, fieldNames, silent]
  | _ => simp [ownFields, Fields.names, fieldNames]

/-- The content of an entry. -/
def body? : Entry → Option Body
  | spoken _ body _ => some body
  | assistant body _ _ => body
  | tool _ body _ => some body

/-- What is spoken is said neither by an assistant nor by a tool. -/
def IsSpoken : Entry → Prop
  | spoken role _ _ => role ≠ .assistant ∧ role ≠ .tool
  | _ => True

/-- An entry whose attributes, and those of its parts, have names of their own. -/
structure Distinct (entry : Entry) : Prop where
  spoken : entry.IsSpoken
  own : entry.extra.Distinct entry.fieldNames
  parts : ∀ body ∈ entry.body?, body.Distinct

/-- What an assistant says may be missing, which is null. -/
theorem allow?_content {body : Option Body} (calls : List Call) (extra : Attributes) (parts : ∀ b ∈ body, b.Distinct) :
    Json.allow? "content" Body.ofJson? ((assistant body calls extra).ownFields ++ extra.toJson) =
      some (body.map Body.settled) := by
  cases body with
  | none => rfl
  | some body =>
    have content := Body.ofJson?_toJson (parts body rfl)
    have there : Fields.get? "content" ((assistant (some body) calls extra).ownFields ++ extra.toJson) = some body.toJson := rfl
    unfold Json.allow?
    rw [there]
    cases body with
    | text s => rfl
    | parts ps => exact congrArg (Option.map some) content

/-- An assistant that asks for nothing has no list of requests. -/
theorem given?_calls (body : Option Body) (calls : List Call) {extra : Attributes}
    (apart : "tool_calls" ∉ Fields.names extra) : ∃ asked,
      Json.given? "tool_calls" (Json.list? Call.ofJson?) ((assistant body calls extra).ownFields ++ extra.toJson) =
        some asked ∧ asked.getD [] = calls := by
  -- An empty list of requests is not written.
  by_cases silent : calls = []
  · have there : Fields.get? "tool_calls" ((assistant body calls extra).ownFields ++ extra.toJson) = none := by
      rw [Fields.get?_append, Attributes.get?_toJson_of_not_mem apart]
      simp [ownFields, silent, Fields.get?]
    refine ⟨none, ?_, silent.symm⟩
    unfold Json.given?
    rw [there]
  · have there : Fields.get? "tool_calls" ((assistant body calls extra).ownFields ++ extra.toJson) =
        some (.arr (calls.map Call.toJson)) := by
      rw [Fields.get?_append]
      simp [ownFields, silent, Fields.get?]
    refine ⟨some calls, ?_, rfl⟩
    unfold Json.given?
    rw [there]
    show ((calls.map Call.toJson).mapM Call.ofJson?).map some = _
    rw [Call.mapM_ofJson?]
    rfl

/-- **An entry is read as it was written**, if its attributes have names of their own. -/
theorem ofJson?_toJson {entry : Entry} (distinct : entry.Distinct) : ofJson? entry.toJson = some entry.settled := by
  obtain ⟨once, inside⟩ := entry.names_ownFields
  obtain ⟨said, own, parts⟩ := distinct
  have rest : Attributes.ofJson entry.fieldNames (entry.ownFields ++ entry.extra.toJson) = entry.extra.settled :=
    Attributes.ofJson_append inside own.apart
  unfold ofJson?
  rw [toJson_eq, Fields.ofList_of_nodup (own.nodup_append once inside)]
  cases entry with
  | spoken role body extra =>
    have content := Body.ofJson?_toJson (parts body rfl)
    cases role with
    | assistant => exact absurd rfl said.1
    | tool => exact absurd rfl said.2
    | system | developer | user =>
      show (Body.ofJson? body.toJson).bind (fun body => some (spoken _ body _)) = _
      rw [content]
      exact congrArg (fun a => some (spoken _ body.settled a)) rest
  | tool id body extra =>
    have content := Body.ofJson?_toJson (parts body rfl)
    show (Body.ofJson? body.toJson).bind (fun body => some (tool id body _)) = _
    rw [content]
    exact congrArg (fun a => some (tool id body.settled a)) rest
  | assistant body calls extra =>
    have own : extra.Distinct ["role", "content", "tool_calls"] := own
    have parts : ∀ b ∈ body, b.Distinct := parts
    have content := allow?_content calls extra parts
    obtain ⟨asked, given, same⟩ := given?_calls body calls fun there => own.apart _ there (by simp)
    show (Json.allow? "content" Body.ofJson? ((assistant body calls extra).ownFields ++ extra.toJson)).bind (fun b =>
      (Json.given? "tool_calls" (Json.list? Call.ofJson?) ((assistant body calls extra).ownFields ++ extra.toJson)).bind
        fun cs => some (assistant b (cs.getD []) _)) = _
    rw [content, Option.bind_some]
    rw [given, Option.bind_some, same]
    exact congrArg (fun a => some (assistant (body.map Body.settled) calls a)) rest

end Entry
end Chat
end PromptScript

/-! ## What JSON texts are read as

In what is read from a text no object repeats a name, and arrays and objects lie no deeper within each other than a reader
allows. So a value that is read from a text is given back by its own text, if that has its numbers. -/
namespace PromptScript

namespace Json

/-- What a reader makes with so many levels left: no object repeats a name, and nothing lies deeper. -/
structure Tidy (levels : Nat) (j : Json) : Prop where
  named : (Value.ofJson j).everywhere Value.hasOwnNames = true
  shallow : (Value.ofJson j).toJson.depth ≤ levels

theorem depth_ofFloat (x : Float) : (ofFloat x).depth = 0 := by
  unfold ofFloat
  split
  · dsimp only
    split <;> rfl
  · rfl

theorem tidy_number (x : Float) (levels : Nat) : (Value.number x).everywhere Value.hasOwnNames = true ∧
    (Value.number x).toJson.depth ≤ levels :=
  ⟨rfl, Nat.le_trans (Nat.le_of_eq (depth_ofFloat x)) (Nat.zero_le _)⟩

theorem tidy_int (n : Int) (levels : Nat) : Tidy levels (.int n) := ⟨(tidy_number _ levels).1, (tidy_number _ levels).2⟩

theorem tidy_float (x : Float) (levels : Nat) : Tidy levels (.float x) := ⟨(tidy_number _ levels).1, (tidy_number _ levels).2⟩

theorem depthItems_le {levels : Nat} {items : List Json} (each : ∀ j ∈ items, Tidy levels j) :
    depthItems (Value.itemsToJson (Value.itemsOfJson items)) ≤ levels := by
  induction items with
  | nil => exact Nat.zero_le _
  | cons j r ih =>
    obtain ⟨here, later⟩ := List.forall_mem_cons.mp each
    exact Nat.max_le.mpr ⟨here.shallow, ih later⟩

theorem depthFields_le {levels : Nat} {fields : List (String × Json)} (each : ∀ e ∈ fields, Tidy levels e.2) :
    depthFields (Value.fieldsToJson (Value.fieldsOfJson fields)) ≤ levels := by
  induction fields with
  | nil => exact Nat.zero_le _
  | cons e r ih =>
    obtain ⟨here, later⟩ := List.forall_mem_cons.mp each
    exact Nat.max_le.mpr ⟨here.shallow, ih later⟩

theorem tidy_arr {levels : Nat} {items : List Json} (each : ∀ j ∈ items, Tidy levels j) : Tidy (levels + 1) (.arr items) where
  named := (Value.everyItem_itemsOfJson ..).mpr fun j there => (each j there).named
  shallow := by
    show 1 + depthItems (Value.itemsToJson (Value.itemsOfJson items)) ≤ levels + 1
    rw [Nat.add_comm]
    exact Nat.succ_le_succ (depthItems_le each)

theorem names_fieldsOfJson (fields : List (String × Json)) : Fields.names (Value.fieldsOfJson fields) = Fields.names fields := by
  induction fields with
  | nil => rfl
  | cons e r ih => exact congrArg (e.1 :: ·) ih

theorem tidy_obj {levels : Nat} {fields : List (String × Json)} (each : ∀ e ∈ fields, Tidy levels e.2) :
    Tidy (levels + 1) (.obj (Fields.ofList fields)) := by
  have inside : ∀ e ∈ Fields.ofList fields, Tidy levels e.2 := fun e there => each e (Fields.mem_of_mem_ofList there)
  constructor
  · show (decide (Fields.names (Value.fieldsOfJson (Fields.ofList fields))).Nodup && _) = true
    rw [names_fieldsOfJson, decide_eq_true (Fields.nodup_names_ofList fields), Bool.true_and]
    exact (Value.everyField_fieldsOfJson ..).mpr fun e there => (inside e there).named
  · show 1 + depthFields (Value.fieldsToJson (Value.fieldsOfJson _)) ≤ levels + 1
    rw [Nat.add_comm]
    exact Nat.succ_le_succ (depthFields_le inside)

/-- A number is whole or not. -/
theorem tidy_of_readNumber? {cs r : List Char} {j : Json} (h : readNumber? cs = some (j, r)) (levels : Nat) : Tidy levels j := by
  have either {whole : Prop} [Decidable whole] {n : Int} {x? : Option Float} {f : Float → Float} {t t' : List Char}
      (h : (if whole then some (int n, t) else x?.bind fun x => some (float (f x), t')) = some (j, r)) :
      (∃ n, j = .int n) ∨ ∃ x, j = .float x := by
    split at h
    · cases h
      exact .inl ⟨n, rfl⟩
    · obtain ⟨x, -, same⟩ := Option.bind_eq_some_iff.mp h
      cases same
      exact .inr ⟨f x, rfl⟩
  have plain : (∃ n, j = .int n) ∨ ∃ x, j = .float x := by
    unfold readNumber? at h
    simp only [Option.bind_eq_bind, Option.ite_none_left_eq_some, Option.bind_eq_some_iff] at h
    obtain ⟨-, -, _, -, _, -, h⟩ := h
    exact either h
  rcases plain with ⟨n, rfl⟩ | ⟨x, rfl⟩
  · exact tidy_int n levels
  · exact tidy_float x levels

/-- The readings of texts up to a bound make what is tidy. -/
structure Tidies (fuel : Nat) : Prop where
  value {levels cs j r} (h : readValue? fuel levels cs = some (j, r)) : Tidy levels j
  items {levels cs js r} (h : readItems? fuel levels cs = some (js, r)) : ∀ j ∈ js, Tidy levels j
  fields {levels cs fs r} (h : readFields? fuel levels cs = some (fs, r)) : ∀ e ∈ fs, Tidy levels e.2

theorem tidies (fuel : Nat) : Tidies fuel := by
  induction fuel with
  | zero => exact ⟨nofun, nofun, nofun⟩
  | succ fuel ih =>
    refine ⟨fun {levels cs j r} h => ?value, fun {levels cs js r} h => ?items, fun {levels cs fs r} h => ?fields⟩
    case value =>
      unfold readValue? at h
      split at h
      · split at h
        · cases h
        · next some =>
          obtain ⟨levels, rfl⟩ := Nat.exists_eq_succ_of_ne_zero some
          split at h
          · cases h
            exact tidy_arr (List.forall_mem_nil _)
          · obtain ⟨⟨js, r⟩, read, same⟩ := Option.map_eq_some_iff.mp h
            cases same
            exact tidy_arr (ih.items read)
      · split at h
        · cases h
        · next some =>
          obtain ⟨levels, rfl⟩ := Nat.exists_eq_succ_of_ne_zero some
          split at h
          · cases h
            have none : ∀ e ∈ ([] : List (String × Json)), Tidy levels e.2 := List.forall_mem_nil _
            exact tidy_obj none
          · obtain ⟨⟨fs, r⟩, read, same⟩ := Option.map_eq_some_iff.mp h
            cases same
            exact tidy_obj (ih.fields read)
      · obtain ⟨⟨text, r⟩, -, same⟩ := Option.map_eq_some_iff.mp h
        cases same
        exact ⟨rfl, Nat.zero_le _⟩
      · split at h
        · cases h
          exact ⟨rfl, Nat.zero_le _⟩
        · split at h
          · cases h
            exact ⟨rfl, Nat.zero_le _⟩
          · split at h
            · cases h
              exact ⟨rfl, Nat.zero_le _⟩
            · exact tidy_of_readNumber? h levels
    case items =>
      unfold readItems? at h
      split at h
      · cases h
      · next j r read =>
        split at h
        · cases h
          exact List.forall_mem_singleton.mpr (ih.value read)
        · obtain ⟨⟨more, r⟩, rest, same⟩ := Option.map_eq_some_iff.mp h
          cases same
          exact List.forall_mem_cons.mpr ⟨ih.value read, ih.items rest⟩
        · cases h
    case fields =>
      unfold readFields? at h
      split at h
      · cases h
      · split at h
        · split at h
          · cases h
          · next j r read =>
            split at h
            · cases h
              exact List.forall_mem_singleton.mpr (ih.value read)
            · obtain ⟨⟨more, r⟩, rest, same⟩ := Option.map_eq_some_iff.mp h
              cases same
              exact List.forall_mem_cons.mpr ⟨ih.value read, ih.fields rest⟩
            · cases h
        · cases h

/-- **A value that is read from a text** is given back by its own text, if that has its numbers. -/
theorem carried_of_parse? {text : String} {j : Json} (h : parse? text = some j)
    (exactly : ∀ n ∈ (Value.ofJson j).toJson.numbers, n.Exact) : (Value.ofJson j).Carried := by
  unfold parse? parseWithin? at h
  split at h
  · next read =>
    split at h
    · cases h
      obtain ⟨named, shallow⟩ := (tidies _).value read
      exact ⟨named, shallow, exactly⟩
    · cases h
  · cases h

end Json
end PromptScript
