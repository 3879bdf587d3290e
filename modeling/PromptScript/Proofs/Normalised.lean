import PromptScript.Proofs.ChatEntries
import PromptScript.Proofs.ChatForms
import PromptScript.Proofs.Fixpoint
import PromptScript.Proofs.Responses

/-! # Messages of a provider, normalised

Messages of a provider are read into messages, and these are written in the format of the provider again. Content that is a
single text becomes a list of one part or the other way round, the answer of a tool one text, audio of other formats a
text, and the arguments of a request are written anew. One round of this leaves nothing to do for another: what has been
written is read as entries that are written as they are. -/
namespace PromptScript

/-- Fields with an entry in front: it keeps its place, and takes what is last set under its name. -/
theorem Fields.ofList_cons {α : Type} (k : String) (v : α) (more : List (String × α)) :
    ∃ w, (w = v ∨ (k, w) ∈ more) ∧ ofList ((k, v) :: more) = (k, w) :: ofList (more.filter fun e => e.1 ≠ k) := by
  suffices build : ∀ v acc, ∃ w, (w = v ∨ (k, w) ∈ more) ∧
      merge ((k, v) :: acc) more = (k, w) :: merge acc (more.filter fun e => e.1 ≠ k) from build v []
  induction more with
  | nil => exact fun v acc => ⟨v, .inl rfl, rfl⟩
  | cons e r ih =>
    intro v acc
    by_cases same : e.1 = k
    · obtain ⟨w, from_, built⟩ := ih e.2 acc
      have placed : set e.1 e.2 ((k, v) :: acc) = (k, e.2) :: acc := if_pos same.symm
      have gone : (e :: r).filter (fun e => e.1 ≠ k) = r.filter fun e => e.1 ≠ k := List.filter_cons_of_neg (by simp [same])
      refine ⟨w, .inr ?_, ?_⟩
      · rcases from_ with rfl | there
        · rw [← same]
          exact List.mem_cons_self
        · exact List.mem_cons_of_mem _ there
      · rw [gone]
        exact (congrArg (merge · r) placed).trans built
    · obtain ⟨w, from_, built⟩ := ih v (set e.1 e.2 acc)
      have placed : set e.1 e.2 ((k, v) :: acc) = (k, v) :: set e.1 e.2 acc := if_neg (Ne.symm same)
      have kept : (e :: r).filter (fun e => e.1 ≠ k) = e :: r.filter fun e => e.1 ≠ k :=
        List.filter_cons_of_pos (by simp [same])
      refine ⟨w, from_.imp_right (List.mem_cons_of_mem _), ?_⟩
      rw [kept]
      exact (congrArg (merge · r) placed).trans built

theorem Attributes.apart_ofJson (own : List String) (fields : List (String × Json)) :
    ∀ name ∈ Fields.names (ofJson own fields), name ∉ own := by
  intro name there
  rw [names_ofJson, List.mem_filter] at there
  simpa using there.2

/-- A file that is no sound of a known format is written as a text, and an attribute `text` takes the place of that text:
it has to be a text, too. -/
def Content.Captioned : Content → Prop
  | file _ mimeType a => mimeType = "audio/mpeg" ∨ mimeType = "audio/wav" ∨ ∀ v, ("text", v) ∈ a → ∃ s, v = .string s
  | _ => True

instance : DecidablePred Content.Captioned
  | .file _ mimeType a => decidable_of_iff
      (mimeType = "audio/mpeg" ∨ mimeType = "audio/wav" ∨ ∀ e ∈ a, e.1 = "text" → e.2.string?.isSome = true) <| by
    refine or_congr_right (or_congr_right ⟨fun h v there => ?_, fun h e there same => ?_⟩)
    · have text := h _ there rfl
      cases v <;> cases text
      exact ⟨_, rfl⟩
    · obtain ⟨s, text⟩ := h e.2 (same ▸ there)
      rw [text]
      rfl
  | .text _ _ _ | .image _ _ | .toolCall _ _ _ _ | .toolResult _ _ _ _ _ => .isTrue trivial

/-- The arguments that an item asks with. -/
def Content.arguments? : Content → Option Value
  | toolCall _ _ arguments _ => some arguments
  | _ => none

section Except

variable {ε α β : Type}

theorem exists_of_bind {x : Except ε α} {f : α → Except ε β} {b : β} (h : (x >>= f) = .ok b) :
    ∃ a, x = .ok a ∧ f a = .ok b := by
  cases x with
  | error e => cases h
  | ok a => exact ⟨a, rfl, h⟩

theorem exists_of_map {x : Except ε α} {f : α → β} {b : β} (h : x.map f = .ok b) : ∃ a, x = .ok a ∧ f a = b := by
  cases x with
  | error e => cases h
  | ok a => exact ⟨a, rfl, Except.ok.inj h⟩

theorem exists_of_toOption {x : Except ε α} {f : α → β} {b : β} (h : x.toOption.map f = some b) :
    ∃ a, x = .ok a ∧ f a = b := by
  cases x with
  | error e => cases h
  | ok a => exact ⟨a, rfl, Option.some.inj h⟩

end Except

namespace Chat

/-! ## Parts -/

namespace Part

/-- No attribute has the name of a field of the part. -/
def Apart (part : Part) : Prop := ∀ name ∈ Fields.names part.extra, name ∉ part.fieldNames

theorem apart_of_ofJson? {j : Json} {part : Part} (h : ofJson? j = some part) : part.Apart := by
  unfold ofJson? at h
  simp only [Option.bind_eq_bind, Option.bind_eq_some_iff] at h
  obtain ⟨fields, -, kind, -, h⟩ := h
  split at h
  · obtain ⟨s, -, same⟩ := Option.bind_eq_some_iff.mp h
    cases same
    exact Attributes.apart_ofJson ["type", "text"] fields
  · obtain ⟨s, -, same⟩ := Option.bind_eq_some_iff.mp h
    cases same
    exact Attributes.apart_ofJson ["type", "image"] fields
  · obtain ⟨s, -, h⟩ := Option.bind_eq_some_iff.mp h
    obtain ⟨format, -, same⟩ := Option.bind_eq_some_iff.mp h
    cases same
    exact Attributes.apart_ofJson ["type", "data", "format"] fields
  · cases h

/-- The part with each attribute once, as it was last set. -/
def merged : Part → Part
  | text s a => text s (Fields.ofList a)
  | image url a => image url (Fields.ofList a)
  | audio data format a => audio data format (Fields.ofList a)

theorem extra_merged (part : Part) : part.merged.extra = Fields.ofList part.extra := by cases part <;> rfl

theorem ownFields_merged (part : Part) : part.merged.ownFields = part.ownFields := by cases part <;> rfl

theorem Apart.distinct {part : Part} (apart : part.Apart) : part.merged.Distinct := by
  unfold Distinct fieldNames
  rw [extra_merged, ownFields_merged]
  exact ⟨Fields.nodup_names_ofList _, fun name there => apart name (Fields.mem_names_ofList.mp there)⟩

/-- In JSON a name that is repeated stands once. -/
theorem Apart.toJson_merged {part : Part} (apart : part.Apart) : part.merged.toJson = part.toJson := by
  have once : (Fields.names part.ownFields).Nodup := by cases part <;> simp [ownFields, Fields.names]
  rw [toJson_eq, toJson_eq, ownFields_merged, extra_merged, Attributes.ofList_append_ofList once apart]

/-- A part is written like one that is read as it is written, and is made again of the item it is read as. -/
structure Replays (part? : Content → Option Part) (part again : Part) : Prop where
  same : again.toJson = part.toJson
  distinct : again.Distinct
  back : part? again.settled.toContent = some again.settled

theorem Apart.replays {part? : Content → Option Part} {part : Part} (apart : part.Apart)
    (back : part? part.merged.settled.toContent = some part.merged.settled) : part.Replays part? part.merged :=
  ⟨apart.toJson_merged, apart.distinct, back⟩

/-- What is made of an item that a part is read as stays. -/
theorem replays_of_textPart? {q part : Part} (apart : q.Apart) (made : textPart? q.toContent = some part) :
    ∃ again, part.Replays textPart? again := by
  cases q with
  | text s a =>
    cases made
    exact ⟨_, apart.replays rfl⟩
  | image url a => cases made
  | audio data format a => cases made

/-- Sound of another format becomes a text. An attribute `text` of it, which is then a field of that text, counts. -/
theorem replays_sound {file : String} {a : Attributes} (apart : ∀ name ∈ Fields.names a, name ∉ ["type", "data", "format"])
    (captioned : ∀ v, ("text", v) ∈ a → ∃ s, v = .string s) : ∃ again, (text file a).Replays userPart? again := by
  obtain ⟨w, from_, placed⟩ := Fields.ofList_cons "text" (Json.str file) a.toJson
  obtain ⟨t, rfl⟩ : ∃ t, w = .str t := by
    rcases from_ with rfl | there
    · exact ⟨file, rfl⟩
    · obtain ⟨⟨name, v⟩, mem, same⟩ := List.mem_map.mp there
      obtain ⟨rfl, rfl⟩ := Prod.mk.inj same
      obtain ⟨s, rfl⟩ := captioned v mem
      exact ⟨s, rfl⟩
  let others : Attributes := a.filter fun e => e.1 ≠ "text"
  have rest : Attributes.toJson others = a.toJson.filter fun e => e.1 ≠ "text" := by
    show _ = List.filter _ (List.map _ a)
    rw [List.filter_map]
    rfl
  have untyped : "type" ∉ Fields.names a := fun there => apart _ there (by simp)
  have others_apart : (text t others).Apart := by
    intro name there
    obtain ⟨⟨name, v⟩, mem, rfl⟩ := List.mem_map.mp there
    obtain ⟨mem, other⟩ := List.mem_filter.mp mem
    have typed : name ≠ "type" := fun same => untyped (same ▸ List.mem_map.mpr ⟨_, mem, rfl⟩)
    simpa [fieldNames, ownFields, Fields.names, typed] using other
  have whole : (text t others).toJson = (text file a).toJson := by
    have own : ∀ name ∈ Fields.names (Attributes.toJson others), name ∉ ["type", "text"] := by
      rw [Attributes.names_toJson]
      exact others_apart
    have first : ∀ name ∈ Fields.names (("text", Json.str file) :: a.toJson), name ∉ ["type"] := by
      intro name there type
      obtain rfl := List.mem_singleton.mp type
      rcases List.mem_cons.mp there with same | there
      · exact absurd same (by simp)
      · exact untyped (Attributes.names_toJson a ▸ there)
    rw [toJson_eq, toJson_eq]
    refine congrArg Json.obj ?_
    calc Fields.ofList ([("type", .str "text"), ("text", .str t)] ++ Attributes.toJson others)
        = [("type", .str "text"), ("text", .str t)] ++ Fields.ofList (Attributes.toJson others) :=
          Fields.ofList_append (by simp [Fields.names]) own
      _ = [("type", .str "text")] ++ Fields.ofList (("text", .str file) :: a.toJson) := by rw [placed, rest]; rfl
      _ = Fields.ofList ([("type", .str "text")] ++ (("text", .str file) :: a.toJson)) :=
          (Fields.ofList_append (by simp [Fields.names]) first).symm
  exact ⟨_, others_apart.toJson_merged.trans whole, others_apart.distinct, rfl⟩

theorem replays_of_userPart? {q part : Part} (apart : q.Apart) (captioned : q.toContent.Captioned)
    (made : userPart? q.toContent = some part) : ∃ again, part.Replays userPart? again := by
  cases q with
  | text s a =>
    cases made
    exact ⟨_, apart.replays rfl⟩
  | image url a =>
    cases made
    exact ⟨_, apart.replays rfl⟩
  | audio data format a =>
    have made : filePart data ("audio/" ++ format) a = part := Option.some.inj made
    unfold filePart at made
    split at made
    · subst made
      have alike : (audio data "mpeg" a).Apart := apart
      exact ⟨_, alike.replays rfl⟩
    · next mpeg =>
      split at made
      · subst made
        have alike : (audio data "wav" a).Apart := apart
        exact ⟨_, alike.replays rfl⟩
      · next wav =>
        subst made
        exact replays_sound apart ((captioned.resolve_left mpeg).resolve_left wav)

end Part

/-! ## Contents -/

/-- The parts of a content; a text alone is one part. -/
def Body.listed : Body → List Part
  | text s => [.text s []]
  | parts ps => ps

theorem Body.toContent_eq (body : Body) : body.toContent = body.listed.map Part.toContent := by cases body <;> rfl

/-- Items have these parts. -/
theorem partsOf_eq_ok_iff {role : Role} {part? : Content → Option Part} {items : List Content} {made : List Part} :
    partsOf role part? items = .ok made ↔ items.map part? = made.map some := by
  induction items generalizing made with
  | nil => cases made <;> simp [partsOf, pure, Except.pure]
  | cons c r ih =>
    cases first : part? c with
    | none =>
      rw [partsOf_of_none first]
      cases made <;> simp [first]
    | some part =>
      rw [partsOf_of_some first, List.map_cons, first]
      cases made with
      | nil => cases partsOf role part? r <;> simp [Except.map]
      | cons p ps =>
        rw [List.map_cons, List.cons.injEq, ← ih]
        cases partsOf role part? r <;> simp [Except.map]

/-- What is made of the items that parts are read as stays. -/
theorem partsOf_replays {role : Role} {part? : Content → Option Part} {qs made : List Part}
    (each : ∀ q ∈ qs, ∀ part, part? q.toContent = some part → ∃ again, part.Replays part? again)
    (h : partsOf role part? (qs.map Part.toContent) = .ok made) :
    ∃ again : List Part, again.map Part.toJson = made.map Part.toJson ∧ (∀ part ∈ again, part.Distinct) ∧
      partsOf role part? (again.map fun part => part.settled.toContent) = .ok (again.map Part.settled) := by
  simp only [partsOf_eq_ok_iff, List.map_map] at h ⊢
  induction qs generalizing made with
  | nil =>
    obtain rfl : made = [] := List.map_eq_nil_iff.mp h.symm
    exact ⟨[], rfl, List.forall_mem_nil _, rfl⟩
  | cons q r ih =>
    obtain ⟨here, later⟩ := List.forall_mem_cons.mp each
    obtain ⟨part, ps, rfl, first, rest⟩ := List.map_eq_cons_iff.mp h.symm
    obtain ⟨again, replays⟩ := here part first.symm
    obtain ⟨agains, same, distinct, back⟩ := ih later rest.symm
    refine ⟨again :: agains, ?_, List.forall_mem_cons.mpr ⟨replays.distinct, distinct⟩, ?_⟩
    · rw [List.map_cons, List.map_cons, replays.same, same]
    · exact congrArg₂ List.cons replays.back back

/-- A content is written like one that is read as it is written, and is made again of the items it is read as. -/
structure Body.Replays (write : List Content → Except ProviderFault Body) (body again : Body) : Prop where
  same : again.toJson = body.toJson
  distinct : again.Distinct
  back : write again.settled.toContent = .ok again.settled

/-- The content that items make, given how one becomes a part and what becomes of the parts. -/
def writeWith (shape : List Part → Body) (role : Role) (part? : Content → Option Part) (items : List Content) :
    Except ProviderFault Body :=
  (partsOf role part? items).map shape

theorem replays_parts {role : Role} {part? : Content → Option Part} {qs made : List Part}
    (each : ∀ q ∈ qs, ∀ part, part? q.toContent = some part → ∃ again, part.Replays part? again)
    (h : partsOf role part? (qs.map Part.toContent) = .ok made) :
    ∃ again, (Body.parts made).Replays (writeWith .parts role part?) (.parts again) := by
  obtain ⟨again, same, distinct, back⟩ := partsOf_replays each h
  refine ⟨again, congrArg Json.arr same, distinct, ?_⟩
  show (partsOf role part? ((again.map Part.settled).map Part.toContent)).map Body.parts = _
  rw [List.map_map]
  exact congrArg (Except.map Body.parts) back

theorem texts_of_partsOf {role : Role} {items : List Content} {made : List Part}
    (h : partsOf role textPart? items = .ok made) : ∀ part ∈ made, ∃ s a, part = .text s a := by
  intro part there
  have from_ : some part ∈ items.map textPart? := partsOf_eq_ok_iff.mp h ▸ List.mem_map_of_mem there
  obtain ⟨c, -, same⟩ := List.mem_map.mp from_
  cases c <;> cases same
  exact ⟨_, _, rfl⟩

/-- A single text is written alone, and a text alone is read as a single text. -/
theorem replays_soleText {role : Role} {qs made : List Part} (apart : ∀ q ∈ qs, q.Apart)
    (h : partsOf role textPart? (qs.map Part.toContent) = .ok made) :
    ∃ again, (soleText made).Replays (writeWith soleText role textPart?) again := by
  obtain ⟨again, same, distinct, back⟩ := partsOf_replays (fun q there _ => Part.replays_of_textPart? (apart q there)) h
  have length : again.length = made.length := by simpa using congrArg List.length same
  match made, length with
  | [], empty =>
    obtain rfl : again = [] := List.eq_nil_of_length_eq_zero empty
    exact ⟨.parts [], rfl, List.forall_mem_nil _, rfl⟩
  | [part], _ =>
    obtain ⟨s, a, rfl⟩ := texts_of_partsOf h part List.mem_cons_self
    exact ⟨.text s, rfl, List.forall_mem_nil _, rfl⟩
  | p :: p' :: r, several =>
    have several : 2 ≤ again.length := several ▸ Nat.le_add_left 2 _
    have together : soleText (p :: p' :: r) = .parts (p :: p' :: r) := soleText_of_several (Nat.le_add_left 2 r.length)
    rw [together]
    refine ⟨.parts again, congrArg Json.arr same, distinct, ?_⟩
    show (partsOf role textPart? ((again.map Part.settled).map Part.toContent)).map soleText = _
    rw [List.map_map]
    refine (congrArg (Except.map soleText) back).trans ?_
    rw [Except.map, soleText_settled, soleText_of_several several]

/-! ## Entries -/

namespace Entry

/-- No attribute of an entry has the name of a field that entries of its kind may have, and so for its parts. -/
structure Apart (entry : Entry) : Prop where
  spoken : entry.IsSpoken
  own : ∀ name ∈ Fields.names entry.extra, name ∉ entry.fieldNames
  parts : ∀ body ∈ entry.body?, ∀ part ∈ body.listed, part.Apart

end Entry

theorem Body.apart_of_ofJson? {j : Json} {body : Body} (h : ofJson? j = some body) : ∀ part ∈ body.listed, part.Apart := by
  have alone (s : String) : (Part.text s []).Apart := fun _ none => absurd none List.not_mem_nil
  unfold ofJson? at h
  split at h
  · next s =>
    cases h
    exact List.forall_mem_singleton.mpr (alone s)
  · obtain ⟨ps, read, rfl⟩ := Option.map_eq_some_iff.mp h
    obtain ⟨items, -, read⟩ := Option.bind_eq_some_iff.mp read
    intro part there
    have from_ : some part ∈ items.map Part.ofJson? := mapM_eq_some_iff.mp read ▸ List.mem_map_of_mem there
    obtain ⟨item, -, made⟩ := List.mem_map.mp from_
    exact Part.apart_of_ofJson? made

theorem Entry.apart_of_ofJson? {j : Json} {entry : Entry} (h : ofJson? j = some entry) : entry.Apart := by
  unfold ofJson? at h
  simp only [Option.bind_eq_bind, Option.bind_eq_some_iff] at h
  obtain ⟨fields, -, name, -, role, -, h⟩ := h
  have content {body : Body} (read : Json.need? "content" Body.ofJson? fields = some body) :
      ∀ part ∈ body.listed, part.Apart := by
    obtain ⟨j, -, read⟩ := Option.bind_eq_some_iff.mp read
    exact Body.apart_of_ofJson? read
  split at h
  case h_1 =>
    simp only [Option.bind_eq_some_iff] at h
    obtain ⟨body, read, calls, -, same⟩ := h
    cases same
    refine ⟨trivial, Attributes.apart_ofJson ["role", "content", "tool_calls"] fields, ?_⟩
    intro b there
    obtain rfl : body = some b := there
    -- What an assistant says may be missing.
    unfold Json.allow? at read
    split at read
    · cases read
    · cases read
    · next j _ =>
      obtain ⟨body, read, same⟩ := Option.map_eq_some_iff.mp read
      cases same
      exact Body.apart_of_ofJson? read
  case h_2 =>
    simp only [Option.bind_eq_some_iff] at h
    obtain ⟨id, -, body, read, same⟩ := h
    cases same
    refine ⟨trivial, Attributes.apart_ofJson ["role", "tool_call_id", "content"] fields, ?_⟩
    rintro b ⟨⟩
    exact content read
  case h_3 role assistant tool =>
    obtain ⟨body, read, same⟩ := Option.bind_eq_some_iff.mp h
    cases same
    refine ⟨⟨assistant, tool⟩, Attributes.apart_ofJson ["role", "content"] fields, ?_⟩
    rintro b ⟨⟩
    exact content read

/-- An entry is written like one that is read as it is written, as a message of which it is made again. -/
structure Entry.Replays (entry again : Entry) : Prop where
  same : again.toJson = entry.toJson
  distinct : again.Distinct
  back : ∀ tools, ∃ m tools', again.settled.toMessage tools = .ok (m, tools') ∧ ofMessage m = .ok again.settled

/-- An entry stands for one with the same own fields whose attributes stand once each. -/
theorem Entry.replays {entry again : Entry} (apart : ∀ name ∈ Fields.names entry.extra, name ∉ entry.fieldNames)
    (own : again.ownFields = entry.ownFields) (extra : again.extra = Fields.ofList entry.extra)
    (names : again.fieldNames = entry.fieldNames) (spoken : again.IsSpoken) (parts : ∀ body ∈ again.body?, body.Distinct)
    (back : ∀ tools, ∃ m tools', again.settled.toMessage tools = .ok (m, tools') ∧ ofMessage m = .ok again.settled) :
    entry.Replays again where
  same := by
    obtain ⟨once, inside⟩ := entry.names_ownFields
    have outside : ∀ name ∈ Fields.names entry.extra, name ∉ Fields.names entry.ownFields :=
      fun name there here => apart name there (inside name here)
    rw [toJson_eq, toJson_eq, own, extra, Attributes.ofList_append_ofList once outside]
  distinct := by
    refine ⟨spoken, ⟨?_, ?_⟩, parts⟩
    · rw [extra]
      exact Fields.nodup_names_ofList _
    · rw [extra, names]
      exact fun name there => apart name (Fields.mem_names_ofList.mp there)
  back := back

/-- What is read of requests are requests, whose arguments are given back if their numbers are. -/
theorem Call.asking_of_mapM {calls : List Call} {items : List Content} (read : calls.mapM toContent? = some items)
    (exactly : ∀ item ∈ items, ∀ v ∈ item.arguments?, ∀ n ∈ v.toJson.numbers, n.Exact) : ∀ item ∈ items, item.Asking := by
  intro item there
  have from_ : some item ∈ calls.map toContent? := mapM_eq_some_iff.mp read ▸ List.mem_map_of_mem there
  obtain ⟨call, -, made⟩ := List.mem_map.mp from_
  obtain ⟨j, parsed, rfl⟩ := Option.map_eq_some_iff.mp made
  exact .toolCall _ _ (Json.carried_of_parse? parsed (exactly _ there _ rfl))

/-- An assistant's texts and its requests are told apart. -/
theorem Entry.ofMessage_said (qs : List Part) {items : List Content} (calls : ∀ c ∈ items, c.isToolCall = true)
    (extra : Attributes) : ofMessage ⟨.assistant, qs.map Part.toContent ++ items, extra⟩ =
      (writeWith .parts .assistant textPart? (qs.map Part.toContent)).map fun body =>
        .assistant (some body) (items.filterMap callOf?) extra := by
  have texts : ∀ c ∈ qs.map Part.toContent, c.isToolCall = false ∧ callOf? c = none := by
    intro c there
    obtain ⟨q, -, rfl⟩ := List.mem_map.mp there
    cases q <;> exact ⟨rfl, rfl⟩
  have said : (qs.map Part.toContent).filter (fun item => !item.isToolCall) = qs.map Part.toContent :=
    List.filter_eq_self.mpr fun c there => by rw [(texts c there).1]; rfl
  have silent : items.filter (fun item => !item.isToolCall) = [] :=
    List.filter_eq_nil_iff.mpr fun c there => by rw [calls c there]; exact Bool.false_ne_true
  have uncalled : (qs.map Part.toContent).filterMap callOf? = [] :=
    List.filterMap_eq_nil_iff.mpr fun c there => (texts c there).2
  unfold ofMessage writeWith
  dsimp only
  rw [List.filter_append, said, silent, List.append_nil, List.filterMap_append, uncalled, List.nil_append]
  cases partsOf .assistant textPart? (qs.map Part.toContent) <;> rfl

/-- What a role says stays, if what it says is written in one way and stays as it is written. -/
theorem Entry.rewritten_spoken {role : Role} {write : List Content → Except ProviderFault Body}
    (writes : ∀ items extra, ofMessage ⟨role, items, extra⟩ = (write items).map (Entry.spoken role · extra))
    (said : role ≠ .assistant ∧ role ≠ .tool) {items : List Content} {extra : Attributes} {written : Entry}
    (own : ∀ name ∈ Fields.names extra, name ∉ ["role", "content"]) (made : ofMessage ⟨role, items, extra⟩ = .ok written)
    (stays : ∀ body, write items = .ok body → ∃ again, body.Replays write again) : ∃ again, written.Replays again := by
  rw [writes] at made
  obtain ⟨body, of, rfl⟩ := exists_of_map made
  obtain ⟨again, same, distinct, back⟩ := stays body of
  refine ⟨.spoken role again (Fields.ofList extra), Entry.replays own ?_ rfl rfl said ?_ fun tools => ⟨_, _, rfl, ?_⟩⟩
  · simp only [ownFields, same]
  · rintro b ⟨⟩
    exact distinct
  · rw [writes, back]
    rfl

/-- What an assistant says stays, and so do its requests. -/
theorem Entry.rewritten_assistant {qs : List Part} {items : List Content} {extra : Attributes} {written : Entry}
    (own : ∀ name ∈ Fields.names extra, name ∉ ["role", "content", "tool_calls"]) (inside : ∀ q ∈ qs, q.Apart)
    (asking : ∀ item ∈ items, item.Asking)
    (made : ofMessage ⟨.assistant, qs.map Part.toContent ++ items, extra⟩ = .ok written) : ∃ again, written.Replays again := by
  have calling : ∀ item ∈ items, item.isToolCall = true := by
    intro item there
    cases asking item there
    rfl
  rw [ofMessage_said qs calling] at made
  obtain ⟨_, spoken, rfl⟩ := exists_of_map made
  obtain ⟨ps, of, rfl⟩ := exists_of_map spoken
  obtain ⟨again, same, distinct, back⟩ := replays_parts (fun q there _ => Part.replays_of_textPart? (inside q there)) of
  obtain ⟨backs, -⟩ := calls_of_items asking
  refine ⟨.assistant (some (.parts again)) (items.filterMap callOf?) (Fields.ofList extra),
    Entry.replays own ?_ rfl rfl trivial ?_ fun tools =>
      ⟨⟨.assistant, (Body.parts again).settled.toContent ++ items.map Content.settled, Attributes.settled (Fields.ofList extra)⟩,
        Fields.merge tools ((items.filterMap callOf?).map fun call => (call.id, call.name)), ?_, ?_⟩⟩
  · simp only [ownFields, Option.map_some, same]
  · rintro b ⟨⟩
    exact distinct
  · simp only [settled, toMessage, backs]
    rfl
  · have calling : ∀ c ∈ items.map Content.settled, c.isToolCall = true := by
      intro c there
      obtain ⟨item, here, rfl⟩ := List.mem_map.mp there
      cases asking item here
      rfl
    have calls : (items.map Content.settled).filterMap callOf? = items.filterMap callOf? := by
      rw [List.filterMap_map]
      exact congrArg (fun f => List.filterMap f items) (funext callOf?_settled)
    refine (ofMessage_said (again.map Part.settled) calling _).trans ?_
    rw [calls]
    exact congrArg (Except.map _) back

/-- **What is made of a message that an entry is read as stays.** -/
theorem Entry.Apart.rewritten {entry written : Entry} {m : Message} {tools tools' : List (String × String)}
    (apart : entry.Apart) (read : entry.toMessage tools = .ok (m, tools')) (made : ofMessage m = .ok written)
    (captioned : ∀ item ∈ m.content, item.Captioned)
    (exactly : ∀ item ∈ m.content, ∀ v ∈ item.arguments?, ∀ n ∈ v.toJson.numbers, n.Exact) :
    ∃ again, written.Replays again := by
  obtain ⟨said, own, parts⟩ := apart
  cases entry with
  | spoken role body extra =>
    obtain ⟨rfl, rfl⟩ := Prod.mk.inj (Except.ok.inj read)
    rw [Body.toContent_eq] at made captioned
    have inside := parts body rfl
    -- What is directed may be a text alone, what a user says is always a list of parts.
    have directed (body' : Body) (h : writeWith soleText role textPart? (body.listed.map Part.toContent) = .ok body') :
        ∃ again, body'.Replays (writeWith soleText role textPart?) again := by
      obtain ⟨ps, of, rfl⟩ := exists_of_map h
      exact replays_soleText inside of
    cases role with
    | assistant => exact absurd rfl said.1
    | tool => exact absurd rfl said.2
    | system =>
      refine Entry.rewritten_spoken (fun items extra => ?_) said own made directed
      show (partsOf .system textPart? items >>= _) = ((partsOf .system textPart? items).map soleText).map _
      cases partsOf .system textPart? items <;> rfl
    | developer =>
      refine Entry.rewritten_spoken (fun items extra => ?_) said own made directed
      show (partsOf .developer textPart? items >>= _) = ((partsOf .developer textPart? items).map soleText).map _
      cases partsOf .developer textPart? items <;> rfl
    | user =>
      have captioned : ∀ q ∈ body.listed, q.toContent.Captioned := fun q there => captioned _ (List.mem_map_of_mem there)
      have stays (body' : Body) (h : writeWith .parts .user userPart? (body.listed.map Part.toContent) = .ok body') :
          ∃ again, body'.Replays (writeWith .parts .user userPart?) again := by
        obtain ⟨ps, of, rfl⟩ := exists_of_map h
        obtain ⟨again, replays⟩ := replays_parts
          (fun q there _ => Part.replays_of_userPart? (inside q there) (captioned q there)) of
        exact ⟨.parts again, replays⟩
      refine Entry.rewritten_spoken (fun items extra => ?_) said own made stays
      show (partsOf .user userPart? items >>= _) = ((partsOf .user userPart? items).map Body.parts).map _
      cases partsOf .user userPart? items <;> rfl
  | assistant body calls extra =>
    cases asked : calls.mapM Call.toContent? with
    | none =>
      simp only [toMessage, asked] at read
      cases read
    | some items =>
      simp only [toMessage, asked] at read
      obtain ⟨rfl, rfl⟩ := Prod.mk.inj (Except.ok.inj read)
      obtain ⟨qs, listed, inside⟩ : ∃ qs : List Part, (body.map Body.toContent).getD [] = qs.map Part.toContent ∧
          ∀ q ∈ qs, q.Apart := by
        cases body with
        | none => exact ⟨[], rfl, List.forall_mem_nil _⟩
        | some body => exact ⟨body.listed, body.toContent_eq, parts body rfl⟩
      have asking : ∀ item ∈ items, item.Asking :=
        Call.asking_of_mapM asked fun item there => exactly item (List.mem_append_right _ there)
      rw [listed] at made
      exact Entry.rewritten_assistant own inside asking made
  | tool id body extra =>
    obtain ⟨rfl, rfl⟩ := Prod.mk.inj (Except.ok.inj read)
    obtain rfl := Except.ok.inj made
    refine ⟨.tool id (.text (resultText body.toResult)) (Fields.ofList extra),
      Entry.replays own rfl rfl rfl trivial ?_ fun tools => ⟨_, _, rfl, rfl⟩⟩
    rintro b ⟨⟩
    exact List.forall_mem_nil _

/-! ## Messages -/

/-- **What is written of messages that are read stays**, whatever tools are known. -/
theorem messagesOf_written {js out : List Json} {tools : List (String × String)} {ms : List Message}
    (read : messagesOf tools js = .ok ms) (written : ms.mapM Format.chat.encodeMessage = .ok out)
    (captioned : ∀ m ∈ ms, ∀ item ∈ m.content, item.Captioned)
    (exactly : ∀ m ∈ ms, ∀ item ∈ m.content, ∀ v ∈ item.arguments?, ∀ n ∈ v.toJson.numbers, n.Exact) :
    ∀ tools', ∃ again, messagesOf tools' out = .ok again ∧ again.mapM Format.chat.encodeMessage = .ok out := by
  -- The names of tools are not written, so that it does not matter with which ones the rest is read.
  induction js generalizing tools ms out with
  | nil =>
    obtain rfl := Except.ok.inj read
    obtain rfl := Except.ok.inj written
    exact fun tools' => ⟨[], rfl, rfl⟩
  | cons j r ih =>
    unfold messagesOf at read
    cases entered : Entry.ofJson? j with
    | none =>
      rw [entered] at read
      cases read
    | some entry =>
      rw [entered] at read
      obtain ⟨⟨m, tools⟩, first, read⟩ := exists_of_bind read
      obtain ⟨ms, rest, read⟩ := exists_of_bind read
      obtain rfl := Except.ok.inj read
      rw [List.mapM_cons] at written
      obtain ⟨j', here, written⟩ := exists_of_bind written
      obtain ⟨out, later, written⟩ := exists_of_bind written
      obtain rfl := Except.ok.inj written
      obtain ⟨made, of, rfl⟩ := exists_of_map here
      obtain ⟨firstCaptioned, captioned⟩ := List.forall_mem_cons.mp captioned
      obtain ⟨firstExactly, exactly⟩ := List.forall_mem_cons.mp exactly
      obtain ⟨again, replays⟩ := (Entry.apart_of_ofJson? entered).rewritten first of firstCaptioned firstExactly
      intro tools'
      obtain ⟨m', tools', back, of'⟩ := replays.back tools'
      obtain ⟨ms', backs, stays⟩ := ih rest later captioned exactly tools'
      refine ⟨m' :: ms', ?_, ?_⟩
      · unfold messagesOf
        rw [← replays.same, Entry.ofJson?_toJson replays.distinct]
        dsimp only
        rw [back]
        dsimp only [bind, Except.bind]
        rw [backs]
        rfl
      · have encoded : Format.chat.encodeMessage m' = .ok made.toJson := by
          show (Entry.ofMessage m').map Entry.toJson = _
          rw [of', Except.map, Entry.toJson_settled, replays.same]
        rw [List.mapM_cons, encoded, stays]
        rfl

end Chat

/-! ## Normalising -/

/-- An exchange, read and written again. -/
def Format.normalise (f : Format) (e : Exchange) : Except ProviderFault Exchange := f.decode e >>= f.encode

/-- **Normalising once is enough.** What is written of a conversation that chat completions are read as stays, if the
numbers in its arguments are read as they are written, and its files may be kept. -/
theorem Exchange.normalised_stays {e r : Exchange} {c : Conversation} (read : Format.chat.decode e = .ok c)
    (once : Format.chat.normalise e = .ok r) (captioned : ∀ m ∈ c.messages, ∀ item ∈ m.content, item.Captioned)
    (exactly : ∀ m ∈ c.messages, ∀ item ∈ m.content, ∀ v ∈ item.arguments?, ∀ n ∈ v.toJson.numbers, n.Exact) :
    Format.chat.normalise r = .ok r := by
  have written : Format.chat.encode c = .ok r := by rwa [Format.normalise, read] at once
  obtain ⟨ms, from_, made⟩ := exists_of_bind read
  obtain rfl := Except.ok.inj made
  obtain ⟨out, config⟩ := Format.encode_eq_ok_iff.mp written
  obtain ⟨again, back, stays⟩ := Chat.messagesOf_written from_ out captioned exactly []
  have decoded : Format.chat.decode r = .ok ⟨r.config, again⟩ := by
    show Chat.messagesOf [] r.messages >>= (fun ms => pure (Conversation.mk r.config ms)) = _
    rw [back]
    rfl
  rw [Format.normalise, decoded]
  exact Format.encode_eq_ok_iff.mpr ⟨stays, rfl⟩

/-- A request with a sound of another format, an assistant that says nothing but asks a tool, and an answer in parts. -/
def Exchange.history : Exchange where
  config := []
  messages := [
    .obj [("role", .str "system"), ("content", .arr [.obj [("type", .str "text"), ("text", .str "Be brief.")]])],
    .obj [("role", .str "user"), ("name", .str "Ann"), ("content", .arr [
      .obj [("type", .str "input_audio"), ("data", .str "UklG"), ("format", .str "flac"), ("text", .str "a dog")],
      .obj [("type", .str "input_audio"), ("data", .str "UklG"), ("format", .str "wav"), ("loud", .bool true)]])],
    .obj [("role", .str "assistant"), ("content", .null), ("tool_calls", .arr [.obj [("id", .str "1"),
      ("type", .str "function"), ("function", .obj [("name", .str "f"), ("arguments", .str " [2.50, null]")])]])],
    .obj [("role", .str "tool"), ("tool_call_id", .str "1"), ("content", .arr [
      .obj [("type", .str "text"), ("text", .str "so")], .obj [("type", .str "image"), ("image", .str "cat.png")]])]]

theorem Exchange.history_stays : ∃ c r, Format.chat.decode history = .ok c ∧ Format.chat.normalise history = .ok r ∧
    (∀ m ∈ c.messages, ∀ item ∈ m.content, item.Captioned) ∧
    (∀ m ∈ c.messages, ∀ item ∈ m.content, ∀ v ∈ item.arguments?, ∀ n ∈ v.toJson.numbers, n.Exact) ∧
    r.messages.map Json.toText ≠ history.messages.map Json.toText ∧ Format.chat.normalise r = .ok r := by
  have fine : (Format.chat.decode history).toOption.map (fun c =>
      decide (∀ m ∈ c.messages, ∀ item ∈ m.content, item.Captioned) &&
      decide (∀ m ∈ c.messages, ∀ item ∈ m.content, ∀ v ∈ item.arguments?, ∀ n ∈ v.toJson.numbers, n.Exact)) = some true := by
    decide +kernel
  have other : (Format.chat.normalise history).toOption.map (fun r =>
      decide (r.messages.map Json.toText ≠ history.messages.map Json.toText)) = some true := by
    decide +kernel
  obtain ⟨c, read, fine⟩ := exists_of_toOption fine
  obtain ⟨r, once, other⟩ := exists_of_toOption other
  rw [Bool.and_eq_true, decide_eq_true_iff, decide_eq_true_iff] at fine
  obtain ⟨captioned, exactly⟩ := fine
  exact ⟨c, r, read, once, captioned, exactly, of_decide_eq_true other, normalised_stays read once captioned exactly⟩

/-- A request whose argument is not the double that is read from the text it is written as. -/
def Exchange.drifting : Exchange where
  config := []
  messages := [.obj [("role", .str "assistant"), ("content", .arr []), ("tool_calls", .arr [.obj [("id", .str "1"),
    ("type", .str "function"), ("function", .obj [("name", .str "f"), ("arguments", .str "[5.231273049981617e-19]")])]])]]

/-- A sound with a number as its text. -/
def Exchange.misnamed : Exchange where
  config := []
  messages := [.obj [("role", .str "user"), ("content", .arr [.obj [("type", .str "input_audio"), ("data", .str "D"),
    ("format", .str "flac"), ("text", .int 5)]])]]

/-- **Normalising once is not enough for each number**: the text of one is read as the next, again and again. And what is
written of a sound that has a number as its text is no text, and so cannot be read. -/
theorem Exchange.normalised_moves :
    (∃ r r', Format.chat.normalise drifting = .ok r ∧ Format.chat.normalise r = .ok r' ∧ r' ≠ r) ∧
    ∃ r, Format.chat.normalise misnamed = .ok r ∧ Format.chat.normalise r = .error .invalidMessage := by
  have drifts : (Format.chat.normalise drifting).toOption.map (fun r =>
      (Format.chat.normalise r).toOption.map fun r' =>
        decide (r'.messages.map Json.toText ≠ r.messages.map Json.toText)) = some (some true) := by
    decide +kernel
  have refused : (Format.chat.normalise misnamed).toOption.map (fun r =>
      match Format.chat.normalise r with | .ok _ => none | .error fault => some fault) = some (some .invalidMessage) := by
    decide +kernel
  obtain ⟨r, once, drifts⟩ := exists_of_toOption drifts
  obtain ⟨r', twice, other⟩ := exists_of_toOption drifts
  obtain ⟨q, read, refused⟩ := exists_of_toOption refused
  refine ⟨⟨r, r', once, twice, ?_⟩, q, read, ?_⟩
  · rintro rfl
    exact of_decide_eq_true other rfl
  · split at refused
    · cases refused
    · next fault same =>
      cases refused
      exact same

end PromptScript
