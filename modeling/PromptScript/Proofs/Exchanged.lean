import PromptScript.Proofs.Gathered
import PromptScript.Proofs.Recorded
import PromptScript.Provider.Conversion

/-! # Messages in the format of a provider

A message and what plain JSON leaves of it have the same form. In chat completions that is so because the answers of
tools are JSON from the first: what a pass makes of them, and what is read from a provider. -/
namespace PromptScript

/-! ## Values that come from JSON -/

theorem Value.isPlain_settled (v : Value) : v.settled.isPlain = true := by
  rw [← settled_eq_iff]
  exact congrArg ofJson (toJson_settled v)

theorem Value.everyItem_itemsOfJson (test : Value → Bool) (items : List Json) :
    everyItem test (itemsOfJson items) = true ↔ ∀ j ∈ items, (ofJson j).everywhere test = true := by
  induction items with
  | nil => exact ⟨fun _ _ none => absurd none List.not_mem_nil, fun _ => rfl⟩
  | cons j r ih =>
    show (everywhere test (ofJson j) && everyItem test (itemsOfJson r)) = true ↔ _
    rw [Bool.and_eq_true, ih, List.forall_mem_cons]

theorem Value.everyField_fieldsOfJson (test : Value → Bool) (fields : List (String × Json)) :
    everyField test (fieldsOfJson fields) = true ↔ ∀ e ∈ fields, (ofJson e.2).everywhere test = true := by
  induction fields with
  | nil => exact ⟨fun _ _ none => absurd none List.not_mem_nil, fun _ => rfl⟩
  | cons e r ih =>
    show (everywhere test (ofJson e.2) && everyField test (fieldsOfJson r)) = true ↔ _
    rw [Bool.and_eq_true, ih, List.forall_mem_cons]

/-- Fields hold no more than the entries they are built from. -/
theorem Fields.mem_of_mem_ofList {α : Type} {entries : List (String × α)} {e : String × α}
    (h : e ∈ ofList entries) : e ∈ entries := by
  have one : ∀ (fields : List (String × α)) (name : String) (value : α),
      e ∈ set name value fields → e = (name, value) ∨ e ∈ fields := by
    intro fields name value
    induction fields with
    | nil => exact fun there => .inl (List.mem_singleton.mp there)
    | cons x r ih =>
      intro there
      unfold set at there
      split at there
      · next same =>
        rcases List.mem_cons.mp there with rfl | later
        · exact .inl (by rw [same])
        · exact .inr (List.mem_cons_of_mem _ later)
      · rcases List.mem_cons.mp there with rfl | later
        · exact .inr List.mem_cons_self
        · exact (ih later).imp_right (List.mem_cons_of_mem _)
  suffices build : ∀ (more acc : List (String × α)), e ∈ merge acc more → e ∈ acc ∨ e ∈ more from
    (build entries [] h).resolve_left List.not_mem_nil
  intro more
  induction more with
  | nil => exact fun _ there => .inl there
  | cons x r ih =>
    intro acc there
    rcases ih (set x.1 x.2 acc) there with before | later
    · rcases one acc x.1 x.2 before with rfl | before
      · exact .inr List.mem_cons_self
      · exact .inl before
    · exact .inr (List.mem_cons_of_mem _ later)

/-- An item whose answer of a tool is plain, and which does not carry the places of values. -/
def Content.IsPlain : Content → Prop
  | text _ sources _ => sources = none
  | toolResult _ _ result _ _ => result.isPlain = true
  | _ => True

/-- A plain item is plain as a value, too. -/
theorem Content.isPlain_ofJson {c : Content} (plain : c.IsPlain) : (Value.ofJson c.toJson).isPlain = true := by
  show (true && Value.everyField Value.hasPlainForm (Value.fieldsOfJson (Fields.ofList c.entries))) = true
  rw [Bool.true_and, Value.everyField_fieldsOfJson]
  intro e there
  have written : ∀ a : Attributes, e ∈ a.toJson → (Value.ofJson e.2).isPlain = true := by
    intro a there
    obtain ⟨x, -, rfl⟩ := List.mem_map.mp there
    exact Value.isPlain_settled x.2
  rcases List.mem_cons.mp (Fields.mem_of_mem_ofList there) with rfl | there
  · rfl
  · rcases List.mem_append.mp there with own | other
    · cases c with
      | text s sources a =>
        obtain rfl : sources = none := plain
        obtain rfl : e = ("text", .str s) := by simpa [ownFields, Json.present] using own
        rfl
      | image url a =>
        obtain rfl : e = ("image", .str url) := by simpa [ownFields] using own
        rfl
      | file url mimeType a =>
        obtain rfl | rfl : e = ("file", .str url) ∨ e = ("mimeType", .str mimeType) := by simpa [ownFields] using own
        · rfl
        · rfl
      | toolCall id name arguments a =>
        obtain rfl | rfl | rfl : e = ("toolCallId", .str id) ∨ e = ("toolName", .str name) ∨
            e = ("toolArguments", arguments.toJson) := by simpa [ownFields] using own
        · rfl
        · rfl
        · exact Value.isPlain_settled arguments
      | toolResult id name result failed a =>
        have named : e = ("toolCallId", .str id) ∨ e = ("toolName", .str name) ∨ e = ("result", result.toJson) ∨
            e ∈ Json.present [("isError", failed.map .bool)] := by simpa [ownFields, Json.present] using own
        obtain rfl | rfl | rfl | flag := named
        · rfl
        · rfl
        · exact Value.isPlain_settled result
        · cases failed with
          | none => exact absurd flag List.not_mem_nil
          | some b =>
            rw [List.mem_singleton.mp flag]
            rfl
    · exact written c.attributes other

theorem Content.isPlain_ofJson_list {items : List Content} (plain : ∀ c ∈ items, c.IsPlain) :
    (Value.ofJson (.arr (items.map toJson))).isPlain = true := by
  show (true && Value.everyItem Value.hasPlainForm (Value.itemsOfJson (items.map toJson))) = true
  rw [Bool.true_and, Value.everyItem_itemsOfJson]
  intro j there
  obtain ⟨c, here, rfl⟩ := List.mem_map.mp there
  exact isPlain_ofJson (plain c here)

/-- Without the places of values, passes make plain items. -/
theorem Content.made_isPlain {options : Options} (bare : options.sourceMap = false) : Made options IsPlain where
  text p a := by
    show (if options.sourceMap then some p.sources else none) = none
    rw [bare]
    rfl
  image _ _ := trivial
  file _ _ _ := trivial
  toolCall _ _ _ _ := trivial
  toolResult _ _ _ plain := isPlain_ofJson_list plain

namespace Chat

/-! ## Reading -/

theorem Body.isPlain_toContent (body : Body) : ∀ c ∈ body.toContent, c.IsPlain := by
  intro c there
  cases body with
  | text s =>
    rw [List.mem_singleton.mp there]
    exact rfl
  | parts ps =>
    obtain ⟨part, -, rfl⟩ := List.mem_map.mp there
    cases part with
    | text => exact rfl
    | image => trivial
    | audio => trivial

theorem Body.isPlain_toResult (body : Body) : body.toResult.isPlain = true := by
  cases body with
  | text s => rfl
  | parts ps =>
    have same : ps.map (fun part => part.toContent.toJson) = (Body.parts ps).toContent.map Content.toJson := by
      simp [Body.toContent]
    show (Value.ofJson (.arr (ps.map fun part => part.toContent.toJson))).isPlain = true
    rw [same]
    exact Content.isPlain_ofJson_list (isPlain_toContent _)

/-- The requests of an assistant become requests. -/
theorem Call.isPlain_of_mapM {calls : List Call} {items : List Content} (h : calls.mapM toContent? = some items) :
    ∀ c ∈ items, c.IsPlain := by
  induction calls generalizing items with
  | nil =>
    obtain rfl : [] = items := Option.some.inj h
    exact fun _ none => absurd none List.not_mem_nil
  | cons call r ih =>
    simp only [List.mapM_cons, Option.bind_eq_bind, Option.bind_eq_some_iff, Option.pure_def, Option.some.injEq] at h
    obtain ⟨c, first, rest, later, rfl⟩ := h
    obtain ⟨j, -, rfl⟩ := Option.map_eq_some_iff.mp first
    exact List.forall_mem_cons.mpr ⟨trivial, ih later⟩

theorem Entry.isPlain_toMessage {tools tools' : List (String × String)} {entry : Entry} {m : Message}
    (h : entry.toMessage tools = .ok (m, tools')) : ∀ c ∈ m.content, c.IsPlain := by
  cases entry with
  | spoken role body extra =>
    obtain ⟨rfl, -⟩ := Prod.mk.inj (Except.ok.inj h)
    exact body.isPlain_toContent
  | tool id body extra =>
    obtain ⟨rfl, -⟩ := Prod.mk.inj (Except.ok.inj h)
    intro c there
    rw [List.mem_singleton.mp there]
    exact body.isPlain_toResult
  | assistant body calls extra =>
    cases asked : calls.mapM Call.toContent? with
    | none =>
      simp only [toMessage, asked] at h
      cases h
    | some items =>
      simp only [toMessage, asked] at h
      obtain ⟨rfl, -⟩ := Prod.mk.inj (Except.ok.inj h)
      intro c there
      rcases List.mem_append.mp there with said | called
      · cases body with
        | none => exact absurd said List.not_mem_nil
        | some body => exact body.isPlain_toContent c said
      · exact Call.isPlain_of_mapM asked c called

/-- **What is read from a provider is plain.** -/
theorem isPlain_messagesOf {js : List Json} {tools : List (String × String)} {ms : List Message}
    (h : messagesOf tools js = .ok ms) : ∀ m ∈ ms, ∀ c ∈ m.content, c.IsPlain := by
  induction js generalizing tools ms with
  | nil =>
    obtain rfl := Except.ok.inj h
    exact fun _ none => absurd none List.not_mem_nil
  | cons j r ih =>
    unfold messagesOf at h
    split at h
    · cases h
    · next entry read =>
      cases first : entry.toMessage tools with
      | error fault => rw [first] at h; cases h
      | ok both =>
        obtain ⟨m, tools'⟩ := both
        cases rest : messagesOf tools' r with
        | error fault =>
          simp only [first, rest, bind, Except.bind] at h
          cases h
        | ok ms' =>
          simp only [first, rest, bind, Except.bind, pure, Except.pure, Except.ok.injEq] at h
          subst h
          exact List.forall_mem_cons.mpr ⟨entry.isPlain_toMessage first, ih rest⟩

/-! ## Writing -/

namespace Part

/-- A part with what plain JSON leaves of its attributes. -/
def settled : Part → Part
  | text s extra => text s extra.settled
  | image url extra => image url extra.settled
  | audio data format extra => audio data format extra.settled

theorem toJson_settled (part : Part) : part.settled.toJson = part.toJson := by
  cases part <;> simp only [settled, toJson, Attributes.toJson_settled]

end Part

namespace Body

/-- The content of a message with what plain JSON leaves of its parts. -/
def settled : Body → Body
  | text s => text s
  | parts ps => parts (ps.map Part.settled)

theorem toJson_settled (body : Body) : body.settled.toJson = body.toJson := by
  cases body with
  | text s => rfl
  | parts ps =>
    have same : ps.map (Part.toJson ∘ Part.settled) = ps.map Part.toJson :=
      List.map_congr_left fun part _ => part.toJson_settled
    simp only [settled, toJson, List.map_map, same]

end Body

namespace Entry

/-- An entry with what plain JSON leaves of its values. -/
def settled : Entry → Entry
  | spoken role body extra => spoken role body.settled extra.settled
  | assistant body calls extra => assistant (body.map Body.settled) calls extra.settled
  | tool id body extra => tool id body.settled extra.settled

theorem toJson_settled (entry : Entry) : entry.settled.toJson = entry.toJson := by
  cases entry with
  | spoken role body extra => simp only [settled, toJson, Body.toJson_settled, Attributes.toJson_settled]
  | assistant body calls extra =>
    cases body <;>
      simp only [settled, toJson, Option.map_none, Option.map_some, Body.toJson_settled, Attributes.toJson_settled]
  | tool id body extra => simp only [settled, toJson, Body.toJson_settled, Attributes.toJson_settled]

end Entry

theorem textPart?_settled (c : Content) : textPart? c.settled = (textPart? c).map Part.settled := by
  cases c <;> rfl

theorem userPart?_settled (c : Content) : userPart? c.settled = (userPart? c).map Part.settled := by
  cases c with
  | file url mimeType a =>
    show some (filePart url mimeType a.settled) = some (filePart url mimeType a).settled
    unfold filePart
    split
    · rfl
    · split <;> rfl
  | _ => rfl

section Parts

variable {part? : Content → Option Part} {role : Role} {c : Content} {r : List Content}

theorem partsOf_of_none (h : part? c = none) :
    partsOf role part? (c :: r) = .error (.unsupportedContent role c.kindName) := by
  unfold partsOf
  rw [List.mapM_cons, h]
  rfl

theorem partsOf_of_some {part : Part} (h : part? c = some part) :
    partsOf role part? (c :: r) = (partsOf role part? r).map (part :: ·) := by
  unfold partsOf
  rw [List.mapM_cons, h]
  dsimp only
  generalize r.mapM (m := Except ProviderFault) _ = rest
  cases rest <;> rfl

end Parts

theorem partsOf_settled {part? : Content → Option Part} (h : ∀ c, part? c.settled = (part? c).map Part.settled)
    (role : Role) (items : List Content) :
    partsOf role part? (items.map Content.settled) = (partsOf role part? items).map (List.map Part.settled) := by
  induction items with
  | nil => rfl
  | cons c r ih =>
    have kind : c.settled.kindName = c.kindName := by cases c <;> rfl
    have here := h c
    rw [List.map_cons]
    cases there : part? c with
    | none =>
      rw [there] at here
      rw [partsOf_of_none there, partsOf_of_none here, kind]
      rfl
    | some part =>
      rw [there] at here
      rw [partsOf_of_some there, partsOf_of_some here, ih]
      cases partsOf role part? r <;> rfl

theorem soleText_settled : ∀ ps : List Part, soleText (ps.map Part.settled) = (soleText ps).settled
  | [] | [.text _ _] | [.image _ _] | [.audio _ _ _] => rfl
  | a :: b :: r => by
    show soleText (a.settled :: b.settled :: r.map Part.settled) = _
    cases a <;> rfl

theorem callOf?_settled (c : Content) : callOf? c.settled = callOf? c := by
  cases c with
  | toolCall id name arguments a =>
    show some (Call.mk id "function" name arguments.settled.toJson.toText) = _
    rw [Value.toJson_settled]
    rfl
  | _ => rfl

/-- The answer of a tool is the same, as it is plain. -/
theorem firstResult?_settled {items : List Content} (plain : ∀ c ∈ items, c.IsPlain) :
    firstResult? (items.map Content.settled) = firstResult? items := by
  induction items with
  | nil => rfl
  | cons c r ih =>
    obtain ⟨first, rest⟩ := List.forall_mem_cons.mp plain
    cases c with
    | toolResult id name result failed a =>
      show some (id, result.settled) = some (id, result)
      rw [(Value.settled_eq_iff result).mpr first]
    | _ => exact ih rest

theorem Entry.ofMessage_settled {m : Message} (plain : ∀ c ∈ m.content, c.IsPlain) :
    ofMessage m.settled = (ofMessage m).map settled := by
  obtain ⟨role, content, extra⟩ := m
  have worded (role : Role) :
      (partsOf role textPart? (content.map Content.settled) >>= fun ps =>
        pure (spoken role (soleText ps) extra.settled)) =
      (partsOf role textPart? content >>= fun ps => pure (spoken role (soleText ps) extra)).map settled := by
    rw [partsOf_settled textPart?_settled]
    cases partsOf role textPart? content with
    | error fault => rfl
    | ok ps =>
      show Except.ok (spoken role (soleText (ps.map Part.settled)) extra.settled) = _
      rw [soleText_settled]
      rfl
  cases role with
  | system => exact worded .system
  | developer => exact worded .developer
  | user =>
    unfold ofMessage Message.settled
    dsimp only
    rw [partsOf_settled userPart?_settled]
    cases partsOf .user userPart? content <;> rfl
  | tool =>
    have same : firstResult? (content.map Content.settled) = firstResult? content := firstResult?_settled plain
    unfold ofMessage Message.settled
    dsimp only
    rw [same]
    cases firstResult? content <;> rfl
  | assistant =>
    have spoken : (content.map Content.settled).filter (fun item => !item.isToolCall) =
        (content.filter fun item => !item.isToolCall).map Content.settled := by
      rw [List.filter_map]
      refine congrArg _ (List.filter_congr fun c _ => ?_)
      cases c <;> rfl
    have calls : (content.map Content.settled).filterMap callOf? = content.filterMap callOf? := by
      rw [List.filterMap_map]
      exact congrArg (fun f => List.filterMap f content) (funext callOf?_settled)
    unfold ofMessage Message.settled
    dsimp only
    rw [spoken, calls, partsOf_settled textPart?_settled]
    cases partsOf .assistant textPart? (content.filter fun item => !item.isToolCall) <;> rfl

end Chat

/-- **A message and what plain JSON leaves of it have the same form**, in chat completions if its items are plain. -/
theorem Format.encodeMessage_settled {f : Format} {m : Message} (plain : f = .chat → ∀ c ∈ m.content, c.IsPlain) :
    f.encodeMessage m.settled = f.encodeMessage m := by
  cases f with
  | canonical => exact congrArg Except.ok m.toJson_settled
  | chat =>
    show (Chat.Entry.ofMessage m.settled).map Chat.Entry.toJson = (Chat.Entry.ofMessage m).map Chat.Entry.toJson
    rw [Chat.Entry.ofMessage_settled (plain rfl)]
    cases Chat.Entry.ofMessage m with
    | error fault => rfl
    | ok entry => exact congrArg Except.ok entry.toJson_settled

end PromptScript
