import PromptScript.Proofs.ChatEntries
import PromptScript.Proofs.Fixpoint
import PromptScript.Proofs.Turns

/-! # Conversations that chat completions give back

Of what a message holds, chat completions have a place for some: texts, for a user also images and audio, requests for
tools beside the texts, and one text as the answer of a tool, whose name is that of the request. A conversation that
holds no more comes back as it was. -/
namespace PromptScript

/-! ## Requests and their names -/

/-- What is set last counts. -/
theorem Fields.get?_merge {α : Type} (name : String) (fields more : List (String × α)) :
    get? name (merge fields more) = ((more.filter fun e => e.1 = name).getLast?.map Prod.snd).or (get? name fields) := by
  induction more generalizing fields with
  | nil => rfl
  | cons e r ih =>
    refine (ih (set e.1 e.2 fields)).trans ?_
    -- The first of the entries counts only where no later one has its name.
    by_cases same : e.1 = name
    · have first : (e :: r).filter (fun e => e.1 = name) = e :: r.filter fun e => e.1 = name :=
        List.filter_cons_of_pos (decide_eq_true same)
      rw [first, List.getLast?_cons, ← same, get?_set_same]
      cases (r.filter fun x => x.1 = e.1).getLast? <;> rfl
    · have first : (e :: r).filter (fun e => e.1 = name) = r.filter fun e => e.1 = name :=
        List.filter_cons_of_neg (by simpa using same)
      rw [first, get?_set_other (Ne.symm same)]

/-- The identifier and the name of a request for a tool. -/
def Content.request? : Content → Option (String × String)
  | toolCall id name _ _ => some (id, name)
  | _ => none

/-- The tools that messages ask for, in order. -/
def Message.requests (ms : List Message) : List (String × String) :=
  (ms.flatMap content).filterMap Content.request?

/-- The name in the latest of the requests with an identifier. -/
def Message.nameAsked? (ms : List Message) (id : String) : Option String :=
  ((requests ms).filter fun e => e.1 = id).getLast?.map Prod.snd

/-! ## What chat completions have a place for -/

namespace Content

/-- A text without the places of values. -/
inductive Worded : Content → Prop where
  | text (s : String) {a : Attributes} (apart : a.Distinct ["type", "text"]) : Worded (.text s none a)

/-- What a user's message may hold. -/
inductive Posted : Content → Prop where
  | text (s : String) {a : Attributes} (apart : a.Distinct ["type", "text"]) : Posted (.text s none a)
  | image (url : String) {a : Attributes} (apart : a.Distinct ["type", "image"]) : Posted (.image url a)
  | audio (data : String) {mimeType : String} {a : Attributes} (kind : mimeType = "audio/mpeg" ∨ mimeType = "audio/wav")
      (apart : a.Distinct ["type", "data", "format"]) : Posted (.file data mimeType a)

/-- A request without attributes, with arguments that their text gives back. -/
inductive Asking : Content → Prop where
  | toolCall (id name : String) {arguments : Value} (carried : arguments.Carried) : Asking (.toolCall id name arguments [])

end Content

/-- A message after others that chat completions have a place for: no attribute has the name of a field, the single text
of a system's or developer's message has no attributes, and an answer has the name of the latest request for it. -/
inductive Message.Fits (before : List Message) : Message → Prop where
  | directed {role : Role} {content : List Content} {a : Attributes} (directs : role = .system ∨ role = .developer)
      (worded : ∀ c ∈ content, c.Worded) (sole : ∀ s b, content = [.text s none b] → b = [])
      (apart : a.Distinct ["role", "content"]) : Fits before ⟨role, content, a⟩
  | user {content : List Content} {a : Attributes} (posted : ∀ c ∈ content, c.Posted)
      (apart : a.Distinct ["role", "content"]) : Fits before ⟨.user, content, a⟩
  | assistant {texts calls : List Content} {a : Attributes} (worded : ∀ c ∈ texts, c.Worded)
      (asking : ∀ c ∈ calls, c.Asking) (apart : a.Distinct ["role", "content", "tool_calls"]) :
      Fits before ⟨.assistant, texts ++ calls, a⟩
  | tool (id result : String) {a : Attributes} (apart : a.Distinct ["role", "tool_call_id", "content"]) :
      Fits before ⟨.tool, [.toolResult id ((nameAsked? before id).getD "") (.string result) none []], a⟩

/-- Each message fits after those before it. -/
def Message.FitAfter (before : List Message) : List Message → Prop
  | [] => True
  | m :: r => m.Fits before ∧ FitAfter (before ++ [m]) r

/-- Chat completions have a place for each message of the conversation. -/
def Conversation.Fits (c : Conversation) : Prop := Message.FitAfter [] c.messages

namespace Chat

/-! ## Items as parts -/

/-- Items that are parts, and are made of these again. -/
theorem partsOf_items {part? : Content → Option Part} {items : List Content} (role : Role)
    (parts : ∀ c ∈ items, ∃ part, part? c = some part ∧ part.Distinct ∧ part.settled.toContent = c.settled) :
    ∃ ps, partsOf role part? items = .ok ps ∧ (∀ part ∈ ps, part.Distinct) ∧
      ps.map (fun part => part.settled.toContent) = items.map Content.settled := by
  induction items with
  | nil => exact ⟨[], rfl, List.forall_mem_nil _, rfl⟩
  | cons c r ih =>
    obtain ⟨⟨part, here, distinct, back⟩, later⟩ := List.forall_mem_cons.mp parts
    obtain ⟨ps, rest, all, backs⟩ := ih later
    refine ⟨part :: ps, ?_, List.forall_mem_cons.mpr ⟨distinct, all⟩, ?_⟩
    · rw [partsOf_of_some here, rest]
      rfl
    · rw [List.map_cons, List.map_cons, back, backs]

theorem part_of_worded {c : Content} (worded : c.Worded) :
    ∃ part, textPart? c = some part ∧ part.Distinct ∧ part.settled.toContent = c.settled := by
  cases worded with
  | text s apart => exact ⟨.text s _, rfl, apart, rfl⟩

theorem part_of_posted {c : Content} (posted : c.Posted) :
    ∃ part, userPart? c = some part ∧ part.Distinct ∧ part.settled.toContent = c.settled := by
  cases posted with
  | text s apart => exact ⟨.text s _, rfl, apart, rfl⟩
  | image url apart => exact ⟨.image url _, rfl, apart, rfl⟩
  | audio data kind apart =>
    rcases kind with rfl | rfl
    · exact ⟨.audio data "mpeg" _, rfl, apart, rfl⟩
    · exact ⟨.audio data "wav" _, rfl, apart, rfl⟩

/-- Of several parts none stands alone. -/
theorem soleText_of_several {ps : List Part} (several : 2 ≤ ps.length) : soleText ps = .parts ps := by
  match ps, several with
  | .text _ _ :: _ :: _, _ | .image _ _ :: _, _ | .audio _ _ _ :: _, _ => rfl

/-- The texts of a system or developer. -/
theorem soleText_items {items : List Content} (role : Role) (worded : ∀ c ∈ items, c.Worded)
    (sole : ∀ s b, items = [.text s none b] → b = []) :
    ∃ ps, partsOf role textPart? items = .ok ps ∧ (soleText ps).Distinct ∧
      (soleText ps).settled.toContent = items.map Content.settled := by
  obtain ⟨ps, read, distinct, back⟩ := partsOf_items role fun c there => part_of_worded (worded c there)
  refine ⟨ps, read, ?_⟩
  have length : ps.length = items.length := by simpa using congrArg List.length back
  -- Only a single text stands alone, and its attributes would be lost.
  match items, length with
  | [], empty =>
    obtain rfl : ps = [] := List.eq_nil_of_length_eq_zero empty
    exact ⟨distinct, rfl⟩
  | [c], _ =>
    cases worded c List.mem_cons_self with
    | text s apart =>
      obtain rfl := sole s _ rfl
      obtain rfl := Except.ok.inj read
      exact ⟨fun _ none => absurd none List.not_mem_nil, rfl⟩
  | c :: c' :: r, several =>
    have several : 2 ≤ ps.length := by
      rw [several]
      exact Nat.le_add_left 2 _
    rw [soleText_of_several several]
    refine ⟨distinct, ?_⟩
    show (ps.map Part.settled).map Part.toContent = _
    rw [List.map_map]
    exact back

/-! ## Requests -/

/-- Requests come back from the list of them, which has their names. -/
theorem calls_of_items {items : List Content} (asking : ∀ c ∈ items, c.Asking) :
    (items.filterMap callOf?).mapM Call.toContent? = some (items.map Content.settled) ∧
      (items.filterMap callOf?).map (fun call => (call.id, call.name)) = items.filterMap Content.request? := by
  induction items with
  | nil => exact ⟨rfl, rfl⟩
  | cons c r ih =>
    obtain ⟨here, later⟩ := List.forall_mem_cons.mp asking
    obtain ⟨back, names⟩ := ih later
    cases here with
    | @toolCall id name arguments carried =>
      have call : callOf? (.toolCall id name arguments []) = some ⟨id, "function", name, arguments.toJson.toText⟩ := rfl
      have read : Call.toContent? ⟨id, "function", name, arguments.toJson.toText⟩ =
          some (Content.settled (.toolCall id name arguments [])) := by
        unfold Call.toContent?
        rw [carried.parse?]
        rfl
      rw [List.filterMap_cons_some call]
      constructor
      · rw [List.mapM_cons, read, back]
        rfl
      · rw [List.map_cons, names]
        rfl

/-- The names of tools are those of the messages read so far. -/
def Knows (tools : List (String × String)) (ms : List Message) : Prop :=
  ∀ id, Fields.get? id tools = Message.nameAsked? ms id

theorem requests_concat (ms : List Message) (m : Message) :
    Message.requests (ms ++ [m]) = Message.requests ms ++ m.content.filterMap Content.request? := by
  simp [Message.requests]

/-- A message that asks for nothing adds no name. -/
theorem Knows.silent {tools : List (String × String)} {ms : List Message} (knows : Knows tools ms) {m : Message}
    (silent : m.content.filterMap Content.request? = []) : Knows tools (ms ++ [m]) := by
  intro id
  rw [knows id, Message.nameAsked?, Message.nameAsked?, requests_concat, silent, List.append_nil]

/-- What a message asks for is known after it. -/
theorem Knows.asked {tools : List (String × String)} {ms : List Message} (knows : Knows tools ms) (m : Message) :
    Knows (Fields.merge tools (m.content.filterMap Content.request?)) (ms ++ [m]) := by
  intro id
  rw [Fields.get?_merge, knows id, Message.nameAsked?, Message.nameAsked?, requests_concat, List.filter_append,
    List.getLast?_append]
  cases ((m.content.filterMap Content.request?).filter fun e => e.1 = id).getLast? <;> rfl

theorem Worded.silent {items : List Content} (worded : ∀ c ∈ items, c.Worded) : items.filterMap Content.request? = [] ∧
    items.filterMap callOf? = [] ∧ items.filter (fun item => !item.isToolCall) = items := by
  refine ⟨List.filterMap_eq_nil_iff.mpr ?_, List.filterMap_eq_nil_iff.mpr ?_, List.filter_eq_self.mpr ?_⟩
  all_goals
    intro c there
    cases worded c there
    rfl

theorem Posted.silent {items : List Content} (posted : ∀ c ∈ items, c.Posted) :
    items.filterMap Content.request? = [] := by
  refine List.filterMap_eq_nil_iff.mpr fun c there => ?_
  cases posted c there <;> rfl

theorem Asking.not_spoken {items : List Content} (asking : ∀ c ∈ items, c.Asking) :
    items.filter (fun item => !item.isToolCall) = [] := by
  refine List.filter_eq_nil_iff.mpr fun c there => ?_
  cases asking c there
  exact Bool.false_ne_true

/-! ## Messages as entries -/

/-- **A message that fits has an entry** that is read as it is written, and which is the message again. -/
theorem entry_of_fits {before : List Message} {m : Message} (fits : m.Fits before) :
    ∃ entry, Entry.ofMessage m = .ok entry ∧ entry.Distinct ∧ ∀ tools, Knows tools before →
      ∃ tools', entry.settled.toMessage tools = .ok (m.settled, tools') ∧ Knows tools' (before ++ [m]) := by
  cases fits with
  | @directed role content a directs worded sole apart =>
    obtain ⟨ps, read, distinct, back⟩ := soleText_items role worded sole
    refine ⟨.spoken role (soleText ps) a, ?_, ⟨?_, apart, fun body same => ?_⟩, fun tools knows => ⟨tools, ?_, ?_⟩⟩
    · unfold Entry.ofMessage
      rcases directs with rfl | rfl <;> (dsimp only; rw [read]; rfl)
    · rcases directs with rfl | rfl <;> exact ⟨nofun, nofun⟩
    · cases same
      exact distinct
    · show Except.ok (Message.mk role (soleText ps).settled.toContent a.settled, tools) = _
      rw [back]
      rfl
    · exact knows.silent (Worded.silent worded).1
  | @user content a posted apart =>
    obtain ⟨ps, read, distinct, back⟩ := partsOf_items .user fun c there => part_of_posted (posted c there)
    refine ⟨.spoken .user (.parts ps) a, ?_, ⟨⟨nofun, nofun⟩, apart, fun body same => ?_⟩,
      fun tools knows => ⟨tools, ?_, knows.silent (Posted.silent posted)⟩⟩
    · unfold Entry.ofMessage
      dsimp only
      rw [read]
      rfl
    · cases same
      exact distinct
    · show Except.ok (Message.mk .user ((ps.map Part.settled).map Part.toContent) a.settled, tools) = _
      rw [List.map_map]
      exact congrArg (fun items => Except.ok (Message.mk .user items a.settled, tools)) back
  | @assistant texts calls a worded asking apart =>
    obtain ⟨ps, read, distinct, back⟩ := partsOf_items .assistant fun c there => part_of_worded (worded c there)
    obtain ⟨backs, names⟩ := calls_of_items asking
    obtain ⟨silent, uncalled, said⟩ := Worded.silent worded
    -- Texts are no requests, and the other way round, so that the two parts of the content are told apart.
    have spoken : (texts ++ calls).filter (fun item => !item.isToolCall) = texts := by
      rw [List.filter_append, said, Asking.not_spoken asking, List.append_nil]
    have called : (texts ++ calls).filterMap callOf? = calls.filterMap callOf? := by
      rw [List.filterMap_append, uncalled, List.nil_append]
    have asked : (texts ++ calls).filterMap Content.request? = calls.filterMap Content.request? := by
      rw [List.filterMap_append, silent, List.nil_append]
    refine ⟨.assistant (some (.parts ps)) (calls.filterMap callOf?) a, ?_, ⟨trivial, apart, fun body same => ?_⟩,
      fun tools knows => ⟨_, ?_, knows.asked ⟨.assistant, texts ++ calls, a⟩⟩⟩
    · unfold Entry.ofMessage
      dsimp only
      rw [spoken, called, read]
      rfl
    · cases same
      exact distinct
    · dsimp only [Entry.settled, Entry.toMessage]
      rw [backs, names, asked]
      have whole : (ps.map Part.settled).map Part.toContent ++ calls.map Content.settled =
          (texts ++ calls).map Content.settled := by
        rw [List.map_map, List.map_append, ← back]
        rfl
      exact congrArg (fun items => Except.ok (Message.mk .assistant items a.settled, _)) whole
  | @tool id result a apart =>
    refine ⟨.tool id (.text result) a, rfl, ⟨trivial, apart, fun body same => ?_⟩, fun tools knows => ⟨tools, ?_, ?_⟩⟩
    · cases same
      exact fun _ none => absurd none List.not_mem_nil
    · show Except.ok (Message.mk .tool [.toolResult id ((Fields.get? id tools).getD "") (.string result) none []] a.settled,
        tools) = _
      rw [knows id]
      rfl
    · exact knows.silent rfl

/-- Messages that fit come back, one after the other. -/
theorem messagesOf_fitting {ms before : List Message} {tools : List (String × String)} (knows : Knows tools before)
    (fits : Message.FitAfter before ms) :
    ∃ js, ms.mapM Format.chat.encodeMessage = .ok js ∧ messagesOf tools js = .ok (ms.map Message.settled) := by
  -- Each message may add names of tools, which those after it are read with.
  induction ms generalizing before tools with
  | nil => exact ⟨[], rfl, rfl⟩
  | cons m r ih =>
    obtain ⟨first, later⟩ := fits
    obtain ⟨entry, made, distinct, back⟩ := entry_of_fits first
    obtain ⟨tools', back, knows'⟩ := back tools knows
    obtain ⟨js, rest, read⟩ := ih knows' later
    have encoded : Format.chat.encodeMessage m = .ok entry.toJson := by
      unfold Format.encodeMessage
      dsimp only
      rw [made]
      rfl
    refine ⟨entry.toJson :: js, ?_, ?_⟩
    · rw [List.mapM_cons, encoded, rest]
      rfl
    · unfold messagesOf
      rw [Entry.ofJson?_toJson distinct]
      dsimp only
      rw [back]
      dsimp only [bind, Except.bind]
      rw [read]
      rfl

end Chat

/-! ## There and back -/

/-- A list is left as it is just if each of its entries is. -/
theorem map_eq_self_iff {α : Type} {f : α → α} {xs : List α} : xs.map f = xs ↔ ∀ x ∈ xs, f x = x := by
  have entries := List.map_inj_left (f := f) (g := id) (l := xs)
  rwa [List.map_id] at entries

/-- The values in attributes. -/
def Attributes.values (a : Attributes) : List Value := a.map Prod.snd

/-- The values in an item. -/
def Content.values : Content → List Value
  | text _ _ a | image _ a | file _ _ a => a.values
  | toolCall _ _ arguments a => arguments :: a.values
  | toolResult _ _ result _ a => result :: a.values

/-- The values in a conversation. -/
def Conversation.values (c : Conversation) : List Value :=
  c.messages.flatMap fun m => m.content.flatMap Content.values ++ m.attributes.values

theorem Attributes.settled_eq_self_iff (a : Attributes) : a.settled = a ↔ ∀ v ∈ a.values, v.isPlain = true := by
  unfold settled values
  rw [map_eq_self_iff, List.forall_mem_map]
  exact forall₂_congr fun e _ => by rw [← Value.settled_eq_iff, Prod.ext_iff, and_iff_right rfl]

theorem Content.settled_eq_self_iff (c : Content) : c.settled = c ↔ ∀ v ∈ c.values, v.isPlain = true := by
  cases c <;> simp [settled, values, Attributes.settled_eq_self_iff, Value.settled_eq_iff]

/-- The normal form of a conversation is the conversation itself just if all its values are those of plain JSON. -/
theorem Conversation.normal_eq_self_iff (c : Conversation) : c.normal = c ↔ ∀ v ∈ c.values, v.isPlain = true := by
  have messages : c.normal = c ↔ ∀ m ∈ c.messages, m.settled = m := by
    obtain ⟨config, ms⟩ := c
    unfold normal
    rw [Conversation.mk.injEq, and_iff_right rfl, map_eq_self_iff]
    exact forall₂_congr fun m _ => by rw [Message.settled_eq_normal]
  rw [messages]
  unfold values
  rw [List.forall_mem_flatMap]
  refine forall₂_congr fun m _ => ?_
  obtain ⟨role, content, a⟩ := m
  unfold Message.settled
  rw [Message.mk.injEq, and_iff_right rfl, map_eq_self_iff, Attributes.settled_eq_self_iff, List.forall_mem_append,
    List.forall_mem_flatMap]
  exact and_congr_left fun _ => forall₂_congr fun c _ => c.settled_eq_self_iff

/-- **Chat completions give a conversation back** for which they have a place, with its values in normal form; so it is the
very same just if all its values are those of plain JSON. -/
theorem Conversation.comes_back_from_chat {c : Conversation} (fits : c.Fits) :
    (Format.chat.encode c >>= Format.chat.decode) = .ok c.normal ∧
    ((Format.chat.encode c >>= Format.chat.decode) = .ok c ↔ ∀ v ∈ c.values, v.isPlain = true) := by
  have back : (Format.chat.encode c >>= Format.chat.decode) = .ok c.normal := by
    have unknown : Chat.Knows [] [] := fun _ => rfl
    obtain ⟨js, encoded, decoded⟩ := Chat.messagesOf_fitting unknown fits
    have normal : c.messages.map Message.settled = c.messages.map Message.normal :=
      List.map_congr_left fun m _ => m.settled_eq_normal
    unfold Format.encode
    rw [encoded]
    show (Chat.messagesOf [] js >>= fun ms => pure (Conversation.mk c.config ms)) = _
    rw [decoded, normal]
    rfl
  refine ⟨back, ?_⟩
  rw [back, ← c.normal_eq_self_iff]
  exact ⟨Except.ok.inj, congrArg Except.ok⟩

/-- A request of a user with an image and a sound, and an assistant that asks a tool. -/
def Conversation.talk : Conversation where
  config := []
  messages := [⟨.system, [.plain "Be brief."], [("name", .string "root")]⟩,
    ⟨.user, [.image "cat.png" [("alt", .string "a cat")], .file "UklGRg==" "audio/wav" []], []⟩,
    ⟨.assistant, [.text "I look it up." none [("tone", .null)]] ++ [.toolCall "1" "weather"
      (.object [("city", .string "Rome"), ("days", .array [.number (Float.ofNat 2), .number (1 / 2)])]) []], []⟩,
    ⟨.tool, [.toolResult "1" "weather" (.string "sunny") none []], []⟩]

theorem Conversation.talk_comes_back : talk.Fits ∧ (Format.chat.encode talk >>= Format.chat.decode) = .ok talk := by
  have carried : (Value.object [("city", .string "Rome"),
      ("days", .array [.number (Float.ofNat 2), .number (1 / 2)])]).Carried :=
    ⟨by decide, by decide +kernel, by decide +kernel⟩
  have fits : talk.Fits := by
    refine ⟨?brief, ?pictured, ?looked, ?told, trivial⟩
    case brief =>
      exact .directed (.inl rfl) (List.forall_mem_singleton.mpr (.text _ (by decide))) (by rintro s b ⟨⟩; rfl) (by decide)
    case pictured =>
      refine .user (List.forall_mem_cons.mpr ⟨.image _ (by decide), ?_⟩) (by decide)
      exact List.forall_mem_singleton.mpr (.audio _ (.inr rfl) (by decide))
    case looked =>
      exact .assistant (List.forall_mem_singleton.mpr (.text _ (by decide)))
        (List.forall_mem_singleton.mpr (.toolCall _ _ carried)) (by decide)
    case told => exact .tool "1" "sunny" (by decide)
  exact ⟨fits, (comes_back_from_chat fits).2.mpr (by decide +kernel)⟩

/-- A request with an eleventh among its arguments. -/
def Conversation.eleventh : Conversation :=
  ⟨[], [⟨.assistant, [.toolCall "1" "f" (.array [.number (1 / 11)]) []], []⟩]⟩

/-- A text with an attribute that is undefined. -/
def Conversation.gapped : Conversation := ⟨[], [⟨.user, [.text "hi" none [("a", .undefined)]], []⟩]⟩

/-- **Not every number comes back**: an eleventh is not the double that its text is read as. Nor does a value that is
none of plain JSON. -/
theorem Conversation.eleventh_does_not_come_back :
    (∀ v ∈ eleventh.values, v.isPlain = true ∧ v.everywhere Value.hasOwnNames = true ∧
      v.toJson.depth ≤ Json.depthLimit ∧ v.toJson.toText = "[0.09090909090909091]") ∧
    (∃ c, (Format.chat.encode eleventh >>= Format.chat.decode) = .ok c ∧ c ≠ eleventh ∧
      c.values.map (fun v => v.toJson.toText) = ["[0.09090909090909093]"]) ∧
    ∃ c, (Format.chat.encode gapped >>= Format.chat.decode) = .ok c ∧ c ≠ gapped := by
  have eleventh_back : ((Format.chat.encode eleventh >>= Format.chat.decode).map fun c =>
      c.values.map fun v => v.toJson.toText).toOption = some ["[0.09090909090909093]"] := by decide +kernel
  have gapped_back : ((Format.chat.encode gapped >>= Format.chat.decode).map fun c =>
      c.values.map Value.isPlain).toOption = some [true] := by decide +kernel
  refine ⟨by decide +kernel, ?_, ?_⟩
  · cases back : Format.chat.encode eleventh >>= Format.chat.decode with
    | error fault => rw [back] at eleventh_back; cases eleventh_back
    | ok c =>
      rw [back] at eleventh_back
      refine ⟨c, rfl, ?_, Option.some.inj eleventh_back⟩
      rintro rfl
      exact absurd (Option.some.inj eleventh_back) (by decide +kernel)
  · cases back : Format.chat.encode gapped >>= Format.chat.decode with
    | error fault => rw [back] at gapped_back; cases gapped_back
    | ok c =>
      rw [back] at gapped_back
      refine ⟨c, rfl, ?_⟩
      rintro rfl
      exact absurd (Option.some.inj gapped_back) (by decide)

end PromptScript
