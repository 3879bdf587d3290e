import PromptScript.Proofs.Exchanged
import PromptScript.Proofs.Fixpoint
import PromptScript.Proofs.Turns

/-! # The forms of a response

A response is a text, one message, or a list of messages. A text is the message that holds it. One message is the list
of that message, but for what the history keeps of it: of one message the content, as said by the assistant; of a list
the messages themselves, with their roles and attributes. -/
namespace PromptScript

/-- What the history keeps of a message that is the whole response: its content, as said by the assistant. -/
def Message.asReply (m : Message) : Message := ⟨.assistant, m.content, []⟩

/-! ## Lists with one item exchanged -/

section Exchange

variable {α β ε : Type} {f : α → Except ε β} {x y : α} {before later : List α}

theorem mapM_around_eq_ok_iff {out : List β} : (before ++ x :: later).mapM f = .ok out ↔
    ∃ front b back, before.mapM f = .ok front ∧ f x = .ok b ∧ later.mapM f = .ok back ∧ out = front ++ b :: back := by
  rw [List.mapM_append, List.mapM_cons]
  cases before.mapM f <;> cases f x <;> cases later.mapM f <;>
    simp [bind, Except.bind, pure, Except.pure, eq_comm]

/-- An item is exchanged for one that fails in the same way. -/
theorem mapM_around_error_congr (alike : ∀ fault, f x = .error fault ↔ f y = .error fault) (fault : ε) :
    (before ++ x :: later).mapM f = .error fault ↔ (before ++ y :: later).mapM f = .error fault := by
  rw [List.mapM_append, List.mapM_append, List.mapM_cons, List.mapM_cons]
  cases before.mapM f with
  | error e => exact Iff.rfl
  | ok front =>
    cases hx : f x with
    | error e =>
      rw [(alike e).mp hx]
    | ok b =>
      cases hy : f y with
      | error e => exact absurd ((alike e).mpr hy) (by rw [hx]; exact nofun)
      | ok b' => cases later.mapM f <;> simp [bind, Except.bind, pure, Except.pure]

end Exchange

/-! ## What a reply can carry -/

namespace Chat

/-- Items have a form if each of them is a part. -/
theorem partsOf_isOk_iff {role : Role} {part? : Content → Option Part} {items : List Content} :
    (∃ parts, partsOf role part? items = .ok parts) ↔ ∀ c ∈ items, (part? c).isSome = true := by
  induction items with
  | nil => exact ⟨fun _ _ none => absurd none List.not_mem_nil, fun _ => ⟨[], rfl⟩⟩
  | cons c r ih =>
    rw [List.forall_mem_cons, ← ih]
    cases here : part? c with
    | none =>
      rw [partsOf_of_none here]
      exact ⟨nofun, nofun⟩
    | some part =>
      rw [partsOf_of_some here]
      cases partsOf role part? r with
      | error fault => exact ⟨nofun, nofun⟩
      | ok parts => exact ⟨fun _ => ⟨rfl, parts, rfl⟩, fun _ => ⟨part :: parts, rfl⟩⟩

theorem Body.not_isToolCall (body : Body) : ∀ c ∈ body.toContent, c.isToolCall = false := by
  intro c there
  cases body with
  | text s => rw [List.mem_singleton.mp there]; rfl
  | parts ps =>
    obtain ⟨part, -, rfl⟩ := List.mem_map.mp there
    cases part <;> rfl

/-- A user may say all that is read from a provider. -/
theorem Body.userPart_isSome (body : Body) : ∀ c ∈ body.toContent, (userPart? c).isSome = true := by
  intro c there
  cases body with
  | text s => rw [List.mem_singleton.mp there]; rfl
  | parts ps =>
    obtain ⟨part, -, rfl⟩ := List.mem_map.mp there
    cases part <;> rfl

/-- What is spoken is said by no assistant and no tool. -/
theorem Entry.role_of_spoken {j : Json} {role : Role} {body : Body} {extra : Attributes}
    (read : ofJson? j = some (spoken role body extra)) : role ≠ .assistant ∧ role ≠ .tool := by
  unfold ofJson? at read
  simp only [Option.bind_eq_bind, Option.bind_eq_some_iff] at read
  obtain ⟨fields, -, word, -, said, -, read⟩ := read
  cases said with
  | assistant | tool => simp [Option.bind_eq_some_iff] at read
  | system | developer | user =>
    obtain ⟨_, -, same⟩ := Option.bind_eq_some_iff.mp read
    cases same
    exact ⟨nofun, nofun⟩

/-- An assistant's message is like the reply to it but for its attributes. -/
theorem Entry.ofMessage_assistant (content : List Content) (a : Attributes) :
    ofMessage ⟨.assistant, content, a⟩ = (ofMessage ⟨.assistant, content, []⟩).map fun
      | assistant body calls _ => assistant body calls a
      | entry => entry := by
  unfold ofMessage
  dsimp only
  cases partsOf .assistant textPart? (content.filter fun item => !item.isToolCall) <;> rfl

/-- If a message that was read has a form as the reply, it has one as it is. -/
theorem Entry.ofMessage_isOk {j : Json} {entry : Entry} {tools tools' : List (String × String)} {m : Message}
    {reply : Entry} (read : ofJson? j = some entry) (made : entry.toMessage tools = .ok (m, tools'))
    (given : ofMessage m.asReply = .ok reply) : ∃ e, ofMessage m = .ok e := by
  cases entry with
  | tool id body extra =>
    obtain ⟨rfl, -⟩ := Prod.mk.inj (Except.ok.inj made)
    exact ⟨_, rfl⟩
  | assistant body calls extra =>
    cases asked : calls.mapM Call.toContent? with
    | none => simp [toMessage, asked] at made
    | some items =>
      simp only [toMessage, asked] at made
      obtain ⟨rfl, -⟩ := Prod.mk.inj (Except.ok.inj made)
      rw [ofMessage_assistant]
      unfold Message.asReply at given
      rw [given]
      exact ⟨_, rfl⟩
  | spoken role body extra =>
    obtain ⟨rfl, -⟩ := Prod.mk.inj (Except.ok.inj made)
    obtain ⟨notAssistant, notTool⟩ := role_of_spoken read
    -- Nothing that is spoken asks for a tool, so the reply has nothing but text.
    have texts : ∀ role, ∃ parts, partsOf role textPart? body.toContent = .ok parts := by
      have whole : body.toContent.filter (fun item => !item.isToolCall) = body.toContent :=
        List.filter_eq_self.mpr fun c there => by rw [body.not_isToolCall c there]; rfl
      unfold ofMessage Message.asReply at given
      dsimp only at given
      rw [whole] at given
      cases ok : partsOf .assistant textPart? body.toContent with
      | error fault => rw [ok] at given; cases given
      | ok parts => exact fun role => partsOf_isOk_iff.mpr (partsOf_isOk_iff.mp ⟨parts, ok⟩)
    have heard : ∃ parts, partsOf .user userPart? body.toContent = .ok parts := partsOf_isOk_iff.mpr body.userPart_isSome
    obtain ⟨said, saidOk⟩ := heard
    unfold ofMessage
    cases role with
    | assistant => exact absurd rfl notAssistant
    | tool => exact absurd rfl notTool
    | user => exact ⟨_, by dsimp only; rw [saidOk]; rfl⟩
    | system => obtain ⟨parts, ok⟩ := texts .system; exact ⟨_, by dsimp only; rw [ok]; rfl⟩
    | developer => obtain ⟨parts, ok⟩ := texts .developer; exact ⟨_, by dsimp only; rw [ok]; rfl⟩

end Chat

namespace Format

/-- One message is read as one, or not at all. -/
theorem decodeMessages_singleton {f : Format} {j : Json} {ms : List Message} (h : f.decodeMessages [j] = .ok ms) :
    ∃ m, ms = [m] := by
  cases f with
  | canonical =>
    rw [decodeMessages_canonical_cons] at h
    cases read : Message.ofJson? j with
    | none => rw [read] at h; cases h
    | some m =>
      rw [read] at h
      exact ⟨m, (Except.ok.inj h).symm⟩
  | chat =>
    unfold decodeMessages Chat.messagesOf at h
    dsimp only at h
    split at h
    · cases h
    · next entry read =>
      cases made : entry.toMessage [] with
      | error fault => rw [made] at h; cases h
      | ok both =>
        rw [made] at h
        exact ⟨both.1, (Except.ok.inj h).symm⟩

/-- A message that was read has a form, if the reply to it has one. -/
theorem encodeMessage_isOk {f : Format} {j reply : Json} {m : Message} (h : f.decodeMessages [j] = .ok [m])
    (given : f.encodeMessage m.asReply = .ok reply) : ∃ e, f.encodeMessage m = .ok e := by
  cases f with
  | canonical => exact ⟨_, rfl⟩
  | chat =>
    unfold decodeMessages Chat.messagesOf at h
    dsimp only at h
    split at h
    · cases h
    · next entry read =>
      cases made : entry.toMessage [] with
      | error fault => rw [made] at h; cases h
      | ok both =>
        rw [made] at h
        obtain ⟨same, -⟩ := List.cons.inj (Except.ok.inj h)
        unfold encodeMessage at given ⊢
        dsimp only at given ⊢
        cases ok : Chat.Entry.ofMessage m.asReply with
        | error fault => rw [ok] at given; cases given
        | ok e =>
          have whole : entry.toMessage [] = .ok (m, both.2) := by rw [made, ← same]
          obtain ⟨e', ok'⟩ := Chat.Entry.ofMessage_isOk read whole ok
          exact ⟨e'.toJson, by rw [ok']; rfl⟩

/-- An assistant's message, and in the canonical format any message, lacks a form just as the reply to it does. -/
theorem encodeMessage_error_iff {f : Format} {m : Message} (h : f = .canonical ∨ m.role = .assistant)
    (fault : ProviderFault) : f.encodeMessage m.asReply = .error fault ↔ f.encodeMessage m = .error fault := by
  cases f with
  | canonical => exact ⟨nofun, nofun⟩
  | chat =>
    obtain ⟨role, content, a⟩ := m
    obtain rfl : role = .assistant := h.resolve_left nofun
    unfold encodeMessage Message.asReply
    dsimp only
    rw [Chat.Entry.ofMessage_assistant content a]
    cases Chat.Entry.ofMessage ⟨.assistant, content, []⟩ with
    | error e => exact Iff.rfl
    | ok e => exact ⟨nofun, nofun⟩

theorem encode_eq_ok_iff {f : Format} {c : Conversation} {e : Exchange} :
    f.encode c = .ok e ↔ c.messages.mapM f.encodeMessage = .ok e.messages ∧ e.config = c.config := by
  unfold encode
  cases c.messages.mapM f.encodeMessage with
  | error fault => exact ⟨nofun, fun h => nomatch h.1⟩
  | ok js =>
    constructor
    · intro h
      cases Except.ok.inj h
      exact ⟨rfl, rfl⟩
    · rintro ⟨same, config⟩
      obtain ⟨_, _⟩ := e
      cases Except.ok.inj same
      cases config
      rfl

theorem encode_eq_error_iff {f : Format} {c : Conversation} {fault : ProviderFault} :
    f.encode c = .error fault ↔ c.messages.mapM f.encodeMessage = .error fault := by
  unfold encode
  cases c.messages.mapM f.encodeMessage with
  | error e => exact ⟨fun h => congrArg Except.error (Except.error.inj h), fun h => congrArg Except.error (Except.error.inj h)⟩
  | ok js => exact ⟨nofun, nofun⟩

end Format

/-- One message as a response. -/
def Response.single (fields : List (String × Json)) : Response := .message (.obj fields)

/-- The list of that message, which is the assistant's if it has no role. -/
def Response.listed (fields : List (String × Json)) : Response := .messages [Chain.withRole fields]

namespace Chain

variable {σ : Type} {eval : Evaluator σ}

/-! ## Responses as they are read -/

/-- The fields of the message that holds a text and nothing else. -/
def plainly (s : String) : List (String × Json) :=
  [("content", .arr [.obj [("type", .str "text"), ("text", .str s)]])]

/-- What the history keeps of a message of the response. -/
def recorded (chain : Chain) (m : Message) : List Message := if chain.isolated then [] else [m]

theorem decoded_singleton {chain : Chain} {j : Json} {ms : List Message} (h : chain.decoded [j] = .ok ms) :
    chain.format.decodeMessages [j] = .ok ms ∧ ∃ m, ms = [m] := by
  unfold decoded at h
  cases read : chain.format.decodeMessages [j] with
  | error fault => rw [read] at h; cases h
  | ok ms' =>
    rw [read] at h
    cases Except.ok.inj h
    exact ⟨rfl, Format.decodeMessages_singleton read⟩

theorem decoded_plainly (chain : Chain) (s : String) :
    chain.decoded [withRole (plainly s)] = .ok [⟨.assistant, [.plain s], []⟩] := by
  unfold decoded
  cases chain.format <;> rfl

/-- The message that holds a text is read as the text is. -/
theorem answerOf_plainly (chain : Chain) (s : String) : chain.answerOf (.single (plainly s)) = chain.answerOf (.text s) := by
  unfold Response.single answerOf
  dsimp only
  rw [decoded_plainly]
  rfl

theorem answerOf_single {chain : Chain} {fields : List (String × Json)} {m : Message}
    (read : chain.decoded [withRole fields] = .ok [m]) :
    chain.answerOf (.single fields) = .ok ⟨[m.asReply], m.content⟩ := by
  unfold Response.single answerOf
  dsimp only
  rw [read]
  rfl

theorem answerOf_listed {chain : Chain} {fields : List (String × Json)} {m : Message}
    (read : chain.decoded [withRole fields] = .ok [m]) : chain.answerOf (.listed fields) = .ok ⟨[m], m.content⟩ := by
  unfold Response.listed answerOf
  dsimp only
  rw [read]
  show Except.ok (Answer.mk [m] (m.content ++ [])) = _
  rw [List.append_nil]

/-- Both forms fail to be read alike. -/
theorem answerOf_eq_of_error {chain : Chain} {fields : List (String × Json)} {fault : ChainFault}
    (unread : chain.decoded [withRole fields] = .error fault) :
    chain.answerOf (.single fields) = chain.answerOf (.listed fields) := by
  unfold Response.single Response.listed answerOf
  dsimp only
  rw [unread]
  rfl

/-! ## Steps on them -/

variable (eval) in
/-- A step sees no more of a response than how it is read. -/
theorem step_congr {chain : Chain} {r r' : Response} (same : chain.answerOf r = chain.answerOf r') (world : World σ) :
    chain.step eval (some r) world = chain.step eval (some r') world := by
  have turn : chain.checkTurn (some r) = chain.checkTurn (some r') := rfl
  have read : chain.answer? (some r) = chain.answer? (some r') := congrArg (Except.map some) same
  unfold step
  rw [turn, read]

variable (eval) in
/-- Steps on answers of the same content come to the same point, and go on from one outcome of the pass. -/
theorem step_of_content {chain : Chain} {r r' : Response} {a b : Answer} (read : chain.answerOf r = .ok a)
    (read' : chain.answerOf r' = .ok b) (same : a.content = b.content) (world : World σ) :
    (∃ fault w, chain.step eval (some r) world = (.error fault, w) ∧
      chain.step eval (some r') world = (.error fault, w)) ∨
    ∃ outcome w, chain.step eval (some r) world = (chain.advance (some a) outcome, w) ∧
      chain.step eval (some r') world = (chain.advance (some b) outcome, w) := by
  have turn : chain.checkTurn (some r) = chain.checkTurn (some r') := rfl
  have answers : chain.answer? (some r) = .ok (some a) ∧ chain.answer? (some r') = .ok (some b) := by
    dsimp only [answer?]
    rw [read, read']
    exact ⟨rfl, rfl⟩
  unfold step
  rw [answers.1, answers.2, turn]
  cases chain.checkTurn (some r') with
  | error fault => exact .inl ⟨fault, world, rfl, rfl⟩
  | ok ready =>
    dsimp only [bind, Except.bind, Option.map_some]
    rw [same]
    split
    · next fault machine _ => exact .inl ⟨_, _, rfl, rfl⟩
    · next outcome machine _ => exact .inr ⟨outcome, _, rfl, rfl⟩

/-- The turn on a response of one message. -/
def replying (chain : Chain) (m : Message) (content : List Content) (outcome : Outcome) : Turn :=
  { answer := some ⟨[m], content⟩, outcome
    config := Fields.merge ((outcome.globalConfig.or chain.config).getD []) (outcome.stepConfig.getD [])
    result := default }

theorem sent_replying (chain : Chain) (m : Message) (content : List Content) (outcome : Outcome) :
    chain.sent (chain.replying m content outcome) =
      if (chain.replying m content outcome).isolated then outcome.messages
      else chain.history ++ chain.recorded m ++ outcome.messages := by
  have heard : chain.heard (chain.replying m content outcome) = chain.history ++ chain.recorded m := rfl
  unfold sent told
  rw [heard]
  split <;> rfl

theorem advance_replying (chain : Chain) (m : Message) (content : List Content) (outcome : Outcome) :
    chain.advance (some ⟨[m], content⟩) outcome =
      (chain.format.encode ⟨(chain.replying m content outcome).config,
        chain.sent (chain.replying m content outcome)⟩).mapError ChainFault.provider >>= fun exchange =>
          .ok (chain.after (chain.replying m content outcome),
            ⟨exchange.messages, exchange.config, (chain.replying m content outcome).last⟩) :=
  @advance_eq chain (chain.replying m content outcome) rfl

/-- The chain that the turn leaves has the response in its history only. -/
theorem after_replying (chain : Chain) (m m' : Message) (content : List Content) (outcome : Outcome) :
    chain.after (chain.replying m content outcome) =
      { chain.after (chain.replying m' content outcome) with
        history := chain.history ++ chain.recorded m ++
          if (chain.replying m' content outcome).isolated then [] else outcome.messages } := rfl

/-- A response is among the messages to send, or none of them. -/
theorem sent_around (chain : Chain) (content : List Content) (outcome : Outcome) :
    (∀ m m', chain.sent (chain.replying m content outcome) = chain.sent (chain.replying m' content outcome)) ∨
    ∃ before later, ∀ m, chain.sent (chain.replying m content outcome) = before ++ m :: later := by
  have isolated : ∀ m m', (chain.replying m content outcome).isolated = (chain.replying m' content outcome).isolated :=
    fun _ _ => rfl
  by_cases apart : chain.isolated = true
  · left
    intro m m'
    rw [sent_replying, sent_replying, isolated m m', recorded, recorded, if_pos apart, if_pos apart]
  · by_cases alone : (chain.replying default content outcome).isolated = true
    · left
      intro m m'
      rw [sent_replying, sent_replying, isolated m default, isolated m' default, if_pos alone, if_pos alone]
    · right
      refine ⟨chain.history, outcome.messages, fun m => ?_⟩
      rw [sent_replying, isolated m default, if_neg alone, recorded, if_neg apart, List.append_assoc]
      rfl

/-- A turn goes the same way on messages of which the history keeps the same. -/
theorem advance_congr {chain : Chain} {m m' : Message} (same : chain.recorded m = chain.recorded m')
    (content : List Content) (outcome : Outcome) :
    chain.advance (some ⟨[m], content⟩) outcome = chain.advance (some ⟨[m'], content⟩) outcome := by
  have sent_eq : chain.sent (chain.replying m content outcome) = chain.sent (chain.replying m' content outcome) := by
    rw [sent_replying, sent_replying, same]
    rfl
  have after_eq : chain.after (chain.replying m content outcome) = chain.after (chain.replying m' content outcome) := by
    rw [after_replying chain m m', same]
    rfl
  rw [advance_replying, advance_replying, sent_eq, after_eq]
  rfl

/-- The history keeps the same of a message and the reply to it, if it keeps nothing or the message is that reply. -/
theorem recorded_asReply_iff {chain : Chain} {m : Message} :
    chain.recorded m.asReply = chain.recorded m ↔ chain.isolated = true ∨ m.asReply = m := by
  unfold recorded
  by_cases apart : chain.isolated = true
  · simp [apart]
  · simp [apart]

/-- What two steps give that differ in how the history keeps the response: `m` itself, or the reply made of it. -/
structure Corresponding (chain : Chain) (m : Message) (one many : Chain × StepResult) : Prop where
  chains : one.1 = { many.1 with history := one.1.history }
  config : one.2.config = many.2.config
  completed : one.2.completed = many.2.completed
  histories : ∃ later, one.1.history = chain.history ++ chain.recorded m.asReply ++ later ∧
    many.1.history = chain.history ++ chain.recorded m ++ later
  /-- The messages to send are the same but for the form of that message. -/
  sent : one.2.messages = many.2.messages ∨ ∃ before reply j later, chain.format.encodeMessage m.asReply = .ok reply ∧
    chain.format.encodeMessage m = .ok j ∧ one.2.messages = before ++ reply :: later ∧
    many.2.messages = before ++ j :: later
  /-- So they are the same just if the message is kept by neither, or is a reply already. -/
  same_iff : one = many ↔ chain.isolated = true ∨ m.asReply = m

/-- The messages of both have a form, if those with the reply have one. -/
theorem encoded_exchanged {chain : Chain} {j : Json} {m : Message} (read : chain.format.decodeMessages [j] = .ok [m])
    {content : List Content} {outcome : Outcome} {given : List Json}
    (ok : (chain.sent (chain.replying m.asReply content outcome)).mapM chain.format.encodeMessage = .ok given) :
    ∃ given', (chain.sent (chain.replying m content outcome)).mapM chain.format.encodeMessage = .ok given' ∧
      (given = given' ∨ ∃ before reply j later, chain.format.encodeMessage m.asReply = .ok reply ∧
        chain.format.encodeMessage m = .ok j ∧ given = before ++ reply :: later ∧ given' = before ++ j :: later) := by
  rcases chain.sent_around content outcome with same | ⟨before, later, around⟩
  · exact ⟨given, by rw [same m m.asReply, ok], .inl rfl⟩
  · rw [around, mapM_around_eq_ok_iff] at ok
    obtain ⟨front, reply, back, first, here, rest, rfl⟩ := ok
    obtain ⟨j, there⟩ := Format.encodeMessage_isOk read here
    refine ⟨front ++ j :: back, ?_, .inr ⟨front, reply, j, back, here, there, rfl, rfl⟩⟩
    rw [around, mapM_around_eq_ok_iff]
    exact ⟨front, j, back, first, there, rest, rfl⟩

/-- After a pass, the reply is taken where the message is taken, and to the same effect but for the history. -/
theorem advance_alike {chain : Chain} {j : Json} {m : Message} (read : chain.format.decodeMessages [j] = .ok [m])
    {content : List Content} {outcome : Outcome} {one : Chain × StepResult}
    (ok : chain.advance (some ⟨[m.asReply], content⟩) outcome = .ok one) :
    ∃ many, chain.advance (some ⟨[m], content⟩) outcome = .ok many ∧ Corresponding chain m one many := by
  have made := ok
  rw [advance_replying] at ok
  cases given : chain.format.encode ⟨(chain.replying m.asReply content outcome).config,
      chain.sent (chain.replying m.asReply content outcome)⟩ with
  | error fault => rw [given] at ok; cases ok
  | ok exchange =>
    rw [given] at ok
    cases Except.ok.inj ok
    obtain ⟨messages, config⟩ := Format.encode_eq_ok_iff.mp given
    obtain ⟨given', ok', alike⟩ := encoded_exchanged read messages
    have encoded : chain.format.encode ⟨(chain.replying m content outcome).config,
        chain.sent (chain.replying m content outcome)⟩ = .ok ⟨exchange.config, given'⟩ :=
      Format.encode_eq_ok_iff.mpr ⟨ok', config⟩
    have made' : chain.advance (some ⟨[m], content⟩) outcome = .ok (chain.after (chain.replying m content outcome),
        ⟨given', exchange.config, (chain.replying m content outcome).last⟩) := by
      rw [advance_replying, encoded]
      rfl
    refine ⟨_, made', ?_⟩
    have kept := chain.after_replying m.asReply m content outcome
    have kept' := chain.after_replying m m content outcome
    refine ⟨rfl, rfl, rfl, ⟨_, congrArg history kept, congrArg history kept'⟩, alike, ?_, ?_⟩
    · intro same
      have same := congrArg (fun r : Chain × StepResult => r.1.history) same
      dsimp only at same
      rw [kept, kept', List.append_left_inj, List.append_right_inj] at same
      exact recorded_asReply_iff.mp same
    · intro same
      have advances := advance_congr (recorded_asReply_iff.mpr same) content outcome
      rw [made, made'] at advances
      exact Except.ok.inj advances

/-- The message is refused where the reply is refused, if one lacks a form just as the other does. -/
theorem advance_error_iff {chain : Chain} {m : Message} (h : chain.format = .canonical ∨ m.role = .assistant)
    (content : List Content) (outcome : Outcome) (fault : ChainFault) :
    chain.advance (some ⟨[m.asReply], content⟩) outcome = .error fault ↔
      chain.advance (some ⟨[m], content⟩) outcome = .error fault := by
  have refused (m : Message) : chain.advance (some ⟨[m], content⟩) outcome = .error fault ↔ ∃ e, fault = .provider e ∧
      (chain.sent (chain.replying m content outcome)).mapM chain.format.encodeMessage = .error e := by
    rw [advance_replying]
    simp only [← Format.encode_eq_error_iff (c := ⟨(chain.replying m content outcome).config, _⟩)]
    cases chain.format.encode ⟨(chain.replying m content outcome).config,
        chain.sent (chain.replying m content outcome)⟩ with
    | error e =>
      show Except.error (ChainFault.provider e) = .error fault ↔ ∃ e', fault = .provider e' ∧ Except.error e = .error e'
      constructor
      · intro failed
        exact ⟨e, (Except.error.inj failed).symm, rfl⟩
      · rintro ⟨_, rfl, same⟩
        rw [Except.error.inj same]
    | ok exchange => exact ⟨nofun, nofun⟩
  rw [refused, refused]
  refine exists_congr fun e => and_congr_right fun _ => ?_
  rcases chain.sent_around content outcome with same | ⟨before, later, around⟩
  · rw [same m.asReply m]
  · rw [around, around]
    exact mapM_around_error_congr (Format.encodeMessage_error_iff h) e

/-- **The forms of a response agree, but for what the history keeps of one message.** A text and the message that holds
it are the same response. One message and the list of it, made the assistant's if it has no role, lead to the same
evaluations, and if neither can be read, to the same fault; else the message is `m`, and they are the same response if
the history does not hear it, or if `m` is the assistant's and has no attributes. Where they are not, the steps
correspond: the chain, its variables and the settings are the same, and the history has `m` for the list, and the reply
made of it for the one message. -/
theorem response_forms_agree (chain : Chain) (world : World σ) :
    (∀ s, chain.step eval (some (.text s)) world = chain.step eval (some (.single (plainly s))) world) ∧
    ∀ fields,
      (chain.step eval (some (.single fields)) world).2 = (chain.step eval (some (.listed fields)) world).2 ∧
      ((∃ fault, chain.decoded [withRole fields] = .error fault) ∧
          chain.step eval (some (.single fields)) world = chain.step eval (some (.listed fields)) world ∨
        ∃ m, chain.decoded [withRole fields] = .ok [m] ∧
          (chain.isolated = true ∨ m.asReply = m →
            chain.step eval (some (.single fields)) world = chain.step eval (some (.listed fields)) world) ∧
          (chain.format = .canonical ∨ m.role = .assistant → ∀ fault w,
            chain.step eval (some (.single fields)) world = (.error fault, w) ↔
              chain.step eval (some (.listed fields)) world = (.error fault, w)) ∧
          ∀ one w, chain.step eval (some (.single fields)) world = (.ok one, w) →
            ∃ many, chain.step eval (some (.listed fields)) world = (.ok many, w) ∧ Corresponding chain m one many) := by
  refine ⟨fun s => step_congr eval (chain.answerOf_plainly s).symm world, fun fields => ?_⟩
  cases readable : chain.decoded [withRole fields] with
  | error fault =>
    have same := step_congr eval (answerOf_eq_of_error readable) world
    exact ⟨congrArg Prod.snd same, .inl ⟨⟨fault, rfl⟩, same⟩⟩
  | ok ms =>
    obtain ⟨read, m, rfl⟩ := decoded_singleton readable
    have single := answerOf_single readable
    have listed := answerOf_listed readable
    rcases step_of_content eval single listed rfl world with ⟨fault, w, one, many⟩ | ⟨outcome, w, one, many⟩
    · rw [one, many]
      exact ⟨rfl, .inr ⟨m, rfl, fun _ => rfl, fun _ _ _ => Iff.rfl, fun _ _ h => nomatch (Prod.mk.inj h).1⟩⟩
    · rw [one, many]
      refine ⟨rfl, .inr ⟨m, rfl, ?_, ?_, ?_⟩⟩
      · intro same
        rw [advance_congr (recorded_asReply_iff.mpr same)]
      · intro h fault w'
        rw [Prod.mk.injEq, Prod.mk.injEq, advance_error_iff h]
      · intro made w' ok
        obtain ⟨taken, rfl⟩ := Prod.mk.inj ok
        obtain ⟨many, taken', alike⟩ := advance_alike read taken
        exact ⟨many, by rw [taken'], alike⟩

/-- A chain that awaits the answer to its step takes it in every form, to the same effect. -/
theorem answer_in_every_form : ∃ first found last result turn world world' world'',
    start "<step>ask</step>done" [] .canonical {} = .ok first ∧
      Run (Expr.eval Host.idle) first world [(none, turn)] found world' ∧
      found.step (Expr.eval Host.idle) (some (.text "x")) world' = (.ok (last, result), world'') ∧
      last.history.map Message.text = ["ask", "x", "done"] ∧
      found.step (Expr.eval Host.idle) (some (.single (plainly "x"))) world' = (.ok (last, result), world'') ∧
      found.step (Expr.eval Host.idle) (some (.listed (plainly "x"))) world' = (.ok (last, result), world'') := by
  have made : reaches (Expr.eval Host.idle) "<step>ask</step>done" [] .canonical {} [none, some (.text "x")] ⟨0, ()⟩
      (fun last _ => last.history.map Message.text = ["ask", "x", "done"]) := by
    decide +kernel
  obtain ⟨first, last, turns, world'', begins, run, answers, texts⟩ := exists_run_of_reaches made
  obtain ⟨⟨_, turn⟩, later, rfl, rfl, second⟩ := List.map_eq_cons_iff.mp answers
  obtain ⟨⟨_, turn'⟩, later, rfl, rfl, ends⟩ := List.map_eq_cons_iff.mp second
  obtain rfl := List.map_eq_nil_iff.mp ends
  have whole : Run (Expr.eval Host.idle) first ⟨0, ()⟩ ([(none, turn)] ++ [(some (.text "x"), turn')]) last world'' := run
  obtain ⟨found, world', _, before, taken, rest⟩ := whole.cut
  cases rest
  have text := step_eq_ok_iff.mpr ⟨turn', rfl, rfl, taken⟩
  obtain ⟨texts_agree, forms⟩ := @response_forms_agree _ (Expr.eval Host.idle) found world'
  have single := (texts_agree "x").symm.trans text
  refine ⟨first, found, _, _, turn, _, world', _, begins, before, text, of_decide_eq_true texts, single, ?_⟩
  rcases (forms (plainly "x")).2 with ⟨-, same⟩ | ⟨m, read, same, -⟩
  · exact same.symm.trans single
  · obtain rfl : _ = m := (List.cons.inj (Except.ok.inj ((decoded_plainly found "x").symm.trans read))).1
    exact (same (.inr rfl)).symm.trans single

/-- A message of a user, with a name. -/
def fromBob : List (String × Json) :=
  [("role", .str "user"), ("name", .str "bob"), ("content", .arr [.obj [("type", .str "text"), ("text", .str "x")]])]

/-- **One message of a user is not the list of it**: the history has it as the assistant's and without its attributes. -/
theorem user_recorded_as_assistant : ∃ first one many turns turns' world world',
    start "<step>ask</step>done" [] .canonical {} = .ok first ∧
      Run (Expr.eval Host.idle) first ⟨0, ()⟩ turns one world ∧
      turns.map Prod.fst = [none, some (.single fromBob)] ∧
      one.history.map (fun m => (m.role, Fields.names m.attributes)) =
        [(.system, []), (.assistant, []), (.system, [])] ∧
      Run (Expr.eval Host.idle) first ⟨0, ()⟩ turns' many world' ∧
      turns'.map Prod.fst = [none, some (.listed fromBob)] ∧
      many.history.map (fun m => (m.role, Fields.names m.attributes)) =
        [(.system, []), (.user, ["name"]), (.system, [])] := by
  have one : reaches (Expr.eval Host.idle) "<step>ask</step>done" [] .canonical {}
      [none, some (.single fromBob)] ⟨0, ()⟩ (fun last _ => last.history.map
        (fun m => (m.role, Fields.names m.attributes)) = [(.system, []), (.assistant, []), (.system, [])]) := by
    decide +kernel
  have many : reaches (Expr.eval Host.idle) "<step>ask</step>done" [] .canonical {}
      [none, some (.listed fromBob)] ⟨0, ()⟩ (fun last _ => last.history.map
        (fun m => (m.role, Fields.names m.attributes)) = [(.system, []), (.user, ["name"]), (.system, [])]) := by
    decide +kernel
  obtain ⟨first, last, turns, world, begins, run, answers, roles⟩ := exists_run_of_reaches one
  obtain ⟨first', last', turns', world', begins', run', answers', roles'⟩ := exists_run_of_reaches many
  obtain rfl := Except.ok.inj (begins.symm.trans begins')
  exact ⟨first, last, last', turns, turns', world, world', begins, run, answers, of_decide_eq_true roles, run', answers',
    of_decide_eq_true roles'⟩

end Chain
end PromptScript
