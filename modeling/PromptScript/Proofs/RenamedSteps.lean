import PromptScript.Proofs.Exchanged
import PromptScript.Proofs.Marks
import PromptScript.Proofs.Persistence
import PromptScript.Proofs.RenamedPasses
import PromptScript.Proofs.RenamedWalks

/-! # Messages and steps with other identities

Messages that differ in identities alone have one form in every format: no format writes functions out. -/
namespace PromptScript

variable {f : Nat → Nat}

theorem Message.toJson_renamed (m : Message) : (renamed f m).toJson = m.toJson := by
  have items : (renamed f m).content.map Content.toJson = m.content.map Content.toJson :=
    List.map_map.trans (List.map_congr_left fun c _ => Content.toJson_renamed c)
  have attributes : (renamed f m).attributes.toJson = m.attributes.toJson := Attributes.toJson_renamed m.attributes
  show Json.obj (Fields.ofList ([("role", Json.str m.role.name), ("content", .arr ((renamed f m).content.map Content.toJson))] ++
    (renamed f m).attributes.toJson)) = _
  rw [items, attributes]
  rfl

namespace Chat

namespace Part

/-- The part with other identities in its attributes. -/
def withIdentities (f : Nat → Nat) : Part → Part
  | text s extra => text s (renamed f extra)
  | image url extra => image url (renamed f extra)
  | audio data format extra => audio data format (renamed f extra)

theorem toJson_withIdentities (part : Part) : (part.withIdentities f).toJson = part.toJson := by
  cases part <;> simp only [withIdentities, toJson, Attributes.toJson_renamed]

end Part

namespace Body

def withIdentities (f : Nat → Nat) : Body → Body
  | text s => text s
  | parts ps => parts (ps.map (Part.withIdentities f))

theorem toJson_withIdentities (body : Body) : (body.withIdentities f).toJson = body.toJson := by
  cases body with
  | text s => rfl
  | parts ps =>
    have same : ps.map (Part.toJson ∘ Part.withIdentities f) = ps.map Part.toJson :=
      List.map_congr_left fun part _ => part.toJson_withIdentities
    simp only [withIdentities, toJson, List.map_map, same]

end Body

namespace Entry

/-- The entry with other identities in what it holds beyond its own fields. -/
def withIdentities (f : Nat → Nat) : Entry → Entry
  | spoken role body extra => spoken role (body.withIdentities f) (renamed f extra)
  | assistant body calls extra => assistant (body.map (Body.withIdentities f)) calls (renamed f extra)
  | tool id body extra => tool id (body.withIdentities f) (renamed f extra)

theorem toJson_withIdentities (entry : Entry) : (entry.withIdentities f).toJson = entry.toJson := by
  cases entry with
  | spoken role body extra => simp only [withIdentities, toJson, Body.toJson_withIdentities, Attributes.toJson_renamed]
  | assistant body calls extra =>
    cases body <;>
      simp only [withIdentities, toJson, Option.map_none, Option.map_some, Body.toJson_withIdentities,
        Attributes.toJson_renamed]
  | tool id body extra => simp only [withIdentities, toJson, Body.toJson_withIdentities, Attributes.toJson_renamed]

end Entry

theorem textPart?_renamed (c : Content) : textPart? (renamed f c) = (textPart? c).map (Part.withIdentities f) := by
  cases c <;> rfl

theorem userPart?_renamed (c : Content) : userPart? (renamed f c) = (userPart? c).map (Part.withIdentities f) := by
  cases c with
  | file url mimeType a =>
    show some (filePart url mimeType (renamed f a)) = some ((filePart url mimeType a).withIdentities f)
    unfold filePart
    split
    · rfl
    · split <;> rfl
  | _ => rfl

theorem partsOf_renamed {part? : Content → Option Part}
    (h : ∀ c, part? (renamed f c) = (part? c).map (Part.withIdentities f)) (role : Role) (items : List Content) :
    partsOf role part? (renamed f items) = (partsOf role part? items).map (List.map (Part.withIdentities f)) := by
  induction items with
  | nil => rfl
  | cons c r ih =>
    have here := h c
    rw [renamed_cons]
    cases there : part? c with
    | none =>
      rw [there] at here
      rw [partsOf_of_none there, partsOf_of_none here, Content.kindName_renamed]
      rfl
    | some part =>
      rw [there] at here
      rw [partsOf_of_some there, partsOf_of_some here, ih]
      cases partsOf role part? r <;> rfl

theorem soleText_withIdentities : ∀ ps : List Part,
    soleText (ps.map (Part.withIdentities f)) = (soleText ps).withIdentities f
  | [] | [.text _ _] | [.image _ _] | [.audio _ _ _] => rfl
  | a :: b :: r => by
    show soleText (a.withIdentities f :: b.withIdentities f :: r.map (Part.withIdentities f)) = _
    cases a <;> rfl

theorem callOf?_renamed (c : Content) : callOf? (renamed f c) = callOf? c := by
  cases c with
  | toolCall id name arguments a =>
    show some (Call.mk id "function" name (renamed f arguments).toJson.toText) = _
    rw [Value.toJson_renamed]
    rfl
  | _ => rfl

theorem resultText?_renamed (v : Value) : resultText? (renamed f v) = resultText? v := by
  cases v with
  | object fields =>
    rw [Value.renamed_object]
    have kind : (Fields.get? "type" (renamed f fields)).bind Value.string? =
        (Fields.get? "type" fields).bind Value.string? := by
      rw [Fields.get?_renamed]
      cases Fields.get? "type" fields <;> simp
    have text : (Fields.get? "text" (renamed f fields)).map Value.toText = (Fields.get? "text" fields).map Value.toText := by
      rw [Fields.get?_renamed]
      cases Fields.get? "text" fields <;> simp
    unfold resultText?
    simp only [kind, text]
  | array items => rw [Value.renamed_array]; rfl
  | _ => rfl

theorem resultText_renamed (v : Value) : resultText (renamed f v) = resultText v := by
  have json := Value.toJson_renamed (f := f) v
  cases v with
  | array items =>
    have texts : (renamed f items).filterMap resultText? = items.filterMap resultText? :=
      List.filterMap_map.trans (congrArg (List.filterMap · items) (funext resultText?_renamed))
    rw [Value.renamed_array] at json ⊢
    unfold resultText
    dsimp only
    rw [texts, json]
  | object fields =>
    rw [Value.renamed_object] at json ⊢
    exact congrArg Json.toText json
  | _ => rfl

theorem firstResult?_renamed (items : List Content) :
    firstResult? (renamed f items) = (firstResult? items).map fun found => (found.1, renamed f found.2) := by
  induction items with
  | nil => rfl
  | cons c r ih => cases c with
    | toolResult => rfl
    | _ => exact ih

theorem Entry.ofMessage_renamed (m : Message) :
    ofMessage (renamed f m) = (ofMessage m).map (Entry.withIdentities f) := by
  obtain ⟨role, content, extra⟩ := m
  have worded (role : Role) :
      (partsOf role textPart? (renamed f content) >>= fun ps => pure (spoken role (soleText ps) (renamed f extra))) =
      (partsOf role textPart? content >>= fun ps => pure (spoken role (soleText ps) extra)).map (withIdentities f) := by
    rw [partsOf_renamed textPart?_renamed]
    cases partsOf role textPart? content with
    | error fault => rfl
    | ok ps =>
      show Except.ok (spoken role (soleText (ps.map (Part.withIdentities f))) (renamed f extra)) = _
      rw [soleText_withIdentities]
      rfl
  show ofMessage ⟨role, renamed f content, renamed f extra⟩ = _
  cases role with
  | system => exact worded .system
  | developer => exact worded .developer
  | user =>
    unfold ofMessage
    dsimp only
    rw [partsOf_renamed userPart?_renamed]
    cases partsOf .user userPart? content <;> rfl
  | tool =>
    unfold ofMessage
    dsimp only
    rw [firstResult?_renamed]
    cases firstResult? content with
    | none => rfl
    | some found =>
      show Except.ok (tool found.1 (.text (resultText (renamed f found.2))) (renamed f extra)) = _
      rw [resultText_renamed]
      rfl
  | assistant =>
    have spoken : (renamed f content).filter (fun item => !item.isToolCall) =
        renamed f (content.filter fun item => !item.isToolCall) := by
      refine List.filter_map.trans (congrArg _ (List.filter_congr fun c _ => ?_))
      exact congrArg not (Content.isToolCall_renamed c)
    have calls : (renamed f content).filterMap callOf? = content.filterMap callOf? :=
      List.filterMap_map.trans (congrArg (List.filterMap · content) (funext callOf?_renamed))
    unfold ofMessage
    dsimp only
    rw [spoken, calls, partsOf_renamed textPart?_renamed]
    cases partsOf .assistant textPart? (content.filter fun item => !item.isToolCall) <;> rfl

end Chat

/-- **Messages that differ in identities alone have one form.** -/
theorem Format.encodeMessage_renamed (format : Format) (m : Message) :
    format.encodeMessage (renamed f m) = format.encodeMessage m := by
  cases format with
  | canonical => exact congrArg Except.ok m.toJson_renamed
  | chat =>
    show (Chat.Entry.ofMessage (renamed f m)).map Chat.Entry.toJson = (Chat.Entry.ofMessage m).map Chat.Entry.toJson
    rw [Chat.Entry.ofMessage_renamed]
    cases Chat.Entry.ofMessage m with
    | error fault => rfl
    | ok entry => exact congrArg Except.ok entry.toJson_withIdentities

end PromptScript

/-! ## Steps with other identities

Passes look at the identities of built-in members only to tell members apart, and so do the steps of a chain: two
chains that differ in identities alone give the same results, and go on to chains that differ so. -/
namespace PromptScript

variable {σ : Type} {bound : Nat}

/-- Two worlds that differ in the identities to be given. -/
structure World.Moved (r : Renaming σ bound) (w v : World σ) : Prop where
  host : w.host = r.home
  host' : v.host = r.home
  later : ∀ i, r.map (w.fresh + i) = v.fresh + i
  known : bound ≤ w.fresh

theorem Machine.Moved.world {r : Renaming σ bound} {m n : Machine σ} (h : m.Moved r n) :
    m.toWorld.Moved r n.toWorld := ⟨h.host, h.host', h.later, h.known⟩

theorem World.Moved.machine {r : Renaming σ bound} {w v : World σ} (h : w.Moved r v) {scope : Scope}
    (under : Under w.fresh scope) : (Machine.mk w scope).Moved r ⟨v, renamed r.map scope⟩ :=
  ⟨h.host, h.host', rfl, h.later, under, h.known⟩

/-! ### Passes -/

namespace Node

mutual

/-- Marks hold no literals of the document. -/
theorem literals_cleared : ∀ n : Node, n.cleared.literals = n.literals
  | text .. | comment .. | config .. | interpolation .. => rfl
  | choice _ _ body none _ => by rw [cleared, literals, literals, literalsOfAll_clearedAll body]
  | choice _ _ body (some other) _ => by
    rw [cleared, literals, literals, literalsOfAll_clearedAll body, literalsOfAll_clearedAll other]
  | loop _ _ _ _ body none _ => by rw [cleared, literals, literals, literalsOfAll_clearedAll body]
  | loop _ _ _ _ body (some other) _ => by
    rw [cleared, literals, literals, literalsOfAll_clearedAll body, literalsOfAll_clearedAll other]
  | element _ _ _ body _ => by rw [cleared, literals, literals, literalsOfAll_clearedAll body]
  | group _ body _ => by rw [cleared, literals, literals, literalsOfAll_clearedAll body]

theorem literalsOfAll_clearedAll : ∀ nodes : List Node, literalsOfAll (clearedAll nodes) = literalsOfAll nodes
  | [] => rfl
  | n :: r => by rw [clearedAll, literalsOfAll, literalsOfAll, literals_cleared n, literalsOfAll_clearedAll r]

end

end Node

namespace Document

/-- Documents that differ in marks alone have the same literals. -/
theorem literals_of_cleared {d d' : Document} (same : Node.clearedAll d'.body = Node.clearedAll d.body) :
    d'.literals = d.literals := by
  unfold literals
  rw [← Node.literalsOfAll_clearedAll d'.body, same, Node.literalsOfAll_clearedAll]

instance : Renamable Document := ⟨fun f d => ⟨d.span, renamed f d.body, renamed f d.progress⟩⟩

theorem under_iff {d : Document} : Under bound d ↔ Under bound d.body ∧ Under bound d.progress := by
  constructor
  · intro h
    exact ⟨fun g one fixed => congrArg Document.body (h g one fixed),
      fun g one fixed => congrArg Document.progress (h g one fixed)⟩
  · intro ⟨body, progress⟩ g one fixed
    show Document.mk _ (renamed g _) (renamed g _) = _
    rw [body g one fixed, progress g one fixed]

variable {host : Host σ} {r : Renaming σ bound} {low : Nat} (options : Options)

theorem alike_visit (stateless : host.Stateless bound) {d : Document} (bare : ∀ v ∈ d.literals, Expr.Bare v)
    (under : Under low d) :
    Pass.Alike r low (d.visit (Expr.eval host) options) ((renamed r.map d).visit (Expr.eval host) options) := by
  obtain ⟨span, body, progress⟩ := d
  obtain ⟨underBody, underMarks⟩ := under_iff.mp under
  show Pass.Alike r low _ (visit _ _ ⟨span, renamed r.map body, renamed r.map progress⟩)
  unfold visit
  dsimp only
  have marks : (renamed r.map progress).getD ({} : Progress) = renamed r.map (progress.getD {}) := by
    cases progress <;> rfl
  have underMarks : Under low (progress.getD ({} : Progress)) := by
    cases progress with
    | none => exact fun _ _ _ => rfl
    | some p => exact under_some.mp underMarks
  rw [marks]
  generalize progress.getD ({} : Progress) = p at underMarks ⊢
  have inside := Pass.alike_walkAll r options stateless {} false body bare low underBody
  refine (Pass.Alike.inView inside).bind fun more le left there => ?_
  refine (Pass.alike_flushContent r options).bind fun last le' _ _ => ?_
  obtain ⟨⟨body, table⟩, flow⟩ := left
  replace there := ((under_mk.mp (under_mk.mp there).1).1).mono le'
  have gone : ∀ q : Progress, q.memo = p.memo → q.stash = p.stash → Under last q := fun q memo stash =>
    under_progress.mpr ⟨memo ▸ (under_progress.mp underMarks).1.mono (Nat.le_trans le le'),
      stash ▸ (under_progress.mp underMarks).2.mono (Nat.le_trans le le')⟩
  cases flow with
  | stops =>
    exact .pure rfl (under_mk.mpr ⟨under_iff.mpr ⟨there, under_some.mpr (gone _ rfl rfl)⟩, fun _ _ _ => rfl⟩)
  | goesOn =>
    exact .pure rfl (under_mk.mpr ⟨under_iff.mpr ⟨there, under_some.mpr (gone _ rfl rfl)⟩, fun _ _ _ => rfl⟩)

/-- What a pass gives in a second run: the same but for identities, all of which are given. -/
structure Follows (r : Renaming σ bound) (fresh : Nat) (o q : Outcome) : Prop where
  messages : q.messages = renamed r.map o.messages
  completed : q.completed = o.completed
  globalConfig : q.globalConfig = o.globalConfig
  stepConfig : q.stepConfig = o.stepConfig
  document : q.document = renamed r.map o.document
  stash : q.stash = renamed r.map o.stash
  underDocument : Under fresh o.document
  underStash : Under fresh o.stash

/-- **Passes look at identities only to tell members apart.** -/
theorem alike_pass (stateless : host.Stateless bound) {d : Document} (bare : ∀ v ∈ d.literals, Expr.Bare v)
    {m n : Machine σ} (moved : m.Moved r n) (under : Under m.fresh d) (response : Option (List Content)) :
    Meet (fun m' n' => m.fresh ≤ m'.fresh ∧ m'.toWorld.Moved r n'.toWorld)
      (fun o q m' n' => m.fresh ≤ m'.fresh ∧ m'.toWorld.Moved r n'.toWorld ∧ Follows r m'.fresh o q)
      (d.pass (Expr.eval host) options response m) ((renamed r.map d).pass (Expr.eval host) options response n) := by
  have begins : PassState.Moved r ⟨m, #[], [], [], response, none, none⟩ ⟨n, #[], [], [], response, none, none⟩ :=
    ⟨moved, Array.map_empty.symm, rfl, rfl, rfl, rfl, rfl, fun _ _ _ => Array.map_empty, under_nil⟩
  have here := alike_visit options stateless bare under _ _ ⟨Nat.le_refl _, begins⟩
  unfold pass
  generalize (d.visit (Expr.eval host) options).run.run _ = x at here ⊢
  generalize ((renamed r.map d).visit (Expr.eval host) options).run.run _ = y at here ⊢
  cases here with
  | error h => exact .error ⟨h.1, h.2.machine.world⟩
  | @ok a b s t h =>
    obtain ⟨⟨le, moved⟩, rfl, underDocument⟩ := h
    obtain ⟨document, flow⟩ := a
    refine .ok ⟨le, moved.machine.world, ?_, rfl, moved.globalConfig, moved.stepConfig, rfl, ?_,
      (under_mk.mp underDocument).1, ?_⟩
    · show t.messages.toList = s.messages.toList.map (renamed r.map)
      rw [moved.messages]
      exact Array.toList_map
    · show t.machine.scope.stash = _
      rw [moved.machine.scope]
      rfl
    · exact moved.machine.under.of_natural (k := Scope.stash) fun _ _ => rfl

end Document

/-! ### Steps -/

namespace Chain

variable {host : Host σ} {r : Renaming σ bound}

/-- Two chains that differ in identities alone, all of which are given. Their histories have one form. -/
structure Moved (r : Renaming σ bound) (fresh : Nat) (chain other : Chain) : Prop where
  document : other.document = renamed r.map chain.document
  scope : other.scope = renamed r.map chain.scope
  underDocument : Under fresh chain.document
  underScope : Under fresh chain.scope
  bare : ∀ v ∈ chain.document.literals, Expr.Bare v
  history : other.history.map chain.format.encodeMessage = chain.history.map chain.format.encodeMessage
  source : other.source = chain.source
  options : other.options = chain.options
  format : other.format = chain.format
  started : other.started = chain.started
  completed : other.completed = chain.completed
  config : other.config = chain.config
  isolated : other.isolated = chain.isolated

theorem Moved.answer? {fresh : Nat} {chain other : Chain} (moved : Moved r fresh chain other)
    (response : Option Response) : other.answer? response = chain.answer? response := by
  unfold Chain.answer? answerOf decoded
  rw [moved.format]

theorem Moved.checkTurn {fresh : Nat} {chain other : Chain} (moved : Moved r fresh chain other)
    (response : Option Response) : other.checkTurn response = chain.checkTurn response := by
  unfold Chain.checkTurn
  rw [moved.completed, moved.started]

/-- What a step gives in a second run: the same fault, or the same result and a chain that differs in identities. -/
inductive Follows (r : Renaming σ bound) (fresh : Nat) :
    Except ChainFault (Chain × StepResult) → Except ChainFault (Chain × StepResult) → Prop
  | error (fault : ChainFault) : Follows r fresh (.error fault) (.error fault)
  | ok {chain other : Chain} (moved : Moved r fresh chain other) (result : StepResult) :
    Follows r fresh (.ok (chain, result)) (.ok (other, result))

theorem alike_advance {fresh : Nat} {chain other : Chain} {o q : Outcome} (moved : Moved r fresh chain other)
    (answer : Option Answer) (follows : Document.Follows r fresh o q)
    (kept : Node.clearedAll o.document.body = Node.clearedAll chain.document.body) :
    Follows r fresh (chain.advance answer o) (other.advance answer q) := by
  have form : ∀ ms : List Message,
      (renamed r.map ms).map chain.format.encodeMessage = ms.map chain.format.encodeMessage := fun ms =>
    List.map_map.trans (List.map_congr_left fun m _ => chain.format.encodeMessage_renamed m)
  have empty : (renamed r.map o.messages).isEmpty = o.messages.isEmpty := by cases o.messages <;> rfl
  have told : ∀ (flag : Bool) (ms : List Message),
      (if flag then renamed r.map o.messages else other.history ++ ms ++ renamed r.map o.messages).map
          chain.format.encodeMessage =
        (if flag then o.messages else chain.history ++ ms ++ o.messages).map chain.format.encodeMessage := by
    intro flag ms
    cases flag <;> simp only [Bool.false_eq_true, ↓reduceIte, List.map_append, moved.history, form]
  have encode : ∀ (config : Config) (sent sent' : List Message),
      sent'.map chain.format.encodeMessage = sent.map chain.format.encodeMessage →
      chain.format.encode ⟨config, sent'⟩ = chain.format.encode ⟨config, sent⟩ := fun _ _ _ => encode_congr
  unfold advance
  rw [follows.globalConfig, follows.stepConfig, follows.messages, follows.completed, moved.config, moved.format,
    moved.isolated, empty]
  dsimp only
  generalize Fields.merge ((o.globalConfig.or chain.config).getD []) (o.stepConfig.getD []) = config
  generalize (if chain.isolated then [] else (answer.map Answer.messages).getD []) = answered
  rw [encode config _ _ (told (isIsolated config) answered)]
  cases chain.format.encode ⟨config, _⟩ with
  | error fault => exact .error _
  | ok exchange =>
    refine .ok ?_ _
    exact
      { document := follows.document
        scope := congrArg₂ Scope.mk follows.stash (by rw [moved.scope]; rfl)
        underDocument := follows.underDocument
        underScope := follows.underStash.of_natural (k := fun stash => Scope.mk stash chain.scope.pointers) fun _ _ => rfl
        bare := by
          show ∀ v ∈ o.document.literals, _
          rw [Document.literals_of_cleared kept]
          exact moved.bare
        history := by
          show (if isIsolated config then other.history ++ answered
              else other.history ++ answered ++ renamed r.map o.messages).map chain.format.encodeMessage =
            (if isIsolated config then chain.history ++ answered
              else chain.history ++ answered ++ o.messages).map chain.format.encodeMessage
          split <;> simp only [List.map_append, moved.history, form]
        source := moved.source
        options := moved.options
        format := rfl
        started := rfl
        completed := rfl
        config := rfl
        isolated := rfl }

/-- **A step looks at identities only to tell members apart.** -/
theorem alike_step (stateless : host.Stateless bound) {chain other : Chain} {w v : World σ} (worlds : w.Moved r v)
    (moved : Moved r w.fresh chain other) (response : Option Response) :
    Follows r (chain.step (Expr.eval host) response w).2.fresh (chain.step (Expr.eval host) response w).1
        (other.step (Expr.eval host) response v).1 ∧
      (chain.step (Expr.eval host) response w).2.Moved r (other.step (Expr.eval host) response v).2 ∧
      w.fresh ≤ (chain.step (Expr.eval host) response w).2.fresh := by
  unfold step
  rw [moved.checkTurn, moved.answer?]
  cases chain.checkTurn response >>= fun _ => chain.answer? response with
  | error fault => exact ⟨.error fault, worlds, Nat.le_refl _⟩
  | ok answer =>
    dsimp only
    have machines : (Machine.mk w chain.scope).Moved r ⟨v, other.scope⟩ := moved.scope ▸ worlds.machine moved.underScope
    have here := Document.alike_pass chain.options stateless moved.bare machines moved.underDocument
      (answer.map Answer.content)
    rw [moved.document, moved.options, moved.source]
    generalize passed : chain.document.pass (Expr.eval host) chain.options (answer.map Answer.content) ⟨w, chain.scope⟩ = x
      at here ⊢
    generalize (renamed r.map chain.document).pass (Expr.eval host) chain.options (answer.map Answer.content)
      ⟨v, other.scope⟩ = y at here ⊢
    cases here with
    | error h => exact ⟨.error _, h.2, h.1⟩
    | ok h =>
      obtain ⟨le, after, follows⟩ := h
      exact ⟨alike_advance { moved with
        underDocument := moved.underDocument.mono le, underScope := moved.underScope.mono le } answer follows
        (Document.marks_pass passed), after, le⟩

end Chain
end PromptScript
