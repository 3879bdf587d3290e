import PromptScript.Proofs.Remembered

/-! # What passes gather

A pass makes items and messages of a few kinds only, from the attributes of tags. A property that all of these have is
one of everything that a pass gathers. -/
namespace PromptScript

variable {σ : Type}

/-- Everything gathered so far is as it should be: the items that wait, and the messages. -/
structure PassState.Gathered (item : Content → Prop) (whole : Message → Prop) (s : PassState σ) : Prop where
  pending : ∀ e ∈ s.pending, item e.1
  messages : ∀ m ∈ s.messages.toList, whole m

/-- What a tag is, by its name or else by an attribute of it, which it does not keep then. -/
def Pass.Decides {α : Type} (name : String) (ofName? : String → Option α) (given : Option α) (values : Attributes)
    (found : α) (left : Attributes) : Prop :=
  given = some found ∧ left = values ∨
    given = none ∧ (∃ v, Fields.get? name values = some v ∧ ofName? v.toText = some found) ∧ left = Fields.erase name values

/-- The items that a content tag of a kind makes, with the attributes that are left of its own. -/
inductive Pass.Forms (options : Options) : ContentKind → Attributes → Content → Prop where
  | text (p : Paragraph) (a : Attributes) : Forms options .text a (textOf options p a)
  | image (url : String) (a : Attributes) : Forms options .image a (.image url a)
  | file (url mimeType : String) (a : Attributes) : Forms options .file a (.file url mimeType (Fields.erase "mime" a))
  | toolCall (id name : String) (arguments : Value) (a : Attributes) : Forms options .toolCall a
      (.toolCall id name arguments (Fields.erase "arguments" (Fields.erase "name" (Fields.erase "id" a))))

/-- Items of which a message of a role may be made: only the assistant asks for tools. -/
def Pass.Admits (role : Role) (items : List Content) : Prop := role = .assistant ∨ ∀ c ∈ items, c.isToolCall = false

/-- Properties of all items and of all messages that passes make of attributes of which something is known. Messages are
made of such items. -/
structure Pass.Makes (options : Options) (finding : Finding) (item : Content → Prop) (whole : Message → Prop) :
    Prop where
  /-- Of text between tags. -/
  text : ∀ p, item (textOf options p [])
  /-- Of attachments. -/
  image : ∀ url, item (.image url [])
  file : ∀ url mimeType, item (.file url mimeType [])
  content : ∀ {kind attributes values kind' left c}, finding (.content kind) attributes values →
    Decides "type" ContentKind.ofName? kind values kind' left → Forms options kind' left c → item c
  /-- Without a tag of its own. -/
  plain : ∀ {items : List Content}, Admits options.defaultRole items → (∀ c ∈ items, item c) →
    whole ⟨options.defaultRole, items, []⟩
  message : ∀ {role attributes values role' left} {items : List Content}, finding (.message role) attributes values →
    Decides "role" Role.ofName? role values role' left → role' ≠ .tool → Admits role' items → (∀ c ∈ items, item c) →
    whole ⟨role', items, left⟩
  answer : ∀ {role attributes values left id name} {items : List Content}, finding (.message role) attributes values →
    Decides "role" Role.ofName? role values .tool left → Fields.get? "id" left = some id →
    Fields.get? "name" left = some name → (∀ c ∈ items, item c) →
    whole ⟨.tool, [.toolResult id.toText name.toText (Value.ofJson (.arr (items.map Content.toJson))) none []],
      Fields.erase "name" (Fields.erase "id" left)⟩

/-- A property of all items that passes make. The answer of a tool is made of other items. -/
structure Content.Made (options : Options) (good : Content → Prop) : Prop where
  text : ∀ p a, good (Pass.textOf options p a)
  image : ∀ url a, good (.image url a)
  file : ∀ url mimeType a, good (.file url mimeType a)
  toolCall : ∀ id name arguments a, good (.toolCall id name arguments a)
  toolResult : ∀ id name (items : List Content), (∀ c ∈ items, good c) →
    good (.toolResult id name (Value.ofJson (.arr (items.map Content.toJson))) none [])

/-- It is one of everything in messages. -/
theorem Content.Made.makes {options : Options} {good : Content → Prop} (made : Made options good) :
    Pass.Makes options (fun _ _ _ => True) good fun m => ∀ c ∈ m.content, good c where
  text p := made.text p []
  image url := made.image url []
  file url mimeType := made.file url mimeType []
  content _ _ forms := by
    cases forms with
    | text p => exact made.text p _
    | image url => exact made.image url _
    | file url mimeType => exact made.file url mimeType _
    | toolCall id name arguments => exact made.toolCall id name arguments _
  plain _ all := all
  message _ _ _ _ all := all
  answer _ _ _ _ all := List.forall_mem_singleton.mpr (made.toolResult _ _ _ all)

namespace Pass

variable {α β : Type}

/-- A part after which everything gathered is as it should be if it was before. -/
def Keeps (item : Content → Prop) (whole : Message → Prop) (part : Pass σ α) : Prop :=
  ∀ s a t, s.Gathered item whole → Runs part s a t → t.Gathered item whole

variable {item : Content → Prop} {whole : Message → Prop}

theorem Still.keeps {part : Pass σ α} (h : Still part) : Keeps item whole part := by
  intro s a t fine ran
  obtain ⟨rfl, -⟩ := h.runs ran
  exact fine

theorem keeps_pure (a : α) : Keeps item whole (pure a : Pass σ α) := (still_pure a).keeps

theorem Keeps.bind {part : Pass σ α} {f : α → Pass σ β} (first : Keeps item whole part) (rest : ∀ a, Keeps item whole (f a)) :
    Keeps item whole (part >>= f) := by
  intro s b t fine ran
  obtain ⟨a, s', ran, last⟩ := runs_bind.mp ran
  exact rest a s' b t (first s a s' fine ran) last

/-- What follows a part may make use of what is known of its value. -/
theorem Keeps.knowing {part : Pass σ α} {f : α → Pass σ β} {known : α → Prop} (first : Keeps item whole part)
    (yields : Yields known part) (rest : ∀ a, known a → Keeps item whole (f a)) : Keeps item whole (part >>= f) := by
  intro s b t fine ran
  obtain ⟨a, s', ran, last⟩ := runs_bind.mp ran
  exact rest a (yields s a s' ran) s' b t (first s a s' fine ran) last

theorem keeps_modify {g : PassState σ → PassState σ} (h : ∀ s, s.Gathered item whole → (g s).Gathered item whole) :
    Keeps item whole (modify g : Pass σ Unit) := by
  intro s _ t fine ran
  obtain ⟨-, rfl⟩ := Prod.mk.inj ran
  exact h s fine

section Flow

variable {part : Pass σ (α × Flow)}

theorem Keeps.into {f : α → Flow → β} (h : Keeps item whole part) : Keeps item whole (into f part) :=
  h.bind fun _ => keeps_pure _

theorem Keeps.goingOn {left : α → β} {rest : α → Pass σ (β × Flow)} (first : Keeps item whole part)
    (last : ∀ a, Keeps item whole (rest a)) : Keeps item whole (goingOn part left rest) := by
  refine first.bind fun (a, flow) => ?_
  cases flow with
  | stops => exact keeps_pure _
  | goesOn => exact last a

theorem Keeps.closing {close : Pass σ Unit} (first : Keeps item whole part) (last : Keeps item whole close) :
    Keeps item whole (closing part close) :=
  first.goingOn fun _ => last.bind fun _ => keeps_pure _

theorem Keeps.inView {table : Option Pointers} (h : Keeps item whole part) : Keeps item whole (inView table part) := by
  rintro s ⟨⟨a, inner⟩, flow⟩ t fine ran
  obtain ⟨t', inside, rfl, rfl⟩ := runs_inView.mp ran
  obtain ⟨pending, messages⟩ := h (s.withTable (table.getD s.table)) _ _ ⟨fine.pending, fine.messages⟩ inside
  exact ⟨pending, messages⟩

theorem Keeps.inScope {scope : Scope} (h : Keeps item whole part) : Keeps item whole (inScope scope part) := by
  rintro s ⟨⟨a, inner⟩, flow⟩ t fine ran
  obtain ⟨t', inside, rfl, rfl⟩ := runs_inScope.mp ran
  obtain ⟨pending, messages⟩ := h (s.withScope scope) _ _ ⟨fine.pending, fine.messages⟩ inside
  exact ⟨pending, messages⟩

end Flow

/-! ## Parts that gather nothing -/

variable (eval : Evaluator σ) (options : Options)

theorem keeps_evaluate (e : Expr) : Keeps item whole (evaluate eval e) := by
  intro s a t fine ran
  unfold Runs at ran
  rw [result_evaluate] at ran
  obtain ⟨-, rfl⟩ := Prod.mk.inj ran
  exact ⟨fine.pending, fine.messages⟩

theorem keeps_modifyScope (change : Scope → Scope) : Keeps item whole (modifyScope change : Pass σ Unit) :=
  keeps_modify fun _ fine => ⟨fine.pending, fine.messages⟩

theorem keeps_addSegment (segment : Segment) : Keeps item whole (addSegment segment : Pass σ Unit) :=
  keeps_modify fun _ fine => ⟨fine.pending, fine.messages⟩

theorem keeps_takeParagraph : Keeps item whole (takeParagraph : Pass σ (Option Paragraph)) := by
  intro s p t fine ran
  obtain ⟨-, rfl⟩ := Prod.mk.inj ran
  exact ⟨fine.pending, fine.messages⟩

theorem keeps_takeResponse : Keeps item whole (takeResponse : Pass σ (Option (List Content))) := by
  intro s p t fine ran
  obtain ⟨-, rfl⟩ := Prod.mk.inj ran
  exact ⟨fine.pending, fine.messages⟩

theorem keeps_leaveSettings (head : StepHead) : Keeps item whole (leaveSettings head : Pass σ Unit) :=
  keeps_modify fun _ fine => ⟨fine.pending, fine.messages⟩

theorem keeps_meetHeader (span : Span) (data : String) : Keeps item whole (meetHeader span data : Pass σ Unit) := by
  unfold meetHeader
  split
  · exact (still_fail _ _).keeps
  · exact keeps_modify fun _ fine => ⟨fine.pending, fine.messages⟩

theorem keeps_attributeParts (parts : List Node) : Keeps item whole (attributeParts eval parts) := by
  fun_induction attributeParts eval parts with
  | case1 => exact keeps_pure _
  | case2 _ _ _ _ ih => exact ih.bind fun _ => keeps_pure _
  | case3 _ e _ _ ih =>
    refine (keeps_evaluate eval e).bind fun v => ?_
    split
    · exact ih
    · exact ih.bind fun _ => keeps_pure _
  | case4 _ _ _ _ ih => exact ih

theorem keeps_attributeValues (attributes : List Attribute) (acc : Attributes) :
    Keeps item whole (attributeValues eval attributes acc) := by
  fun_induction attributeValues eval attributes acc with
  | case1 => exact keeps_pure _
  | case2 _ _ _ _ ih => exact ih
  | case3 _ _ parts _ _ ih ih' ih'' =>
    refine (keeps_attributeParts eval parts).bind fun vs => ?_
    split
    · exact ih
    · exact ih' _
    · exact ih'' _

theorem keeps_rememberedAttributes (p : Progress) (attributes : List Attribute) :
    Keeps item whole (rememberedAttributes eval p attributes) := by
  unfold rememberedAttributes
  split
  · exact keeps_pure _
  · exact keeps_attributeValues eval _ _

theorem keeps_remembered (p : Progress) (e : Expr) : Keeps item whole (remembered p (evaluate eval e)) := by
  unfold remembered
  split
  · exact keeps_pure _
  · exact keeps_evaluate eval e

theorem keeps_closeStep (span : Span) (head : StepHead) (response : List Content) :
    Keeps item whole (closeStep span head response : Pass σ Unit) := by
  rintro s ⟨⟩ t fine ran
  obtain ⟨scope, rfl⟩ := closeStep_withScope ran
  exact ⟨fine.pending, fine.messages⟩

theorem keeps_declareItem (entry : Binding) (index : Option Binding) (v : Value) (n : Nat) :
    Keeps item whole (declareItem entry index v n : Pass σ Unit) := by
  refine (keeps_modifyScope _).bind fun _ => ?_
  cases index with
  | none => exact keeps_pure _
  | some index => exact keeps_modifyScope _

/-! ## Content and messages -/

theorem keeps_addContent {content : Content} (span : Span) (h : item content) :
    Keeps item whole (addContent content span : Pass σ Unit) :=
  keeps_modify fun _ fine => ⟨by
    intro e there
    rcases List.mem_append.mp there with before | last
    · exact fine.pending e before
    · rw [List.mem_singleton.mp last]
      exact h, fine.messages⟩

theorem keeps_addMessage {m : Message} (h : whole m) : Keeps item whole (addMessage m : Pass σ Unit) :=
  keeps_modify fun s fine => ⟨fine.pending, by
    intro m' there
    rw [Array.toList_push] at there
    rcases List.mem_append.mp there with before | last
    · exact fine.messages m' before
    · rw [List.mem_singleton.mp last]
      exact h⟩

/-- A message of content has that content, which the role admits. -/
theorem eq_of_messageOf {role : Role} {content : List (Content × Span)} {span : Span} {s t : PassState σ}
    {m : Message} (ran : Runs (messageOf role content span) s m t) :
    m = ⟨role, content.map Prod.fst, []⟩ ∧ Admits role (content.map Prod.fst) := by
  unfold messageOf at ran
  split at ran
  · split at ran
    · next assistant => exact ⟨(runs_pure.mp ran).1.symm, .inl assistant⟩
    · cases ran
  · next none =>
    refine ⟨(runs_pure.mp ran).1.symm, .inr fun c there => ?_⟩
    obtain ⟨e, waits, rfl⟩ := List.mem_map.mp there
    exact Bool.eq_false_iff.mpr (List.find?_eq_none.mp none e waits)

/-- What is needed is there. -/
theorem eq_of_need {v : Option α} {defect : Defect} {span : Span} {a : α} {s t : PassState σ}
    (ran : Runs (need v defect span) s a t) : v = some a := by
  cases v with
  | none => cases ran
  | some b => exact congrArg some (runs_pure.mp ran).1

/-- The kind of a content tag is decided. -/
theorem decides_of_openContent {around : Surroundings} {span : Span} {kind : Option ContentKind} {values left : Attributes}
    {kind' : ContentKind} {s t : PassState σ} (ran : Runs (openContent around span kind values) s (kind', left) t) :
    Decides "type" ContentKind.ofName? kind values kind' left := by
  have named : Runs (kindOf span kind values) s (kind', left) t := by
    unfold openContent at ran
    split at ran
    · cases ran
    · exact ran
  cases kind with
  | some kind =>
    cases (runs_pure.mp named).1
    exact .inl ⟨rfl, rfl⟩
  | none =>
    obtain ⟨v, s₁, given, rest⟩ := runs_bind.mp named
    obtain ⟨kind, s₂, known, last⟩ := runs_bind.mp rest
    cases (runs_pure.mp last).1
    exact .inr ⟨rfl, ⟨v, eq_of_need given, eq_of_need known⟩, rfl⟩

/-- The role of a message tag is decided. -/
theorem decides_of_roleOf {span : Span} {role : Option Role} {values left : Attributes} {role' : Role} {s t : PassState σ}
    (ran : Runs (roleOf span role values) s (role', left) t) : Decides "role" Role.ofName? role values role' left := by
  cases role with
  | some role =>
    cases (runs_pure.mp ran).1
    exact .inl ⟨rfl, rfl⟩
  | none =>
    obtain ⟨v, s₁, given, rest⟩ := runs_bind.mp ran
    obtain ⟨role, s₂, known, last⟩ := runs_bind.mp rest
    cases (runs_pure.mp last).1
    exact .inr ⟨rfl, ⟨v, eq_of_need given, eq_of_need known⟩, rfl⟩

theorem decides_of_openMessage {around : Surroundings} {span : Span} {role : Option Role} {values left : Attributes}
    {role' : Role} {s t : PassState σ} (ran : Runs (openMessage options around span role values) s (role', left) t) :
    Decides "role" Role.ofName? role values role' left := by
  unfold openMessage at ran
  split at ran
  · cases ran
  · obtain ⟨-, s₁, -, named⟩ := runs_bind.mp ran
    exact decides_of_roleOf named

/-- The item of a content tag is formed of its attributes. -/
theorem forms_of_itemOf {span : Span} {kind : ContentKind} {text : Option Paragraph} {attributes : Attributes}
    {c : Content} {s t : PassState σ} (ran : Runs (itemOf options span kind text attributes) s (some c) t) :
    Forms options kind attributes c := by
  cases kind with
  | text =>
    obtain ⟨same, -⟩ := runs_pure.mp ran
    obtain ⟨p, -, rfl⟩ := Option.map_eq_some_iff.mp same
    exact .text _ _
  | image =>
    obtain ⟨p, s₁, -, last⟩ := runs_bind.mp ran
    obtain ⟨same, -⟩ := runs_pure.mp last
    obtain rfl := Option.some.inj same
    exact .image _ _
  | file =>
    obtain ⟨p, s₁, -, rest⟩ := runs_bind.mp ran
    obtain ⟨mimeType, s₂, -, last⟩ := runs_bind.mp rest
    obtain ⟨same, -⟩ := runs_pure.mp last
    obtain rfl := Option.some.inj same
    exact .file _ _ _
  | toolCall =>
    obtain ⟨id, s₁, -, rest⟩ := runs_bind.mp ran
    obtain ⟨name, s₂, -, rest⟩ := runs_bind.mp rest
    obtain ⟨arguments, s₃, -, last⟩ := runs_bind.mp rest
    obtain ⟨same, -⟩ := runs_pure.mp last
    obtain rfl := Option.some.inj same
    exact .toolCall _ _ _ _

section Makes

variable {options} {finding : Finding} (makes : Makes options finding item whole)
include makes

theorem keeps_flushPassage : Keeps item whole (flushPassage options : Pass σ Unit) := by
  refine keeps_takeParagraph.bind fun p => ?_
  cases p with
  | none => exact keeps_pure _
  | some p => exact keeps_addContent _ (makes.text _)

/-- What is taken was gathered. -/
theorem items_of_takeContent {s t : PassState σ} {content : List (Content × Span)} (fine : s.Gathered item whole)
    (ran : Runs (takeContent options) s content t) : t.Gathered item whole ∧ ∀ c ∈ content.map Prod.fst, item c := by
  obtain ⟨⟨⟩, s', flushed, taken⟩ := runs_bind.mp ran
  have fine' := keeps_flushPassage makes s () s' fine flushed
  obtain ⟨value, rfl⟩ := Prod.mk.inj taken
  obtain rfl : s'.pending = content := Except.ok.inj value
  refine ⟨⟨fun _ none => absurd none List.not_mem_nil, fine'.messages⟩, fun c there => ?_⟩
  obtain ⟨e, waits, rfl⟩ := List.mem_map.mp there
  exact fine'.pending e waits

theorem keeps_flushContent : Keeps item whole (flushContent options : Pass σ Unit) := by
  rintro s ⟨⟩ t fine ran
  obtain ⟨content, s', taken, rest⟩ := runs_bind.mp ran
  obtain ⟨fine', all⟩ := items_of_takeContent makes fine taken
  cases content with
  | nil => exact keeps_pure () s' () t fine' rest
  | cons c content =>
    obtain ⟨m, s₂, formed, added⟩ := runs_bind.mp rest
    obtain ⟨rfl, -⟩ := (still_messageOf _ _ _).runs formed
    refine keeps_addMessage ?_ s₂ () t fine' added
    obtain ⟨rfl, admits⟩ := eq_of_messageOf formed
    exact makes.plain admits all

theorem keeps_putValue (around : Surroundings) (span : Span) (name : Option String) (v : Value) :
    Keeps item whole (putValue options around span name v : Pass σ Unit) := by
  have adds : ∀ files : List Attachment,
      Keeps item whole (files.forM fun file => addContent file.toContent span : Pass σ PUnit) := by
    intro files
    induction files with
    | nil => exact keeps_pure _
    | cons file files ih =>
      refine (keeps_addContent _ ?_).bind fun _ => ih
      unfold Attachment.toContent
      split
      · exact makes.image _
      · exact makes.file _ _
  unfold putValue
  split
  · exact keeps_addSegment _
  · split
    · split
      · exact keeps_addSegment _
      · exact (still_fail _ _).keeps
    · exact (keeps_flushPassage makes).bind fun _ => adds _

theorem keeps_interpolate (around : Surroundings) (span : Span) (e : Expr) :
    Keeps item whole (interpolate eval options around span e) := by
  refine (keeps_evaluate eval e).bind fun v => ?_
  split
  · exact keeps_pure _
  · split
    · exact keeps_pure _
    · exact keeps_putValue makes _ _ _ _

/-! ### Messages -/

variable {role : Option Role} {attributes : List Attribute} {values : Attributes}
  (found : finding (.message role) attributes values)
include found

theorem keeps_closeMessage (span : Span) {role' : Role} {left : Attributes} (decides : Decides "role" Role.ofName? role values role' left) :
    Keeps item whole (closeMessage options span role' left : Pass σ Unit) := by
  rintro s ⟨⟩ t fine ran
  obtain ⟨content, s₁, taken, formed⟩ := runs_bind.mp ran
  obtain ⟨fine', all⟩ := items_of_takeContent makes fine taken
  obtain ⟨m, s₂, formed, added⟩ := runs_bind.mp formed
  obtain ⟨rfl, -⟩ := (still_messageOf _ _ _).runs formed
  obtain ⟨rfl, admits⟩ := eq_of_messageOf formed
  by_cases tool : role' = .tool
  · subst tool
    rw [if_pos rfl] at added
    obtain ⟨m', s₃, answered, last⟩ := runs_bind.mp added
    obtain ⟨rfl, -⟩ := (still_toolAnswer _ _ _).runs answered
    obtain ⟨id, s₄, identified, rest⟩ := runs_bind.mp answered
    obtain ⟨name, s₅, named, made⟩ := runs_bind.mp rest
    obtain ⟨rfl, -⟩ := runs_pure.mp made
    exact keeps_addMessage (makes.answer found decides (eq_of_need identified) (eq_of_need named) all) _ () t fine' last
  · rw [if_neg tool] at added
    exact keeps_addMessage (makes.message found decides tool admits all) _ () t fine' added

theorem keeps_message (around : Surroundings) (span : Span) {body : Pass σ (α × Flow)} (h : Keeps item whole body) :
    Keeps item whole (message options around span role values body) := by
  have opened : Yields (fun r => Decides "role" Role.ofName? role values r.1 r.2)
      (openMessage options around span role values : Pass σ (Role × Attributes)) :=
    fun _ _ _ ran => decides_of_openMessage options ran
  refine .knowing ?_ opened fun r decides => h.closing (keeps_closeMessage makes found span decides)
  · have opens := (keeps_flushContent (σ := σ) makes).bind fun _ => (still_roleOf span role values).keeps
    unfold openMessage
    split
    · exact (still_fail _ _).keeps.bind fun _ => opens
    · exact opens

end Makes

/-! ### Content -/

section Content

variable {options} {finding : Finding} (makes : Makes options finding item whole) {kind : Option ContentKind}
  {attributes : List Attribute} {values : Attributes} (found : finding (.content kind) attributes values)
include makes found

theorem keeps_closeContent (span : Span) {kind' : ContentKind} {left : Attributes}
    (decides : Decides "type" ContentKind.ofName? kind values kind' left) :
    Keeps item whole (closeContent options span kind' left : Pass σ Unit) := by
  rintro s ⟨⟩ t fine ran
  obtain ⟨p, s₁, taken, rest⟩ := runs_bind.mp ran
  have fine' := keeps_takeParagraph s p s₁ fine taken
  obtain ⟨c, s₂, formed, added⟩ := runs_bind.mp rest
  obtain ⟨rfl, -⟩ := (still_itemOf _ _ _ _ _).runs formed
  cases c with
  | none => exact keeps_pure () s₂ () t fine' added
  | some c => exact keeps_addContent _ (makes.content found decides (forms_of_itemOf options formed)) s₂ () t fine' added

theorem keeps_content (around : Surroundings) (span : Span) {body : Pass σ (α × Flow)} (h : Keeps item whole body) :
    Keeps item whole (content options around span kind values body) := by
  have opened : Yields (fun r => Decides "type" ContentKind.ofName? kind values r.1 r.2)
      (openContent around span kind values : Pass σ (ContentKind × Attributes)) :=
    fun _ _ _ ran => decides_of_openContent ran
  exact .knowing (still_openContent around span kind values).keeps opened fun _ decides =>
    h.closing (keeps_closeContent makes found span decides)

end Content

/-! ## Whole passes -/

theorem keeps_step {options : Options} {finding : Finding} (makes : Makes options finding item whole)
    {body : Pass σ (α × Flow)} (h : Keeps item whole body) (around : Surroundings) (span : Span) (tags : List Attribute)
    (attributes : Attributes) : Keeps item whole (step options around span tags attributes body) := by
  refine (still_openStep around span tags attributes).keeps.bind fun head => keeps_takeResponse.bind fun response => ?_
  cases response with
  | none => exact h.bind fun _ => (keeps_leaveSettings _).bind fun _ => keeps_pure _
  | some response =>
    exact (keeps_closeStep _ _ _).bind fun _ => (keeps_flushContent makes).bind fun _ => keeps_pure _

theorem keeps_rounds {item' : Binding} {index : Option Binding} {again : Pass σ (List Node × Flow)}
    (h : Keeps item whole again) (vs : List Value) (n : Nat) (body : List Node) (round : Option Nat) :
    Keeps item whole (rounds item' index again vs n body round) := by
  induction vs generalizing n body round with
  | nil => exact keeps_pure _
  | cons v vs ih => exact (((keeps_declareItem _ _ _ _).bind fun _ => h).inView).goingOn fun _ => ih _ _ _

theorem keeps_roundsFrom {p : Progress} {item' : Binding} {index : Option Binding} {vs : List Value}
    {body : List Node} {resume again : Pass σ (List Node × Flow)} (h : Keeps item whole resume)
    (h' : Keeps item whole again) : Keeps item whole (roundsFrom p item' index vs body resume again) := by
  unfold roundsFrom
  dsimp only
  split
  · exact h.inView.goingOn fun _ => keeps_rounds h' _ _ _ _
  · exact keeps_rounds h' _ _ _ _

section Walk

variable {options : Options} {finding : Finding}

mutual

theorem keeps_walk (makes : Makes options finding item whole) (around : Surroundings)
    (anew : Bool) : ∀ n : Node, (∀ m ∈ n.met anew, m.Finds eval finding) →
      Keeps item whole (walk eval options around anew n)
  | .text .., _ => (keeps_addSegment _).bind fun _ => keeps_pure _
  | .comment .., _ => keeps_pure _
  | .config .., _ => (keeps_meetHeader _ _).bind fun _ => keeps_pure _
  | .interpolation .., _ => (keeps_interpolate eval makes _ _ _).bind fun _ => keeps_pure _
  | .group _ body _, finds => by
    unfold walk
    exact (keeps_walkAll makes around anew body finds).into
  | .choice _ test body none _, finds => by
    unfold walk
    refine (keeps_remembered eval _ test).bind fun holds => ?_
    dsimp only
    split
    · exact (keeps_walkAll makes around anew body finds).inView.into
    · exact keeps_pure _
  | .choice _ test body (some other) _, finds => by
    obtain ⟨first, second⟩ := List.forall_mem_append.mp finds
    unfold walk
    refine (keeps_remembered eval _ test).bind fun holds => ?_
    dsimp only
    split
    · exact (keeps_walkAll makes around anew body first).inView.into
    · exact (keeps_walkAll makes around anew other second).inView.into
  | .loop _ items _ _ body none _, finds => by
    obtain ⟨first, again⟩ := List.forall_mem_append.mp finds
    unfold walk
    refine (keeps_remembered eval _ items).bind fun v => (still_itemsOf _ _).keeps.bind fun _ => ?_
    exact (keeps_roundsFrom (keeps_walkAll makes around anew body first)
      (keeps_walkAll makes around true body again)).into
  | .loop _ items _ _ body (some other) _, finds => by
    obtain ⟨finds, second⟩ := List.forall_mem_append.mp finds
    obtain ⟨first, again⟩ := List.forall_mem_append.mp finds
    unfold walk
    refine (keeps_remembered eval _ items).bind fun v => (still_itemsOf _ _).keeps.bind fun vs => ?_
    split
    · exact (keeps_walkAll makes around anew other second).inView.into
    · exact (keeps_roundsFrom (keeps_walkAll makes around anew body first)
        (keeps_walkAll makes around true body again)).into
  | .element span tag attributes body p, finds => by
    obtain ⟨here, inside⟩ := List.forall_mem_cons.mp finds
    unfold walk
    refine (keeps_flushPassage makes).bind fun _ =>
      .knowing (keeps_rememberedAttributes eval _ _) here fun values found => ?_
    cases tag with
    | content => exact (keeps_content makes found _ _ (keeps_walkAll makes _ anew body inside)).into
    | message => exact (keeps_message makes found _ _ (keeps_walkAll makes _ anew body inside)).into
    | scope => exact (still_closedScope _ _ _).keeps.bind fun _ => (keeps_walkAll makes around anew body inside).inScope.into
    | step => exact (keeps_step makes (keeps_walkAll makes _ anew body inside) _ _ _ _).into
    | reference => exact (still_fail _ _).keeps

theorem keeps_walkAll (makes : Makes options finding item whole) (around : Surroundings)
    (anew : Bool) : ∀ nodes : List Node, (∀ m ∈ Node.metAll anew nodes, m.Finds eval finding) →
      Keeps item whole (walkAll eval options around anew nodes)
  | [], _ => keeps_pure _
  | n :: r, finds => by
    obtain ⟨first, second⟩ := List.forall_mem_append.mp finds
    have later := keeps_walkAll makes around anew r second
    unfold walkAll
    split
    · exact later.into
    · next visited =>
      rw [if_neg visited] at first
      exact (keeps_walk makes around anew n first).goingOn fun _ => later.into

end

end Walk
end Pass

namespace Document

variable {eval : Evaluator σ} {options : Options} {d : Document} {response : Option (List Content)} {m m' : Machine σ}
  {outcome : Outcome}

/-- **What a pass gives is made as passes make it.** -/
theorem made_of_pass {finding : Finding} {item : Content → Prop} {whole : Message → Prop}
    (makes : Pass.Makes options finding item whole) (finds : ∀ m ∈ Node.metAll false d.body, m.Finds eval finding)
    (passed : d.pass eval options response m = (.ok outcome, m')) : ∀ m ∈ outcome.messages, whole m := by
  have visits : Pass.Keeps item whole (d.visit eval options) := by
    refine (Pass.keeps_walkAll eval makes {} false d.body finds).inView.bind fun ((body, table), flow) =>
      (Pass.keeps_flushContent makes).bind fun _ => ?_
    cases flow <;> exact Pass.keeps_pure _
  obtain ⟨flow, t, visited, -, messages, -⟩ := runs_visit_of_pass eval options passed
  have begins : (PassState.opening m response).Gathered item whole :=
    ⟨fun _ none => absurd none List.not_mem_nil, fun _ none => absurd none List.not_mem_nil⟩
  rw [messages]
  exact (visits _ _ t begins visited).messages

/-- What is true of all items that passes make is true of those in the messages of a pass. -/
theorem good_of_pass {good : Content → Prop} (made : Content.Made options good)
    (passed : d.pass eval options response m = (.ok outcome, m')) : ∀ m ∈ outcome.messages, ∀ c ∈ m.content, good c :=
  made_of_pass made.makes (fun _ _ _ _ _ _ => trivial) passed

end Document
end PromptScript
