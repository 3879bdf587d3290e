import PromptScript.Proofs.Attributes
import PromptScript.Proofs.Fixpoint
import PromptScript.Proofs.Gathered

/-! # The attributes of what passes give

Messages and items keep attributes of the tags that make them. No name is there twice, whatever passes a document went
through before and wherever it was stored, and a name is that of a field of a message or item only where a tag says so. -/
namespace PromptScript

variable {σ : Type}

/-! ## Names of attributes -/

/-- What is found for attributes has names of theirs, each once. -/
def Finding.named : Finding := fun _ attributes values =>
  (Fields.names values).Nodup ∧ ∀ x ∈ Fields.names values, x ∈ Attribute.names attributes

namespace Pass

variable {eval : Evaluator σ}

theorem named_attributeValues (attributes : List Attribute) (acc : Attributes) (nodup : (Fields.names acc).Nodup) :
    Yields (fun values => (Fields.names values).Nodup ∧
      ∀ x ∈ Fields.names values, x ∈ Fields.names acc ∨ x ∈ Attribute.names attributes)
      (attributeValues eval attributes acc) := by
  -- The values that are left of the first attribute stand before the others.
  have more {a : Attribute} {r : List Attribute} {acc : Attributes} (v : Value) {part : Pass σ Attributes}
      (later : Yields (fun values => (Fields.names values).Nodup ∧
        ∀ x ∈ Fields.names values, x ∈ Fields.names (Fields.set a.name v acc) ∨ x ∈ Attribute.names r) part) :
      Yields (fun values => (Fields.names values).Nodup ∧
        ∀ x ∈ Fields.names values, x ∈ Fields.names acc ∨ x ∈ Attribute.names (a :: r)) part := by
    intro s values t ran
    obtain ⟨once, known⟩ := later s values t ran
    refine ⟨once, fun x there => ?_⟩
    rcases known x there with here | after
    · exact (Fields.mem_names_set.mp here).imp_right fun same => List.mem_cons.mpr (.inl same)
    · exact .inr (List.mem_cons_of_mem _ after)
  induction attributes generalizing acc with
  | nil => exact yields_pure ⟨nodup, fun _ => .inl⟩
  | cons a r ih =>
    obtain ⟨span, name, _ | parts⟩ := a
    · exact more _ (ih _ (Fields.nodup_names_set nodup _ _))
    · have none : Yields (fun _ => True) (attributeParts eval parts) := fun _ _ _ _ => trivial
      refine none.bind fun vs _ => ?_
      obtain _ | ⟨v, _ | ⟨w, vs⟩⟩ := vs
      · intro s values t ran
        obtain ⟨once, known⟩ := ih acc nodup s values t ran
        exact ⟨once, fun x there => (known x there).imp_right (List.mem_cons_of_mem _)⟩
      · exact more _ (ih _ (Fields.nodup_names_set nodup _ _))
      · exact more _ (ih _ (Fields.nodup_names_set nodup _ _))

theorem finds_named : Finds eval Finding.named := by
  intro tag attributes s values t ran
  obtain ⟨once, known⟩ := named_attributeValues attributes [] List.nodup_nil s values t ran
  exact ⟨once, fun x there => (known x there).resolve_left List.not_mem_nil⟩

end Pass

/-! ## Documents that were stored -/

theorem Value.names_of_restored {v : Value} {fields : List (String × Value)} (h : v.restored = .object fields) :
    ∃ before, v = .object before ∧ Fields.names fields = Fields.names before := by
  have names : ∀ before : List (String × Value), Fields.names (fieldsOfStored (fieldsToStored before)) = Fields.names before := by
    intro before
    induction before with
    | nil => rfl
    | cons e r ih => exact congrArg (e.1 :: ·) ih
  cases v with
  | object before =>
    have h : (if isUndefinedMark (fieldsToStored before) then undefined
      else object (fieldsOfStored (fieldsToStored before))) = .object fields := h
    split at h
    · cases h
    · obtain rfl := Value.object.inj h
      exact ⟨before, rfl, names before⟩
  | number x =>
    have h : ofStored (Json.ofFloat x) = .object fields := h
    unfold Json.ofFloat at h
    split at h
    · dsimp only at h
      split at h <;> cases h
    · cases h
  | _ => cases h

/-- A tag with what its stored form leaves of its attributes and marks. -/
def MetTag.restored (met : MetTag) : MetTag := ⟨met.tag, Node.restoredAttributes met.attributes, met.marks.restored⟩

theorem Attribute.names_restored (attributes : List Attribute) :
    names (Node.restoredAttributes attributes) = names attributes := by
  induction attributes with
  | nil => rfl
  | cons a r ih =>
    obtain ⟨_, name, _ | _⟩ := a
    · exact congrArg (name :: ·) ih
    · exact congrArg (name :: ·) ih

/-- Names stay what they are. -/
theorem MetTag.keeps_restored {met : MetTag} (keeps : met.Keeps Finding.named) : met.restored.Keeps Finding.named := by
  intro fields known
  obtain ⟨v, memo, same⟩ := Option.map_eq_some_iff.mp known
  obtain ⟨before, rfl, names⟩ := Value.names_of_restored same
  obtain ⟨once, theirs⟩ := keeps before memo
  unfold Finding.named
  rw [names, MetTag.restored, Attribute.names_restored]
  exact ⟨once, theirs⟩

namespace Node

theorem isDone_restored (n : Node) : n.restored.isDone = n.isDone := by
  have done (p : Option Progress) : (p.map Progress.restored).any (·.done) = p.any (·.done) := by cases p <;> rfl
  cases n with
  | choice _ _ _ other p | loop _ _ _ _ _ other p => cases other <;> exact done p
  | text _ _ p | comment _ _ p | config _ _ p | interpolation _ _ p | element _ _ _ _ p | group _ _ p => exact done p

mutual

theorem met_restored (anew : Bool) : ∀ n : Node, n.restored.met anew = (n.met anew).map MetTag.restored
  | text .. | comment .. | config .. | interpolation .. => rfl
  | group _ body _ | choice _ _ body none _ => metAll_restored anew body
  | choice _ _ body (some other) _ => by
    simp only [restored, met, List.map_append, metAll_restored anew body, metAll_restored anew other]
  | loop _ _ _ _ body none _ => by
    simp only [restored, met, List.map_append, metAll_restored anew body, metAll_restored true body]
  | loop _ _ _ _ body (some other) _ => by
    simp only [restored, met, List.map_append, metAll_restored anew body, metAll_restored true body,
      metAll_restored anew other]
  | element _ tag attributes body p => by
    have marks : (if anew then ({} : Progress) else (p.map Progress.restored).getD {}) =
        (if anew then {} else p.getD {}).restored := by
      cases anew <;> cases p <;> rfl
    simp only [restored, met, List.map_cons, MetTag.restored, metAll_restored anew body, marks]

theorem metAll_restored (anew : Bool) : ∀ nodes : List Node,
    metAll anew (restoredAll nodes) = (metAll anew nodes).map MetTag.restored
  | [] => rfl
  | n :: r => by
    simp only [restoredAll, metAll, isDone_restored, List.map_append, metAll_restored anew r]
    split
    · rfl
    · rw [met_restored anew n]

end

mutual

theorem openings_restored : ∀ n : Node,
    n.restored.openings = n.openings.map fun t => (t.1, restoredAttributes t.2)
  | text .. | comment .. | config .. | interpolation .. => rfl
  | group _ body _ | choice _ _ body none _ | loop _ _ _ _ body none _ => openingsAll_restored body
  | choice _ _ body (some other) _ | loop _ _ _ _ body (some other) _ => by
    simp only [restored, openings, List.map_append, openingsAll_restored body, openingsAll_restored other]
  | element _ tag attributes body _ => by
    simp only [restored, openings, List.map_cons, openingsAll_restored body]

theorem openingsAll_restored : ∀ nodes : List Node,
    openingsAll (restoredAll nodes) = (openingsAll nodes).map fun t => (t.1, restoredAttributes t.2)
  | [] => rfl
  | n :: r => by
    simp only [restoredAll, openingsAll, List.map_append, openings_restored n, openingsAll_restored r]

end

end Node

namespace Document

/-- The tags of a document, with the names of their attributes. -/
def headings (d : Document) : List (Tag × List String) :=
  (Node.openingsAll d.body).map fun t => (t.1, Attribute.names t.2)

theorem headings_restored (d : Document) : d.restored.headings = d.headings := by
  unfold headings restored
  rw [Node.openingsAll_restored, List.map_map]
  exact List.map_congr_left fun t _ => Prod.ext rfl (Attribute.names_restored t.2)

theorem headings_of_pass {eval : Evaluator σ} {options : Options} {d : Document} {response : Option (List Content)}
    {m m' : Machine σ} {outcome : Outcome} (ran : d.pass eval options response m = (.ok outcome, m')) :
    outcome.document.headings = d.headings := by
  unfold headings
  rw [← Node.openingsAll_clearedAll, marks_pass ran, Node.openingsAll_clearedAll]

/-- What a document comes to by passes, each over what the one before has left, stored and read between them or not. -/
inductive Leads : Document → Document → Prop where
  | start (d : Document) : Leads d d
  | pass {d e : Document} {σ : Type} {eval : Evaluator σ} {options : Options} {response : Option (List Content)}
      {m m' : Machine σ} {outcome : Outcome} (before : Leads d e)
      (ran : e.pass eval options response m = (.ok outcome, m')) : Leads d outcome.document
  | stored {d e : Document} (before : Leads d e) : Leads d e.restored

/-- A message that a pass gives over what a document comes to. -/
def Emits (d : Document) (message : Message) : Prop :=
  ∃ (e : Document) (σ : Type) (eval : Evaluator σ) (options : Options) (response : Option (List Content))
    (m m' : Machine σ) (outcome : Outcome),
    d.Leads e ∧ e.pass eval options response m = (.ok outcome, m') ∧ message ∈ outcome.messages

theorem Leads.headings {d e : Document} (leads : d.Leads e) : e.headings = d.headings := by
  induction leads with
  | start => rfl
  | pass _ ran ih => exact (headings_of_pass ran).trans ih
  | stored _ ih => exact (headings_restored _).trans ih

theorem Leads.keeps_named {d e : Document} (keeps : d.Keeps Finding.named) (leads : d.Leads e) :
    e.Keeps Finding.named := by
  induction leads with
  | start => exact keeps
  | pass _ ran ih => exact ih.after Pass.finds_named ran
  | stored _ ih =>
    intro met there
    have there : met ∈ Node.metAll false (Node.restoredAll _) := there
    rw [Node.metAll_restored] at there
    obtain ⟨before, here, rfl⟩ := List.mem_map.mp there
    exact MetTag.keeps_restored (ih before here)

end Document

/-! ## Names that tags leave alone -/

/-- The names of the fields that items of a kind may have, but for the kind. -/
def ContentKind.fieldNames : ContentKind → List String
  | text => ["text", "_promptlSourceMap"]
  | image => ["image"]
  | file => ["file", "mimeType"]
  | toolCall => ["toolCallId", "toolName", "toolArguments"]

theorem ContentKind.mem_all (kind : ContentKind) : kind ∈ all := by cases kind <;> decide

/-- The names of the fields beside which the attributes of a tag may come to stand. The attribute that says what a tag
is does not stand beside them. -/
def Tag.fieldNames : Tag → List String
  | message (some _) => Message.fieldNames
  | message none => Message.fieldNames.erase "role"
  | content (some kind) => "type" :: kind.fieldNames
  | content none => ContentKind.all.flatMap ContentKind.fieldNames
  | reference | scope | step => []

/-- No tag of a document has an attribute with the name of a field of what it makes. -/
def Document.Clear (d : Document) : Prop := ∀ t ∈ d.headings, ∀ name ∈ t.2, name ∉ t.1.fieldNames

instance (d : Document) : Decidable d.Clear :=
  inferInstanceAs (Decidable (∀ t ∈ d.headings, ∀ name ∈ t.2, name ∉ t.1.fieldNames))

/-- What is found for the tags of a document: names of the attributes that they have there, each once. -/
def Finding.headed (d : Document) : Finding := fun tag attributes values =>
  named tag attributes values ∧ (tag, Attribute.names attributes) ∈ d.headings

/-- Each name is there once, and in a document that is clear none is that of a field. -/
structure Content.Named (d : Document) (c : Content) : Prop where
  nodup : (Fields.names c.attributes).Nodup
  apart : d.Clear → c.Apart

structure Message.Named (d : Document) (m : Message) : Prop where
  nodup : (Fields.names m.attributes).Nodup
  apart : d.Clear → ∀ name ∈ Fields.names m.attributes, name ∉ fieldNames
  items : ∀ c ∈ m.content, c.Named d

namespace Pass

theorem Forms.kind {options : Options} {kind : ContentKind} {attributes : Attributes} {c : Content}
    (forms : Forms options kind attributes c) : c.fieldNames = kind.fieldNames := by
  cases forms <;> rfl

/-- An item has attributes that are left to it. -/
theorem Forms.sublist {options : Options} {kind : ContentKind} {attributes : Attributes} {c : Content}
    (forms : Forms options kind attributes c) : (Fields.names c.attributes).Sublist (Fields.names attributes) := by
  have erased (name : String) (fields : Attributes) :
      (Fields.names (Fields.erase name fields)).Sublist (Fields.names fields) := by
    rw [Fields.names_erase]
    exact List.erase_sublist
  cases forms with
  | text | image => exact List.Sublist.refl _
  | file => exact erased _ _
  | toolCall => exact (erased _ _).trans ((erased _ _).trans (erased _ _))

/-- What decides what a tag is, if it is an attribute, is not left. -/
theorem Decides.names {α : Type} {name : String} {ofName? : String → Option α} {given : Option α}
    {values left : Attributes} {found : α} (decides : Decides name ofName? given values found left) (nodup : (Fields.names values).Nodup) :
    (Fields.names left).Nodup ∧ ∀ x ∈ Fields.names left, x ∈ Fields.names values ∧ (given = none → x ≠ name) := by
  obtain ⟨rfl, rfl⟩ | ⟨rfl, -, rfl⟩ := decides
  · exact ⟨nodup, fun x there => ⟨there, nofun⟩⟩
  · rw [Fields.names_erase]
    refine ⟨nodup.erase _, fun x there => ?_⟩
    obtain ⟨other, there⟩ := nodup.mem_erase_iff.mp there
    exact ⟨there, fun _ => other⟩

/-- What is left of the attributes of a message tag that leaves the fields of messages alone does so, too. -/
theorem Decides.avoids {role : Option Role} {values left : Attributes} {role' : Role}
    (decides : Decides "role" Role.ofName? role values role' left) (nodup : (Fields.names values).Nodup)
    (avoid : ∀ name ∈ Fields.names values, name ∉ (Tag.message role).fieldNames) :
    ∀ name ∈ Fields.names left, name ∉ Message.fieldNames := by
  intro name there field
  obtain ⟨there, other⟩ := (decides.names nodup).2 name there
  cases role with
  | some role => exact avoid name there field
  | none => exact avoid name there ((List.mem_erase_of_ne (other rfl)).mpr field)

/-- **Passes make messages and items of attributes that tags have**, each once. -/
theorem makes_named (options : Options) (d : Document) :
    Makes options (Finding.headed d) (Content.Named d) (Message.Named d) where
  text p := ⟨List.nodup_nil, fun _ _ none => absurd none List.not_mem_nil⟩
  image url := ⟨List.nodup_nil, fun _ _ none => absurd none List.not_mem_nil⟩
  file url mimeType := ⟨List.nodup_nil, fun _ _ none => absurd none List.not_mem_nil⟩
  content := by
    rintro kind attributes values kind' left c ⟨⟨once, theirs⟩, headed⟩ decides forms
    obtain ⟨nodup, left⟩ := decides.names once
    refine ⟨forms.sublist.nodup nodup, fun clear name there => ?_⟩
    obtain ⟨there, other⟩ := left name (forms.sublist.subset there)
    have avoided := clear _ headed name (theirs name there)
    rw [forms.kind]
    obtain ⟨rfl, rfl⟩ | ⟨rfl, -, rfl⟩ := decides
    · exact avoided
    · intro field
      rcases List.mem_cons.mp field with same | field
      · exact other rfl same
      · exact avoided (List.mem_flatMap.mpr ⟨kind', kind'.mem_all, field⟩)
  plain _ all := ⟨List.nodup_nil, fun _ _ none => absurd none List.not_mem_nil, all⟩
  message := by
    rintro role attributes values role' left items ⟨⟨once, theirs⟩, headed⟩ decides - - all
    exact ⟨(decides.names once).1,
      fun clear => decides.avoids once fun name there => clear _ headed name (theirs name there), all⟩
  answer := by
    rintro role attributes values left id name items ⟨⟨once, theirs⟩, headed⟩ decides - - all
    have erased : (Fields.names (Fields.erase "name" (Fields.erase "id" left))).Sublist (Fields.names left) := by
      rw [Fields.names_erase, Fields.names_erase]
      exact List.erase_sublist.trans List.erase_sublist
    refine ⟨erased.nodup (decides.names once).1, fun clear x there => ?_, ?_⟩
    · exact decides.avoids once (fun name there => clear _ headed name (theirs name there)) x (erased.subset there)
    · exact List.forall_mem_singleton.mpr ⟨List.nodup_nil, fun _ _ none => absurd none List.not_mem_nil⟩

end Pass

namespace Document

/-- **What passes give has attributes of tags**, each once. -/
theorem Emits.named {source : List Char} {d : Document} (parsed : parse source = .ok d) {m : Message}
    (emits : d.Emits m) : m.Named d := by
  obtain ⟨e, σ, eval, options, response, machine, machine', outcome, leads, ran, there⟩ := emits
  refine made_of_pass (Pass.makes_named options d) (fun met here => ?_) ran m there
  intro s values t found
  have remembered := Pass.finds_named.remembered (leads.keeps_named (keeps_of_parse parsed) met here) s values t found
  refine ⟨remembered, ?_⟩
  rw [← leads.headings]
  exact List.mem_map_of_mem (Node.mem_openingsAll_of_met e.body false met here)

end Document

/-! ## The canonical format -/

namespace Message.Named

variable {d : Document} {m : Message} (named : m.Named d)
include named

theorem apart_of_clear (clear : d.Clear) : m.Apart :=
  ⟨named.apart clear, fun c there => (named.items c there).apart clear⟩

theorem distinct_iff : m.Distinct ↔ m.Apart := by
  constructor
  · exact fun distinct => ⟨distinct.own.apart, fun c there => (distinct.items c there).apart⟩
  · exact fun apart => ⟨⟨named.nodup, apart.own⟩, fun c there => ⟨(named.items c there).nodup, apart.items c there⟩⟩

end Message.Named

/-- **The canonical format is lossless on what passes give** just where no attribute has the name of a field of the
message or item that has it. It is so in particular if no tag has such an attribute. -/
theorem Conversation.comes_back (c : Conversation)
    (emitted : ∀ m ∈ c.messages, ∃ source d, Document.parse source = .ok d ∧ d.Emits m) :
    ((Format.canonical.encode c >>= Format.canonical.decode) = .ok c.normal ↔ ∀ m ∈ c.messages, m.Apart) ∧
    ((∀ m ∈ c.messages, ∃ source d, Document.parse source = .ok d ∧ d.Clear ∧ d.Emits m) →
      (Format.canonical.encode c >>= Format.canonical.decode) = .ok c.normal) := by
  have lossless : (Format.canonical.encode c >>= Format.canonical.decode) = .ok c.normal ↔ ∀ m ∈ c.messages, m.Apart := by
    rw [Format.decode_encode_canonical_iff]
    refine forall₂_congr fun m there => ?_
    obtain ⟨source, d, parsed, emits⟩ := emitted m there
    exact (emits.named parsed).distinct_iff
  refine ⟨lossless, fun clear => lossless.mpr fun m there => ?_⟩
  obtain ⟨source, d, parsed, clear, emits⟩ := clear m there
  exact (emits.named parsed).apart_of_clear clear

namespace Document

/-- Whether a source is read, a pass over it succeeds, and the messages of the pass are as they should be. -/
def givesWith (text : String) (test : Document → List Message → Bool) : Bool :=
  match parse text.toList with
  | .error _ => false
  | .ok d =>
    match d.pass (Expr.eval Host.idle) {} none ⟨⟨0, ()⟩, Scope.ofList []⟩ with
    | (.error _, _) => false
    | (.ok outcome, _) => test d outcome.messages

theorem exists_of_givesWith {text : String} {test : Document → List Message → Bool} (h : givesWith text test = true) :
    ∃ d messages, parse text.toList = .ok d ∧ (∀ m ∈ messages, d.Emits m) ∧ test d messages = true := by
  unfold givesWith at h
  split at h
  · cases h
  · next d parsed =>
    split at h
    · cases h
    · next outcome m ran =>
      exact ⟨d, outcome.messages, parsed,
        fun message there => ⟨d, _, _, _, _, _, _, outcome, .start d, ran, there⟩, h⟩

end Document

/-- A message with attributes, and an image within it with attributes of its own. -/
theorem Conversation.image_comes_back : ∃ d messages,
    Document.parse "<user name=\"Ann\">hi <content-image alt={{ [0 / 0] }}>u</content-image></user>".toList = .ok d ∧
      (∀ m ∈ messages, d.Emits m) ∧ messages.map (·.content.map Content.kindName) = [["text", "image"]] ∧ d.Clear ∧
      (Format.canonical.encode ⟨[], messages⟩ >>= Format.canonical.decode) = .ok (Conversation.normal ⟨[], messages⟩) := by
  have made : Document.givesWith "<user name=\"Ann\">hi <content-image alt={{ [0 / 0] }}>u</content-image></user>"
      (fun d messages => messages.map (·.content.map Content.kindName) = [["text", "image"]] && d.Clear) := by
    decide +kernel
  obtain ⟨d, messages, parsed, emits, seen⟩ := Document.exists_of_givesWith made
  rw [Bool.and_eq_true, decide_eq_true_eq, decide_eq_true_eq] at seen
  obtain ⟨kinds, clear⟩ := seen
  exact ⟨d, messages, parsed, emits, kinds, clear,
    (comes_back ⟨[], messages⟩ fun m there => ⟨_, d, parsed, emits m there⟩).2
      fun m there => ⟨_, d, parsed, clear, emits m there⟩⟩

/-- An attribute with the name of a field takes its place: the message has no content, and is not read. -/
theorem Conversation.content_does_not_come_back : ∃ d messages,
    Document.parse "<user content=\"x\">hi</user>".toList = .ok d ∧ (∀ m ∈ messages, d.Emits m) ∧ messages.length = 1 ∧
      (Format.canonical.encode ⟨[], messages⟩ >>= Format.canonical.decode) ≠ .ok (Conversation.normal ⟨[], messages⟩) := by
  have made : Document.givesWith "<user content=\"x\">hi</user>"
      (fun _ messages => messages.length = 1 && !(Format.canonical.encode ⟨[], messages⟩ >>= Format.canonical.decode).isOk) := by
    decide +kernel
  obtain ⟨d, messages, parsed, emits, seen⟩ := Document.exists_of_givesWith made
  rw [Bool.and_eq_true, decide_eq_true_eq] at seen
  refine ⟨d, messages, parsed, emits, seen.1, fun same => ?_⟩
  rw [same] at seen
  cases seen.2

end PromptScript
