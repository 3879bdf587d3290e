import PromptScript.Proofs.Attributes
import PromptScript.Proofs.Layout
import PromptScript.Proofs.Marks

/-! # Attributes that passes remember

A pass finds the attributes of a tag once and leaves them on it. What holds of all that can be found holds of what a
later pass goes on with, too. -/
namespace PromptScript

variable {σ : Type}

/-- A tag that a pass comes to: its attributes, and the marks on it that count. -/
structure MetTag where
  tag : Tag
  attributes : List Attribute
  marks : Progress

/-- What is known of the attributes that are found for a tag. -/
abbrev Finding := Tag → List Attribute → Attributes → Prop

/-- What is remembered of the attributes of a tag is as it was found. -/
def MetTag.Keeps (finding : Finding) (met : MetTag) : Prop :=
  ∀ fields, met.marks.memo = some (.object fields) → finding met.tag met.attributes fields

/-- The attributes with which a pass goes on at a tag are as they should be. -/
def MetTag.Finds (eval : Evaluator σ) (finding : Finding) (met : MetTag) : Prop :=
  Yields (finding met.tag met.attributes) (Pass.rememberedAttributes eval met.marks met.attributes)

namespace Node

mutual

/-- The tags that a pass may come to in a node. -/
def met (anew : Bool) : Node → List MetTag
  | text _ _ _ | comment _ _ _ | config _ _ _ | interpolation _ _ _ => []
  | group _ body _ | choice _ _ body none _ => metAll anew body
  | choice _ _ body (some other) _ => metAll anew body ++ metAll anew other
  | loop _ _ _ _ body none _ => metAll anew body ++ metAll true body
  | loop _ _ _ _ body (some other) _ => metAll anew body ++ metAll true body ++ metAll anew other
  | element _ tag attributes body p => ⟨tag, attributes, if anew then {} else p.getD {}⟩ :: metAll anew body

def metAll (anew : Bool) : List Node → List MetTag
  | [] => []
  | n :: r => (if !anew && n.isDone then [] else met anew n) ++ metAll anew r

end

mutual

/-- The tags that open in a node, with their attributes. -/
def openings : Node → List (Tag × List Attribute)
  | text _ _ _ | comment _ _ _ | config _ _ _ | interpolation _ _ _ => []
  | group _ body _ | choice _ _ body none _ | loop _ _ _ _ body none _ => openingsAll body
  | choice _ _ body (some other) _ | loop _ _ _ _ body (some other) _ => openingsAll body ++ openingsAll other
  | element _ tag attributes body _ => (tag, attributes) :: openingsAll body

def openingsAll : List Node → List (Tag × List Attribute)
  | [] => []
  | n :: r => openings n ++ openingsAll r

end

mutual

theorem openings_cleared : ∀ n : Node, n.cleared.openings = n.openings
  | text .. | comment .. | config .. | interpolation .. => rfl
  | group _ body _ | choice _ _ body none _ | loop _ _ _ _ body none _ => openingsAll_clearedAll body
  | choice _ _ body (some other) _ | loop _ _ _ _ body (some other) _ => by
    simp only [cleared, openings, openingsAll_clearedAll body, openingsAll_clearedAll other]
  | element _ _ _ body _ => by simp only [cleared, openings, openingsAll_clearedAll body]

theorem openingsAll_clearedAll : ∀ nodes : List Node, openingsAll (clearedAll nodes) = openingsAll nodes
  | [] => rfl
  | n :: r => by simp only [clearedAll, openingsAll, openings_cleared n, openingsAll_clearedAll r]

end

mutual

/-- A tag that a pass comes to is one of the document. -/
theorem mem_openings_of_met : ∀ (n : Node) (anew : Bool), ∀ m ∈ n.met anew, (m.tag, m.attributes) ∈ n.openings
  | text .., _, _, member | comment .., _, _, member | config .., _, _, member | interpolation .., _, _, member =>
    absurd member List.not_mem_nil
  | group _ body _, anew, m, member | choice _ _ body none _, anew, m, member => mem_openingsAll_of_met body anew m member
  | choice _ _ body (some other) _, anew, m, member =>
    List.mem_append.mpr ((List.mem_append.mp member).imp (mem_openingsAll_of_met body anew m) (mem_openingsAll_of_met other anew m))
  | loop _ _ _ _ body none _, anew, m, member =>
    (List.mem_append.mp member).elim (mem_openingsAll_of_met body anew m) (mem_openingsAll_of_met body true m)
  | loop _ _ _ _ body (some other) _, anew, m, member =>
    List.mem_append.mpr ((List.mem_append.mp member).imp
      (fun member => (List.mem_append.mp member).elim (mem_openingsAll_of_met body anew m) (mem_openingsAll_of_met body true m))
      (mem_openingsAll_of_met other anew m))
  | element _ _ _ body _, anew, m, member => by
    rcases List.mem_cons.mp member with rfl | member
    · exact List.mem_cons_self
    · exact List.mem_cons_of_mem _ (mem_openingsAll_of_met body anew m member)

theorem mem_openingsAll_of_met : ∀ (nodes : List Node) (anew : Bool), ∀ m ∈ metAll anew nodes,
    (m.tag, m.attributes) ∈ openingsAll nodes
  | [], _, _, member => absurd member List.not_mem_nil
  | n :: r, anew, m, member => by
    refine List.mem_append.mpr ((List.mem_append.mp member).imp (fun first => ?_) (mem_openingsAll_of_met r anew m))
    split at first
    · cases first
    · exact mem_openings_of_met n anew m first

end

variable {finding : Finding}

mutual

/-- Without marks that count nothing is remembered. -/
theorem keeps_of_fresh : ∀ (n : Node) {anew : Bool}, n.Fresh anew → ∀ m ∈ n.met anew, m.Keeps finding
  | text .., _, _, _, member | comment .., _, _, _, member | config .., _, _, _, member | interpolation .., _, _, _, member =>
    absurd member List.not_mem_nil
  | group _ body _, _, fresh, m, member => keepsAll_of_fresh body (fresh.imp_right fun h => (Node.group.inj h).2.1) m member
  | choice _ _ body none _, _, fresh, m, member =>
    keepsAll_of_fresh body (fresh.imp_right fun h => (Node.choice.inj h).2.2.1) m member
  | choice _ _ body (some other) _, _, fresh, m, member =>
    (List.mem_append.mp member).elim
      (keepsAll_of_fresh body (fresh.imp_right fun h => (Node.choice.inj h).2.2.1) m)
      (keepsAll_of_fresh other (fresh.imp_right fun h => Option.some.inj (Node.choice.inj h).2.2.2.1) m)
  | loop _ _ _ _ body none _, _, fresh, m, member =>
    (List.mem_append.mp member).elim
      (keepsAll_of_fresh body (fresh.imp_right fun h => (Node.loop.inj h).2.2.2.2.1) m)
      (keepsAll_of_fresh body (.inl rfl) m)
  | loop _ _ _ _ body (some other) _, _, fresh, m, member => by
    rcases List.mem_append.mp member with member | member
    · exact (List.mem_append.mp member).elim
        (keepsAll_of_fresh body (fresh.imp_right fun h => (Node.loop.inj h).2.2.2.2.1) m)
        (keepsAll_of_fresh body (.inl rfl) m)
    · exact keepsAll_of_fresh other (fresh.imp_right fun h => Option.some.inj (Node.loop.inj h).2.2.2.2.2.1) m member
  | element _ _ _ body p, _, fresh, m, member => by
    have marks := marks_of_fresh (fresh.imp_right fun h => (Node.element.inj h).2.2.2.2.symm)
    rcases List.mem_cons.mp member with rfl | member
    · intro fields known
      rw [marks.2] at known
      cases known
    · exact keepsAll_of_fresh body (fresh.imp_right fun h => (Node.element.inj h).2.2.2.1) m member

theorem keepsAll_of_fresh : ∀ (nodes : List Node) {anew : Bool}, FreshAll anew nodes →
    ∀ m ∈ metAll anew nodes, m.Keeps finding
  | [], _, _, _, member => absurd member List.not_mem_nil
  | n :: r, _, fresh, m, member => by
    rcases List.mem_append.mp member with first | later
    · split at first
      · cases first
      · exact keeps_of_fresh n (fresh.imp_right fun h => (List.cons.inj h).1) m first
    · exact keepsAll_of_fresh r (fresh.imp_right fun h => (List.cons.inj h).2) m later

end

/-- A node that is done is not visited again. -/
theorem metAll_of_done {n : Node} {r : List Node} (done : n.isDone = true) : metAll false (n :: r) = metAll false r := by
  show (if !false && n.isDone then [] else met false n) ++ metAll false r = _
  rw [done]
  rfl

/-- What a pass does not reach it leaves without marks, or as it was. -/
theorem keepsAll_untouched {anew : Bool} {nodes : List Node} (h : ∀ m ∈ metAll anew nodes, m.Keeps finding) :
    ∀ m ∈ metAll false (Pass.untouched anew nodes), m.Keeps finding := by
  unfold Pass.untouched
  cases anew with
  | true => exact keepsAll_of_fresh (clearedAll nodes) (.inr (clearedAll_clearedAll nodes))
  | false => exact h

end Node

namespace Pass

variable (eval : Evaluator σ) (options : Options) {finding : Finding}

/-- All that can be found for tags is as it should be. -/
def Finds (finding : Finding) : Prop :=
  ∀ tag attributes, Yields (finding tag attributes) (attributeValues eval attributes [])

variable {eval}

/-- What a pass goes on with at a tag is remembered or found. -/
theorem Finds.remembered (finds : Finds eval finding) {met : MetTag} (keeps : met.Keeps finding) :
    met.Finds eval finding := by
  unfold MetTag.Finds rememberedAttributes
  split
  · next fields known => exact yields_pure (keeps fields known)
  · exact finds met.tag met.attributes

variable (eval)

/-- What follows a part may make use of what is known of its value. -/
theorem Leaves.knowing {α β : Type} {known : β → Prop} {good : α → Prop} {part : Pass σ β}
    {rest : β → Pass σ (α × Flow)} (first : Yields known part) (h : ∀ b, known b → Leaves good (rest b)) :
    Leaves good (part >>= rest) :=
  Yields.bind first h

/-- A part leaves nodes in which what is remembered is as it was found. -/
abbrev LeavesKept (finding : Finding) (part : Pass σ (List Node × Flow)) : Prop :=
  Leaves (fun nodes => ∀ m ∈ Node.metAll false nodes, m.Keeps finding) part

mutual

/-- **What passes leave on tags is what they have found.** -/
theorem kept_walk (finds : Finds eval finding) (around : Surroundings) (anew : Bool) : ∀ n : Node,
    (∀ m ∈ n.met anew, m.Keeps finding) →
      Leaves (fun n' => ∀ m ∈ n'.met false, m.Keeps finding) (walk eval options around anew n)
  | .text _ _ _, _ => .after fun _ => .pure (List.forall_mem_nil _)
  | .comment _ _ _, _ => .pure (List.forall_mem_nil _)
  | .config _ _ _, _ => .after fun _ => .pure (List.forall_mem_nil _)
  | .interpolation _ _ _, _ => .after fun _ => .pure (List.forall_mem_nil _)
  | .group _ body _, kept => by
    unfold walk
    exact .into (kept_walkAll finds around anew body kept) fun _ _ => id
  | .choice _ _ body none _, kept => by
    unfold walk
    refine .after fun holds => ?_
    dsimp only
    split
    · exact .into (.inView (kept_walkAll finds around anew body kept)) fun _ _ => id
    · exact .pure (Node.keepsAll_untouched kept)
  | .choice _ _ body (some other) _, kept => by
    obtain ⟨first, second⟩ := List.forall_mem_append.mp kept
    unfold walk
    refine .after fun holds => ?_
    dsimp only
    split
    · exact .into (.inView (kept_walkAll finds around anew body first)) fun _ _ inside =>
        List.forall_mem_append.mpr ⟨inside, Node.keepsAll_untouched second⟩
    · exact .into (.inView (kept_walkAll finds around anew other second)) fun _ _ inside =>
        List.forall_mem_append.mpr ⟨Node.keepsAll_untouched first, inside⟩
  | .loop _ _ _ _ body none _, kept => by
    obtain ⟨first, again⟩ := List.forall_mem_append.mp kept
    unfold walk
    refine .after fun v => .after fun items => ?_
    refine .into (.roundsFrom (kept_walkAll finds around anew body first) (kept_walkAll finds around true body again)
      (Node.keepsAll_untouched first)) fun _ _ inside => ?_
    exact List.forall_mem_append.mpr ⟨inside, Node.keepsAll_of_fresh _ (.inl rfl)⟩
  | .loop _ _ _ _ body (some other) _, kept => by
    obtain ⟨kept, second⟩ := List.forall_mem_append.mp kept
    obtain ⟨first, again⟩ := List.forall_mem_append.mp kept
    have anyRound (nodes : List Node) : ∀ m ∈ Node.metAll true nodes, m.Keeps finding :=
      Node.keepsAll_of_fresh nodes (.inl rfl)
    unfold walk
    refine .after fun v => .after fun items => ?_
    cases items with
    | nil =>
      exact .into (.inView (kept_walkAll finds around anew other second)) fun _ _ inside => List.forall_mem_append.mpr
        ⟨List.forall_mem_append.mpr ⟨Node.keepsAll_untouched first, anyRound _⟩, inside⟩
    | cons =>
      exact .into (.roundsFrom (kept_walkAll finds around anew body first) (kept_walkAll finds around true body again)
        (Node.keepsAll_untouched first)) fun _ _ inside => List.forall_mem_append.mpr
          ⟨List.forall_mem_append.mpr ⟨inside, anyRound _⟩, Node.keepsAll_untouched second⟩
  | .element span tag attributes body p, kept => by
    obtain ⟨here, inside⟩ := List.forall_mem_cons.mp kept
    unfold walk
    have remembered : Yields (finding tag attributes) _ := finds.remembered here
    refine .after fun _ => .knowing remembered fun values found => ?_
    -- The node is left with what was found on it.
    have marked {q : Progress} (memo : q.memo = some (.object values)) :
        MetTag.Keeps finding ⟨tag, attributes, q⟩ := by
      intro fields known
      obtain rfl := Value.object.inj (Option.some.inj (memo.symm.trans known))
      exact found
    cases tag with
    | content | message =>
      exact .into (.after fun _ => .closing (kept_walkAll finds _ anew body inside)) fun _ _ left =>
        List.forall_mem_cons.mpr ⟨marked rfl, left⟩
    | scope =>
      refine .after fun inner => .into (.inScope (kept_walkAll finds around anew body inside)) fun _ flow left => ?_
      exact List.forall_mem_cons.mpr ⟨marked (by cases flow <;> rfl), left⟩
    | step =>
      have visited : Leaves (fun visited => ∀ m ∈ Node.metAll false (visited.getD (untouched anew body)), m.Keeps finding)
          (step options around span attributes values (walkAll eval options { around with inStep := true } anew body)) := by
        refine .after fun head => .after fun response => ?_
        cases response with
        | none => exact (kept_walkAll finds _ anew body inside).bind fun _ _ left => .after fun _ => .pure left
        | some => exact .after fun _ => .after fun _ => .pure (Node.keepsAll_untouched inside)
      exact visited.into fun _ _ left => List.forall_mem_cons.mpr ⟨marked rfl, left⟩
    | reference => exact .fail _ _

theorem kept_walkAll (finds : Finds eval finding) (around : Surroundings) (anew : Bool) : ∀ nodes : List Node,
    (∀ m ∈ Node.metAll anew nodes, m.Keeps finding) → LeavesKept finding (walkAll eval options around anew nodes)
  | [], _ => .pure (List.forall_mem_nil _)
  | n :: r, kept => by
    obtain ⟨first, second⟩ := List.forall_mem_append.mp kept
    have later := kept_walkAll finds around anew r second
    unfold walkAll
    split
    · next skip =>
      refine .into later fun _ _ left => ?_
      rw [Node.metAll_of_done (Bool.and_eq_true_iff.mp skip).2]
      exact left
    · next visited =>
      rw [if_neg visited] at first
      refine .goingOn (kept_walk finds around anew n first) (fun n' left => ?_) fun n' _ => .into later fun _ _ left => ?_
      · refine List.forall_mem_append.mpr ⟨?_, Node.keepsAll_untouched second⟩
        split
        · exact List.forall_mem_nil _
        · exact left
      · rw [Node.metAll_of_done n'.isDone_finished]
        exact left

end

end Pass

namespace Document

/-- What is remembered in a document is as it was found. -/
def Keeps (finding : Finding) (d : Document) : Prop := ∀ m ∈ Node.metAll false d.body, m.Keeps finding

theorem keeps_of_parse {finding : Finding} {source : List Char} {d : Document} (parsed : parse source = .ok d) :
    d.Keeps finding :=
  Node.keepsAll_of_fresh d.body (.inr (Grammar.unmarked_of_parse parsed).1)

/-- It still is after a pass. -/
theorem Keeps.after {finding : Finding} {eval : Evaluator σ} {options : Options} {d : Document}
    {response : Option (List Content)} {m m' : Machine σ} {outcome : Outcome} (finds : Pass.Finds eval finding)
    (keeps : d.Keeps finding) (ran : d.pass eval options response m = (.ok outcome, m')) :
    outcome.document.Keeps finding := by
  have visits : Pass.Leaves (fun d' => d'.Keeps finding) (d.visit eval options) :=
    (Pass.Leaves.inView (Pass.kept_walkAll eval options finds {} false d.body keeps)).bind fun _ _ left =>
      .after fun _ => .pure left
  obtain ⟨flow, t, visited, -⟩ := Document.runs_visit_of_pass eval options ran
  exact visits _ _ _ visited

end Document
end PromptScript

/-! ## Attributes that are written out

The value that a pass finds for an attribute without interpolations is its text. As no two attributes of a tag have one
name, what a pass reads under a name is what a survey has seen there. -/
namespace PromptScript

variable {σ : Type}

namespace Attribute

/-- The text of the attribute of a name, if it is written out. -/
def written? (name : String) (attributes : List Attribute) : Option String :=
  (find? name attributes).bind (·.value.staticText?)

/-- Whether the attribute of a name, if there is one, is written out. -/
def isLiteral (name : String) (attributes : List Attribute) : Bool :=
  (find? name attributes).all fun a => a.value.staticText?.isSome

theorem find?_of_mem {attributes : List Attribute} (once : (names attributes).Nodup) {a : Attribute}
    (member : a ∈ attributes) : find? a.name attributes = some a := by
  induction attributes with
  | nil => cases member
  | cons b r ih =>
    obtain ⟨new, rest⟩ := List.nodup_cons.mp once
    unfold find?
    rcases List.mem_cons.mp member with rfl | member
    · exact List.find?_cons_of_pos (beq_self_eq_true _)
    · have other : b.name ≠ a.name := fun same => new (same ▸ List.mem_map_of_mem member)
      rw [List.find?_cons_of_neg (by simpa using other)]
      exact ih rest member

end Attribute

/-- A value may be that of an attribute of a name: if this is written out it is its text. -/
def Attribute.Gives (attributes : List Attribute) (name : String) (v : Value) : Prop :=
  ∃ a ∈ attributes, a.name = name ∧ ∀ text, a.value.staticText? = some text → v = .string text

theorem Attribute.Gives.cons {a : Attribute} {attributes : List Attribute} {name : String} {v : Value}
    (gives : Gives attributes name v) : Gives (a :: attributes) name v := by
  obtain ⟨b, member, known⟩ := gives
  exact ⟨b, List.mem_cons_of_mem _ member, known⟩

/-- What is found under a name is the value of an attribute of the name. -/
def Finding.written : Finding := fun _ attributes values =>
  ∀ name v, Fields.get? name values = some v → Attribute.Gives attributes name v

/-- What is found under a name that has to be written out is the text of the attribute. -/
def Finding.spelled : Finding := fun _ attributes values => ∀ name v, Fields.get? name values = some v →
  Attribute.isLiteral name attributes = true → ∃ text, Attribute.written? name attributes = some text ∧ v = .string text

/-- As no two attributes have one name. -/
theorem Finding.spelled_of_written {tag : Tag} {attributes : List Attribute} {values : Attributes}
    (once : (Attribute.names attributes).Nodup) (found : written tag attributes values) : spelled tag attributes values := by
  intro name v there literal
  obtain ⟨a, member, rfl, same⟩ := found name v there
  have here := Attribute.find?_of_mem once member
  unfold Attribute.isLiteral at literal
  rw [here] at literal
  obtain ⟨text, static⟩ := Option.isSome_iff_exists.mp literal
  refine ⟨text, ?_, same text static⟩
  unfold Attribute.written?
  rw [here]
  exact static

namespace Pass

variable {eval : Evaluator σ}

/-- The parts of a text have values that make up the text. -/
theorem texts_attributeParts {parts : List Node} {text : String} (static : AttributeValue.textOfParts? parts = some text) :
    Yields (fun vs => ∃ texts : List String, vs = texts.map Value.string ∧ String.join texts = text)
      (attributeParts eval parts) := by
  induction parts generalizing text with
  | nil =>
    obtain rfl := Option.some.inj static
    exact yields_pure ⟨[], rfl, rfl⟩
  | cons n r ih =>
    cases n with
    | text _ data _ =>
      obtain ⟨rest, later, rfl⟩ := Option.map_eq_some_iff.mp static
      refine (ih later).bind fun vs known => yields_pure ?_
      obtain ⟨texts, rfl, rfl⟩ := known
      by_cases empty : data = ""
      · rw [if_pos empty, empty]
        exact ⟨texts, rfl, (String.empty_append).symm⟩
      · rw [if_neg empty]
        exact ⟨data :: texts, rfl, String.join_cons⟩
    | _ => cases static

/-- The value of the first attribute is found under its name, unless one of the others has the name. -/
theorem gives_of_set {a : Attribute} {r : List Attribute} {acc : Attributes} {v w : Value} {name : String}
    (here : ∀ text, a.value.staticText? = some text → v = .string text)
    (later : Fields.get? name (Fields.set a.name v acc) = some w ∨ Attribute.Gives r name w) :
    Fields.get? name acc = some w ∨ Attribute.Gives (a :: r) name w := by
  rcases later with before | gives
  · by_cases same : name = a.name
    · subst same
      rw [Fields.get?_set_same] at before
      obtain rfl := Option.some.inj before
      exact .inr ⟨a, List.mem_cons_self, rfl, here⟩
    · rw [Fields.get?_set_other same] at before
      exact .inl before
  · exact .inr gives.cons

theorem gives_attributeValues (attributes : List Attribute) (acc : Attributes) :
    Yields (fun values => ∀ name v, Fields.get? name values = some v →
      Fields.get? name acc = some v ∨ Attribute.Gives attributes name v) (attributeValues eval attributes acc) := by
  induction attributes generalizing acc with
  | nil => exact yields_pure fun _ _ => .inl
  | cons a r ih =>
    obtain ⟨span, name, _ | parts⟩ := a
    · exact fun s values t ran x v there => gives_of_set nofun (ih _ s values t ran x v there)
    · have parted : Yields (fun vs => ∀ text, AttributeValue.textOfParts? parts = some text →
          ∃ texts : List String, vs = texts.map Value.string ∧ String.join texts = text) (attributeParts eval parts) :=
        fun s vs t ran text static => texts_attributeParts static s vs t ran
      refine parted.bind fun vs known => ?_
      obtain _ | ⟨w, _ | ⟨w', vs⟩⟩ := vs
      · exact fun s values t ran x v there => (ih _ s values t ran x v there).imp_right Attribute.Gives.cons
      · refine fun s values t ran x v there => gives_of_set (fun text static => ?_) (ih _ s values t ran x v there)
        obtain ⟨texts, same, rfl⟩ := known text static
        obtain ⟨one, rfl, rfl⟩ := List.map_eq_singleton_iff.mp same.symm
        rw [String.join_cons]
        exact congrArg Value.string (String.append_empty).symm
      · refine fun s values t ran x v there => gives_of_set (fun text static => ?_) (ih _ s values t ran x v there)
        obtain ⟨texts, same, rfl⟩ := known text static
        have plain : (texts.map Value.string).map Value.toText = texts := by
          rw [List.map_map]
          exact List.map_id _
        rw [same, plain]

theorem finds_written : Finds eval Finding.written := by
  intro tag attributes s values t ran name v there
  exact (gives_attributeValues attributes [] s values t ran name v there).resolve_left nofun

end Pass
namespace Node

theorem openingsAll_of_forall {p : Tag × List Attribute → Prop} {nodes : List Node}
    (h : ∀ n ∈ nodes, ∀ t ∈ n.openings, p t) : ∀ t ∈ openingsAll nodes, p t := by
  induction nodes with
  | nil => exact List.forall_mem_nil _
  | cons n r ih =>
    obtain ⟨first, rest⟩ := List.forall_mem_cons.mp h
    exact List.forall_mem_append.mpr ⟨first, ih rest⟩

theorem built_once : Grammar.Built (fun _ => True) fun n => ∀ t ∈ n.openings, (Attribute.names t.2).Nodup where
  text _ _ := trivial
  value _ _ := trivial
  words _ _ := List.forall_mem_nil _
  comment _ _ := List.forall_mem_nil _
  header _ _ := List.forall_mem_nil _
  interpolation _ _ := List.forall_mem_nil _
  choice _ _ _ other inside beside := by
    cases other with
    | none => exact openingsAll_of_forall inside
    | some nodes => exact List.forall_mem_append.mpr ⟨openingsAll_of_forall inside, openingsAll_of_forall (beside nodes rfl)⟩
  loop _ _ _ _ _ other inside beside := by
    cases other with
    | none => exact openingsAll_of_forall inside
    | some nodes => exact List.forall_mem_append.mpr ⟨openingsAll_of_forall inside, openingsAll_of_forall (beside nodes rfl)⟩
  element _ _ _ _ _ once inside := List.forall_mem_cons.mpr ⟨once, openingsAll_of_forall inside⟩

end Node

/-- No tag of a document that has just been read has two attributes of one name. -/
theorem Document.once_of_parse {source : List Char} {d : Document} (parsed : parse source = .ok d) :
    ∀ t ∈ Node.openingsAll d.body, (Attribute.names t.2).Nodup :=
  Node.openingsAll_of_forall (Node.built_once.of_parse parsed)

end PromptScript
