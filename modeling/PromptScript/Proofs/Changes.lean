import PromptScript.Proofs.Cuts
import PromptScript.Proofs.Lossless

/-! # Changes of a text

A survey takes comments and the header out of the text of a document, and puts other documents in at its references.
These are its changes, in the order in which they are made. Where they are made in the order of the text each of them
is made in its place, and the rest of the text is left as it is. -/
namespace PromptScript

/-- What happens to a span of a text. -/
inductive Change where
  /-- It is left out. -/
  | cut (span : Span)
  /-- The document at a path takes its place, in a closed part with the attributes at some spans. -/
  | inclusion (span : Span) (passed : List Span) (path : String)

namespace Change

def span : Change → Span
  | cut span => span
  | inclusion span _ _ => span

/-- What takes the place of the span, where the texts of documents and of spans are given. -/
def new (included : String → List Char) (slice : Span → List Char) : Change → List Char
  | cut _ => []
  | inclusion _ passed path => Survey.closedText (passed.map slice) (included path)

end Change

/-- Makes changes one after the other. -/
def Splicing.changeAll (included : String → List Char) (sp : Splicing) (changes : List Change) : Splicing :=
  changes.foldl (fun sp change => sp.replace change.span (change.new included sp.slice)) sp

/-- The change that a reference with some attributes makes, if it names a document. -/
def Attribute.changes (span : Span) (attributes : List Attribute) : List Change :=
  (mentioned? attributes).toList.map (.inclusion span ((attributes.filter (·.name != "path")).map Attribute.span))

namespace Node

mutual

/-- The changes in a node, in the order in which a survey makes them. -/
def changes : Node → List Change
  | text _ _ _ | interpolation _ _ _ => []
  | comment span _ _ | config span _ _ => [.cut span]
  | choice _ _ body none _ => changesAll body
  | choice _ _ body (some other) _ => changesAll body ++ changesAll other
  | loop _ _ _ _ body none _ => changesAll body
  | loop _ _ _ _ body (some other) _ => changesAll other ++ changesAll body
  | element span tag attributes body _ => if tag = .reference then Attribute.changes span attributes else changesAll body
  | group _ body _ => changesAll body

def changesAll : List Node → List Change
  | [] => []
  | n :: r => changes n ++ changesAll r

end

mutual

/-- Whether somewhere in the node a loop has changes in its body and in its other part. -/
def tangled : Node → Bool
  | text _ _ _ | comment _ _ _ | config _ _ _ | interpolation _ _ _ => false
  | choice _ _ body none _ => tangledAll body
  | choice _ _ body (some other) _ => tangledAll body || tangledAll other
  | loop _ _ _ _ body none _ => tangledAll body
  | loop _ _ _ _ body (some other) _ =>
    (!(changesAll body).isEmpty && !(changesAll other).isEmpty) || (tangledAll body || tangledAll other)
  | element _ tag _ body _ => !(tag = .reference) && tangledAll body
  | group _ body _ => tangledAll body

def tangledAll : List Node → Bool
  | [] => false
  | n :: r => tangled n || tangledAll r

end

variable {source : List Char}

theorem changes_of_attributes (span : Span) (attributes : List Attribute) :
    (Attribute.changes span attributes).map Change.span = [] ∨ (Attribute.changes span attributes).map Change.span = [span] := by
  unfold Attribute.changes
  cases mentioned? attributes with
  | none => exact .inl rfl
  | some => exact .inr rfl

theorem CutsWithin.single {span : Span} (of : span.Of source) : CutsWithin source span.start span.stop [span] false := by
  refine ⟨Nat.le_of_lt of.proper, ?_, ?_, ?_, by simp⟩
  all_goals
    rintro s (_ | ⟨_, ⟨⟩⟩)
  · exact of
  · exact Nat.le_refl _
  · exact Nat.le_refl _

mutual

theorem changes_within (n : Node) (laid : n.Laid source) (of : n.span.Of source) :
    CutsWithin source n.span.start n.span.stop (n.changes.map Change.span) n.tangled :=
  match n, laid with
  | text _ _ _, _ | interpolation _ _ _, _ => .none (Nat.le_of_lt of.proper)
  | comment span _ _, _ | config span _ _, _ => .single of
  | choice _ _ body none _, ⟨_, _, first, last, laid⟩ => (changesAll_within body laid).widen first last
  | choice _ _ body (some other) _, ⟨_, _, _, _, first, between, last, laid, laid'⟩ => by
    rw [changes, List.map_append]
    exact ((changesAll_within body laid).append (changesAll_within other laid') between).widen first last
  | loop _ _ _ _ body none _, ⟨_, _, first, last, laid⟩ => (changesAll_within body laid).widen first last
  | loop _ _ _ _ body (some other) _, ⟨_, _, _, _, first, between, last, laid, laid'⟩ => by
    have within := ((changesAll_within body laid).swap (changesAll_within other laid') between).widen first last
    rw [List.isEmpty_map, List.isEmpty_map] at within
    rw [changes, List.map_append]
    exact within
  | element span tag attributes body _, ⟨_, _, first, last, laid⟩ => by
    rw [changes, tangled]
    by_cases reference : tag = .reference
    · rw [if_pos reference, decide_eq_true reference]
      rcases changes_of_attributes span attributes with none | one
      · rw [none]
        exact .none (Nat.le_of_lt of.proper)
      · rw [one]
        exact .single of
    · rw [if_neg reference, decide_eq_false reference]
      exact (changesAll_within body laid).widen first last
  | group _ body _, ⟨_, _, first, last, laid⟩ => (changesAll_within body laid).widen first last

theorem changesAll_within {a b : Nat} (nodes : List Node) (laid : LaidAll source a nodes b) :
    CutsWithin source a b ((changesAll nodes).map Change.span) (tangledAll nodes) :=
  match nodes, laid with
  | [], same => .none (Nat.le_of_eq same)
  | n :: r, ⟨start, proper, first, last, laid', rest⟩ => by
    subst start
    rw [changesAll, List.map_append]
    exact (changes_within n laid' ⟨proper, first, last⟩).append (changesAll_within r rest) (Nat.le_refl _)

end

end Node

/-- The attributes that a change passes on lie in its span. -/
def Change.Sound (source : List Char) : Change → Prop
  | .cut _ => True
  | .inclusion span passed _ => ∀ s ∈ passed, s.Within source span.start span.stop

namespace Node

variable {source : List Char}

theorem FaithfulAttributes.within {lo hi : Nat} : ∀ {attributes : List Attribute}, FaithfulAttributes source lo hi attributes →
    ∀ a ∈ attributes, a.span.Within source lo hi
  | .mk _ _ .flag :: _, h, _, .head _ => h.1
  | .mk _ _ (.nodes _) :: _, h, _, .head _ => h.1
  | .mk _ _ .flag :: _, h, a, .tail _ mem => h.2.within a mem
  | .mk _ _ (.nodes _) :: _, h, a, .tail _ mem => h.2.2.2.within a mem

mutual

theorem sound_changes : ∀ (n : Node), n.Faithful source → ∀ change ∈ n.changes, change.Sound source
  | text _ _ _, _ | interpolation _ _ _, _ => nofun
  | comment span _ _, _ | config span _ _, _ => fun _ mem => List.mem_singleton.mp mem ▸ trivial
  | choice _ _ body none _, h => sound_changesAll body h.2
  | choice _ _ body (some other) _, h => fun change mem =>
    (List.mem_append.mp mem).elim (sound_changesAll body h.2.1 change) (sound_changesAll other h.2.2 change)
  | loop _ _ _ _ body none _, h => sound_changesAll body h.2.2.2
  | loop _ _ _ _ body (some other) _, h => fun change mem =>
    (List.mem_append.mp mem).elim (sound_changesAll other h.2.2.2.2 change) (sound_changesAll body h.2.2.2.1 change)
  | element span tag attributes body _, h => fun change mem => by
    rw [changes] at mem
    split at mem
    · obtain ⟨path, -, rfl⟩ := List.mem_map.mp mem
      intro s mem
      obtain ⟨a, passed, rfl⟩ := List.mem_map.mp mem
      exact h.1.within a (List.mem_filter.mp passed).1
    · exact sound_changesAll body h.2 change mem
  | group _ body _, h => sound_changesAll body h

theorem sound_changesAll : ∀ (nodes : List Node), FaithfulAll source nodes → ∀ change ∈ changesAll nodes, change.Sound source
  | [], _ => nofun
  | n :: r, h => fun change mem =>
    (List.mem_append.mp mem).elim (sound_changes n h.1 change) (sound_changesAll r h.2 change)

end

mutual

/-- What the references of a node name is what its changes put in. -/
theorem mem_mentions_iff : ∀ (n : Node) (path : String),
    path ∈ n.mentions ↔ ∃ span passed, .inclusion span passed path ∈ n.changes
  | text _ _ _, _ | interpolation _ _ _, _ | comment _ _ _, _ | config _ _ _, _ => by simp [mentions, changes]
  | choice _ _ body none _, path | loop _ _ _ _ body none _, path | group _ body _, path => mem_mentionsAll_iff body path
  | choice _ _ body (some other) _, path => by
    simp only [mentions, changes, List.mem_append, exists_or, mem_mentionsAll_iff body, mem_mentionsAll_iff other]
  | loop _ _ _ _ body (some other) _, path => by
    simp only [mentions, changes, List.mem_append, exists_or, mem_mentionsAll_iff body, mem_mentionsAll_iff other]
    exact or_comm
  | element span tag attributes body _, path => by
    rw [mentions, changes]
    split
    · simp only [Attribute.changes, List.mem_map, Change.inclusion.injEq]
      exact ⟨fun named => ⟨span, _, path, named, rfl, rfl, rfl⟩, fun ⟨_, _, _, named, _, _, same⟩ => same ▸ named⟩
    · exact mem_mentionsAll_iff body path

theorem mem_mentionsAll_iff : ∀ (nodes : List Node) (path : String),
    path ∈ mentionsAll nodes ↔ ∃ span passed, .inclusion span passed path ∈ changesAll nodes
  | [], _ => by simp [mentionsAll, changesAll]
  | n :: r, path => by
    simp only [mentionsAll, changesAll, List.mem_append, exists_or, mem_mentions_iff n, mem_mentionsAll_iff r]

end

end Node

/-! ## Changes in order -/

namespace Text

/-- What becomes of a text if the spans of changes are replaced where they stand. Its first character has the given
offset. -/
def changed (new : Change → List Char) (changes : List Change) : Nat → List Char → List Char
  | _, [] => []
  | o, c :: r =>
    match changes.find? fun change => change.span.start ≤ o && o < change.span.stop with
    | none => c :: changed new changes (o + c.utf8Size) r
    | some change => (if change.span.start = o then new change else []) ++ changed new changes (o + c.utf8Size) r

variable {new : Change → List Char} {change : Change} {changes : List Change} {o : Nat} {text : List Char}

theorem changed_append (o : Nat) (a b : List Char) :
    changed new changes o (a ++ b) = changed new changes o a ++ changed new changes (o + byteLength a) b := by
  induction a generalizing o with
  | nil => rfl
  | cons c r ih =>
    simp only [List.cons_append, changed, byteLength, ih, Nat.add_assoc]
    split
    · rfl
    · rw [List.append_assoc]

/-- Text that no span covers is left. -/
theorem changed_eq_self (apart : ∀ change ∈ changes, change.span.stop ≤ o ∨ o + byteLength text ≤ change.span.start) :
    changed new changes o text = text := by
  induction text generalizing o with
  | nil => rfl
  | cons c r ih =>
    have size := c.utf8Size_pos
    simp only [byteLength] at apart
    have out : (changes.find? fun change => change.span.start ≤ o && o < change.span.stop) = none := by
      rw [List.find?_eq_none]
      intro change mem inside
      have := apart change mem
      simp only [Bool.and_eq_true, decide_eq_true_eq] at inside
      omega
    rw [changed, out, ih fun change mem => by have := apart change mem; omega]

/-- The text that the span of the first change covers is gone, behind where it starts. -/
theorem changed_inside (start : change.span.start < o) (stop : o + byteLength text ≤ change.span.stop) :
    changed new (change :: changes) o text = [] := by
  induction text generalizing o with
  | nil => rfl
  | cons c r ih =>
    have size := c.utf8Size_pos
    simp only [byteLength] at stop
    have inside : (decide (change.span.start ≤ o) && decide (o < change.span.stop)) = true := by
      rw [Bool.and_eq_true, decide_eq_true_eq, decide_eq_true_eq]
      omega
    rw [changed, List.find?_cons, inside]
    show (if change.span.start = o then new change else []) ++ _ = []
    rw [if_neg (Nat.ne_of_lt start), ih (by omega) (by omega)]
    rfl

/-- The text that the span of the first change covers is replaced. -/
theorem changed_span (proper : change.span.start < change.span.stop)
    (stop : change.span.start + byteLength text = change.span.stop) :
    changed new (change :: changes) change.span.start text = new change := by
  cases text with
  | nil =>
    simp only [byteLength] at stop
    omega
  | cons c r =>
    have size := c.utf8Size_pos
    simp only [byteLength] at stop
    have inside : (decide (change.span.start ≤ change.span.start) && decide (change.span.start < change.span.stop)) = true := by
      rw [Bool.and_eq_true, decide_eq_true_eq, decide_eq_true_eq]
      omega
    rw [changed, List.find?_cons, inside]
    show (if change.span.start = change.span.start then new change else []) ++ _ = new change
    rw [if_pos rfl, changed_inside (by omega) (by omega), List.append_nil]

/-- Behind its span a change is of no account. -/
theorem changed_cons (before : change.span.stop ≤ o) : changed new (change :: changes) o text = changed new changes o text := by
  induction text generalizing o with
  | nil => rfl
  | cons c r ih =>
    have out : (decide (change.span.start ≤ o) && decide (o < change.span.stop)) = false := by
      rw [Bool.and_eq_false_iff, decide_eq_false_iff_not, decide_eq_false_iff_not]
      omega
    rw [changed, changed, List.find?_cons, out, ih (Nat.le_trans before (Nat.le_add_right ..))]

end Text

namespace Splicing

variable {source kept gone rest : List Char} {sp : Splicing} {included : String → List Char}

/-- What a change puts in is made of the text of the source, if what is replaced before lies before it. -/
theorem Upto.new_eq (included : String → List Char) (h : Upto source kept gone rest sp) {change : Change} (sound : change.Sound source)
    (after : Text.byteLength gone ≤ change.span.start) : change.new included sp.slice = change.new included (Text.slice source) := by
  cases change with
  | cut => rfl
  | inclusion span passed path =>
    refine congrArg (Survey.closedText · (included path)) (List.map_congr_left fun s mem => ?_)
    have within := sound s mem
    obtain ⟨before, behind, text, place⟩ := h.takes ⟨Nat.le_of_lt within.forward, within.first, within.last⟩
      (Nat.le_trans after within.start)
    show Text.slice sp.text (sp.place s) = _
    rw [text, place, Text.slice]
    dsimp only
    rw [List.append_assoc, Text.takeBytes_append, Text.dropBytes_append, Nat.add_sub_cancel_left, Text.takeBytes_append]

/-- Changes whose spans lie in order behind what has been replaced. -/
theorem Upto.changeAll (h : Upto source kept gone rest sp) {changes : List Change}
    (ordered : (changes.map Change.span).Pairwise Span.Before) (of : ∀ change ∈ changes, change.span.Of source)
    (sound : ∀ change ∈ changes, change.Sound source) (after : ∀ change ∈ changes, Text.byteLength gone ≤ change.span.start) :
    (sp.changeAll included changes).text =
      kept ++ Text.changed (Change.new included (Text.slice source)) changes (Text.byteLength gone) rest := by
  induction changes generalizing kept gone rest sp with
  | nil =>
    rw [Text.changed_eq_self (List.forall_mem_nil _)]
    exact h.text_eq
  | cons change changes ih =>
    obtain ⟨first, ordered⟩ := List.pairwise_cons.mp ordered
    obtain ⟨between, part, rest', rfl, start, stop⟩ := h.split (of change List.mem_cons_self).fits (after change List.mem_cons_self)
    have next := h.replace start stop (change.new included sp.slice)
    have behind : ∀ other ∈ changes, change.span.stop ≤ other.span.start := fun other mem =>
      first _ (List.mem_map_of_mem mem)
    show ((sp.replace change.span (change.new included sp.slice)).changeAll included changes).text = _
    rw [ih next ordered (fun other mem => of other (List.mem_cons_of_mem _ mem))
      (fun other mem => sound other (List.mem_cons_of_mem _ mem)) fun other mem => stop ▸ behind other mem]
    have proper := (of change List.mem_cons_self).proper
    have place : Text.byteLength gone + Text.byteLength between = change.span.start := by
      rw [start, Text.byteLength_append]
    have covers : change.span.start + Text.byteLength part = change.span.stop := by
      rw [stop, start, Text.byteLength_append _ part]
    have same := h.new_eq included (sound change List.mem_cons_self) (after change List.mem_cons_self)
    have apart : ∀ other ∈ change :: changes,
        other.span.stop ≤ Text.byteLength gone ∨ Text.byteLength gone + Text.byteLength between ≤ other.span.start := by
      intro other mem
      rw [place]
      rcases List.mem_cons.mp mem with rfl | mem
      · exact .inr (Nat.le_refl _)
      · exact .inr (Nat.le_trans (Nat.le_of_lt proper) (behind other mem))
    have left : Text.changed (Change.new included (Text.slice source)) (change :: changes) (Text.byteLength gone)
        (between ++ (part ++ rest')) = between ++ (change.new included (Text.slice source) ++
          Text.changed (Change.new included (Text.slice source)) changes change.span.stop rest') := by
      rw [Text.changed_append, Text.changed_append, Text.changed_eq_self apart, place, Text.changed_span proper covers, covers,
        Text.changed_cons (Nat.le_refl _)]
    rw [List.append_assoc between, left, same, ← stop]
    simp only [List.append_assoc]

end Splicing

end PromptScript
