import PromptScript.Proofs.Layout

/-! # Attributes as they are read

The values of attributes are read as texts and interpolations, and nothing else. The type of nodes says less. No two
attributes of a tag have one name. Nothing that is read has marks. What holds of all such nodes, as far as it holds of the nodes in them, holds of a document
(`Grammar.Built`). -/
namespace PromptScript

/-- Whether a node is one of those that attributes are read as. -/
def Node.isPart : Node → Bool
  | text .. | interpolation .. => true
  | _ => false

/-- The names of attributes. -/
def Attribute.names (attributes : List Attribute) : List String := attributes.map name

/-- Whether an attribute holds texts and interpolations only. -/
def Attribute.isPlain : Attribute → Bool
  | .mk _ _ .flag => true
  | .mk _ _ (.nodes parts) => parts.all Node.isPart

/-- Whether all parts of an attribute are good. -/
def Attribute.Holds (good : Node → Prop) : Attribute → Prop
  | .mk _ _ .flag => True
  | .mk _ _ (.nodes parts) => ∀ n ∈ parts, good n

theorem Attribute.isPlain_of_holds {a : Attribute} (h : a.Holds fun n => n.isPart = true) : a.isPlain = true := by
  obtain ⟨span, name, _ | parts⟩ := a
  · rfl
  · exact List.all_eq_true.mpr h

namespace Node

mutual

/-- Whether all attributes in a node hold texts and interpolations only. -/
def isPlain : Node → Bool
  | text _ _ _ | comment _ _ _ | config _ _ _ | interpolation _ _ _ => true
  | group _ body _ | choice _ _ body none _ | loop _ _ _ _ body none _ => allPlain body
  | choice _ _ body (some other) _ | loop _ _ _ _ body (some other) _ => allPlain body && allPlain other
  | element _ _ attributes body _ => attributes.all Attribute.isPlain && allPlain body

def allPlain : List Node → Bool
  | [] => true
  | n :: r => isPlain n && allPlain r

end

theorem allPlain_of_forall {nodes : List Node} (h : ∀ n ∈ nodes, n.isPlain = true) : allPlain nodes = true := by
  induction nodes with
  | nil => rfl
  | cons n r ih =>
    obtain ⟨first, rest⟩ := List.forall_mem_cons.mp h
    exact Bool.and_eq_true_iff.mpr ⟨first, ih rest⟩

end Node

/-- All that a reading gives is good. -/
def Finds {α : Type} (good : α → Prop) (r : Reading α) : Prop := ∀ c a c', Gives r c a c' → good a

namespace Finds

variable {α β : Type} {good : α → Prop} {fine : β → Prop}

theorem pure {a : α} (h : good a) : Finds good (Pure.pure a : Reading α) := by
  intro c b c' gives
  obtain ⟨rfl, -⟩ := gives_pure.mp gives
  exact h

theorem bind {x : Reading α} {f : α → Reading β} (hx : Finds good x) (hf : ∀ a, good a → Finds fine (f a)) :
    Finds fine (x >>= f) := by
  intro c b c' gives
  obtain ⟨a, c₁, first, second⟩ := gives_bind.mp gives
  exact hf a (hx _ _ _ first) _ _ _ second

/-- What comes before does not matter. -/
theorem after {x : Reading α} {f : α → Reading β} (hf : ∀ a, Finds fine (f a)) : Finds fine (x >>= f) :=
  bind (fun _ _ _ _ => trivial : Finds (fun _ => True) x) fun a _ => hf a

theorem ite {p : Prop} [Decidable p] {x y : Reading α} (hx : Finds good x) (hy : Finds good y) :
    Finds good (if p then x else y) := by
  split
  · exact hx
  · exact hy

theorem failAt (defect : Defect) (span : Span) : Finds good (Grammar.failAt defect span) :=
  fun _ _ _ gives => (Grammar.not_gives_failAt gives).elim

theorem failHere (message : String) : Finds good (Grammar.failHere message) :=
  fun _ _ _ gives => (Grammar.not_gives_failHere gives).elim

theorem failEnd : Finds good (Grammar.failEnd : Reading α) := fun _ _ _ gives => (Grammar.not_gives_failEnd gives).elim

end Finds

namespace Grammar

/-- What holds of the texts and interpolations that attributes are read as. -/
structure BuiltPart (good : Node → Prop) : Prop where
  text (span : Span) (data : String) : good (.text span data none)
  value (span : Span) (e : Expr) : good (.interpolation span e none)

/-- What holds of the texts and interpolations that attributes are read as, if their expressions are fine. -/
structure PartFrom (fine : Expr → Prop) (good : Node → Prop) : Prop where
  text (span : Span) (data : String) : good (.text span data none)
  value (span : Span) {e : Expr} (holds : fine e) : good (.interpolation span e none)

namespace PartFrom

variable {fine : Expr → Prop} {good : Node → Prop} (h : PartFrom fine good) (expr : Finds fine readExpr)
include h

theorem attributeText (start stop : Nat) (data : List Char) : ∀ n ∈ attributeText start stop data, good n := by
  unfold Grammar.attributeText
  split
  · exact fun _ member => absurd member List.not_mem_nil
  · exact List.forall_mem_singleton.mpr (h.text _ _)

include expr

theorem readInterpolation (start : Nat) : Finds good (readInterpolation start) :=
  .after fun _ => expr.bind fun _ holds => .after fun _ => .after fun _ => .pure (h.value _ holds)

theorem readQuoted (opening : Nat) (quote : Char) (fuel start : Nat) (data : List Char) :
    Finds (fun parts => ∀ n ∈ parts, good n) (readQuoted opening quote fuel start data) := by
  induction fuel generalizing start data with
  | zero => exact .failEnd
  | succ fuel ih =>
    refine .after fun text => ?_
    cases text with
    | nil => exact .after fun _ => .failAt _ _
    | cons c r =>
      refine .ite (.after fun _ => .pure (h.attributeText _ _ _)) (.ite ?_ (.ite ?_ (.after fun _ => ih _ _)))
      · cases r with
        | nil => exact .after fun _ => ih _ _
        | cons => exact .after fun _ => ih _ _
      · refine .after fun here => .after fun _ => (h.readInterpolation expr here).bind fun value part => .after fun _ => ?_
        refine (ih _ _).bind fun more rest => .pure ?_
        exact List.forall_mem_append.mpr ⟨h.attributeText _ _ _, List.forall_mem_cons.mpr ⟨part, rest⟩⟩

theorem readQuotedValue (quote : Char) : Finds (fun parts => ∀ n ∈ parts, good n) (readQuotedValue quote) := by
  refine .after fun _ => .after fun _ => .after fun start => .after fun _ => ?_
  refine (h.readQuoted expr _ _ _ _ _).bind fun parts all => .after fun stop => .after fun _ => .pure ?_
  split
  · exact List.forall_mem_singleton.mpr (h.text _ _)
  · exact all

theorem readAttribute : Finds (Attribute.Holds good) readAttribute := by
  refine .after fun start => .after fun name => .ite (.after fun _ => .failHere _) ?_
  refine .after fun bare => .after fun _ => .after fun next => .ite (.after fun _ => .pure trivial) ?_
  refine .after fun _ => .after fun _ => Finds.bind ?_ fun parts (all : ∀ n ∈ parts, good n) =>
    .after fun stop => .pure all
  refine .after fun text => ?_
  split
  · exact .after fun _ => .failAt _ _
  · exact h.readQuotedValue expr _
  · exact h.readQuotedValue expr _
  · refine .after fun here => .after fun _ => (h.readInterpolation expr here).bind fun n part => .pure ?_
    exact List.forall_mem_singleton.mpr part
  · exact .failHere _

theorem readAttributes (start fuel : Nat) {found : List Attribute} (before : ∀ a ∈ found, a.Holds good) :
    Finds (fun r => ∀ a ∈ r.1, a.Holds good) (readAttributes start fuel found) := by
  induction fuel generalizing found with
  | zero => exact .failEnd
  | succ fuel ih =>
    refine .after fun _ => .after fun text => ?_
    split
    · exact .after fun _ => .failAt _ _
    · exact .after fun _ => .pure before
    · exact .after fun _ => .pure before
    · refine (h.readAttribute expr).bind fun next one => .ite (.failAt _ _) (ih ?_)
      exact List.forall_mem_append.mpr ⟨before, List.forall_mem_singleton.mpr one⟩

end PartFrom

/-- Attributes that are read have names of their own. -/
theorem unique_readAttributes (start fuel : Nat) {found : List Attribute} (before : (Attribute.names found).Nodup) :
    Finds (fun r => (Attribute.names r.1).Nodup) (readAttributes start fuel found) := by
  induction fuel generalizing found with
  | zero => exact .failEnd
  | succ fuel ih =>
    refine .after fun _ => .after fun text => ?_
    split
    · exact .after fun _ => .failAt _ _
    · exact .after fun _ => .pure before
    · exact .after fun _ => .pure before
    · refine .after fun next => ?_
      split
      · exact .failAt _ _
      · next new =>
        refine ih ?_
        have new : next.name ∉ Attribute.names found := by simpa [Attribute.names] using new
        unfold Attribute.names at before new ⊢
        rw [List.map_append, List.map_singleton, List.nodup_append]
        refine ⟨before, List.nodup_cons.mpr ⟨List.not_mem_nil, List.nodup_nil⟩, fun x there y here => ?_⟩
        rw [List.mem_singleton.mp here]
        exact fun same => new (same ▸ there)

/-- What holds of all nodes that are read: they have no marks, and what is in them is read. -/
structure Built (part good : Node → Prop) : Prop extends BuiltPart part where
  words (span : Span) (data : String) : good (.text span data none)
  comment (span : Span) (data : String) : good (.comment span data none)
  header (span : Span) (data : String) : good (.config span data none)
  interpolation (span : Span) (e : Expr) : good (.interpolation span e none)
  choice (span : Span) (test : Expr) {body : List Node} {other : Option (List Node)} (inside : ∀ n ∈ body, good n)
    (beside : ∀ nodes, other = some nodes → ∀ n ∈ nodes, good n) : good (.choice span test body other none)
  loop (span : Span) (items : Expr) (item : Binding) (index : Option Binding) {body : List Node}
    {other : Option (List Node)} (inside : ∀ n ∈ body, good n)
    (beside : ∀ nodes, other = some nodes → ∀ n ∈ nodes, good n) : good (.loop span items item index body other none)
  element (span : Span) (tag : Tag) {attributes : List Attribute} {body : List Node}
    (parts : ∀ a ∈ attributes, a.Holds part) (once : (Attribute.names attributes).Nodup) (inside : ∀ n ∈ body, good n) :
    good (.element span tag attributes body none)

/-- What holds of all nodes that are read if their expressions are fine. -/
structure BuiltFrom (fine : Expr → Prop) (part good : Node → Prop) : Prop extends PartFrom fine part where
  words (span : Span) (data : String) : good (.text span data none)
  comment (span : Span) (data : String) : good (.comment span data none)
  header (span : Span) (data : String) : good (.config span data none)
  interpolation (span : Span) {e : Expr} (holds : fine e) : good (.interpolation span e none)
  choice (span : Span) {test : Expr} (holds : fine test) {body : List Node} {other : Option (List Node)}
    (inside : ∀ n ∈ body, good n) (beside : ∀ nodes, other = some nodes → ∀ n ∈ nodes, good n) :
    good (.choice span test body other none)
  loop (span : Span) {items : Expr} (holds : fine items) (item : Binding) (index : Option Binding) {body : List Node}
    {other : Option (List Node)} (inside : ∀ n ∈ body, good n)
    (beside : ∀ nodes, other = some nodes → ∀ n ∈ nodes, good n) : good (.loop span items item index body other none)
  element (span : Span) (tag : Tag) {attributes : List Attribute} {body : List Node}
    (parts : ∀ a ∈ attributes, a.Holds part) (once : (Attribute.names attributes).Nodup) (inside : ∀ n ∈ body, good n) :
    good (.element span tag attributes body none)

/-- What holds of all nodes that are read does so whatever their expressions. -/
theorem Built.anyExpr {part good : Node → Prop} (h : Built part good) : BuiltFrom (fun _ => True) part good where
  text := h.text
  value span e _ := h.value span e
  words := h.words
  comment := h.comment
  header := h.header
  interpolation span e _ := h.interpolation span e
  choice span test _ _ _ inside beside := h.choice span test inside beside
  loop span items _ item index _ _ inside beside := h.loop span items item index inside beside
  element span tag _ _ parts once inside := h.element span tag parts once inside

/-- All nodes in what is read are good. -/
def Part.Holds (good : Node → Prop) : Part → Prop
  | .nodes _ _ body _ _ => ∀ n ∈ body, good n
  | .next _ _ (.node n _) => good n
  | .next _ _ (.ending _) => True
  | .block _ _ _ n _ | .element _ _ n _ => good n
  | .branches _ _ body other _ => (∀ n ∈ body, good n) ∧ ∀ nodes, other = some nodes → ∀ n ∈ nodes, good n

theorem unique_attributes {tag : Tag} {c c' : Cursor} {attributes : List Attribute} {alone : Bool}
    (reads : HasAttributes tag c attributes alone c') : (Attribute.names attributes).Nodup := by
  have none : (Attribute.names []).Nodup := List.nodup_nil
  exact unique_readAttributes _ _ none _ _ _ reads

section Built

variable {fine : Expr → Prop} {part good : Node → Prop} (h : BuiltFrom fine part good) (expr : Finds fine readExpr)
include h expr

theorem BuiltFrom.attributes {tag : Tag} {c c' : Cursor} {attributes : List Attribute} {alone : Bool}
    (reads : HasAttributes tag c attributes alone c') : ∀ a ∈ attributes, a.Holds part :=
  h.readAttributes expr _ _ (fun _ member => absurd member List.not_mem_nil) _ _ _ reads

theorem BuiltFrom.readInterpolation (start : Nat) : Finds good (readInterpolation start) :=
  .after fun _ => expr.bind fun _ holds => .after fun _ => .after fun _ => .pure (h.interpolation _ holds)

omit h in
theorem finds_readChoiceHead : Finds fine readChoiceHead :=
  .after fun _ => expr.bind fun _ holds => .after fun _ => .pure holds

omit h in
theorem finds_readLoopHead : Finds (fun head => fine head.items) readLoopHead := by
  refine .after fun _ => .after fun item => .after fun _ => .after fun index => .after fun _ => .after fun found => ?_
  refine .ite ?_ (.failHere _)
  exact .after fun _ => .after fun _ => expr.bind fun _ holds => .after fun _ => .pure holds

theorem BuiltFrom.of_reads {read : Part} {c c' : Cursor} (reads : Reads read c c') : read.Holds good := by
  induction reads with
  | done => exact fun _ member => absurd member List.not_mem_nil
  | source | mark | close => trivial
  | more _ _ ih ih' => exact List.forall_mem_cons.mpr ⟨ih, ih'⟩
  | block _ _ _ ih => exact ih
  | value _ _ reads => exact h.readInterpolation expr _ _ _ _ reads
  | comment _ reads =>
    obtain ⟨data, rfl, -⟩ := readComment_gives reads
    exact h.comment _ data
  | tag _ _ ih => exact ih
  | header _ reads =>
    obtain ⟨data, rfl, -⟩ := readHeader_gives reads
    exact h.header _ data
  | text lead reads =>
    obtain ⟨data, rfl, -⟩ := readText_gives (rest_ne_nil (by rw [lead]; exact nofun)) reads
    exact h.words _ data
  | choice head _ ih => exact h.choice _ (finds_readChoiceHead expr _ _ _ head) ih.1 ih.2
  | loop heads _ ih => exact h.loop _ (finds_readLoopHead expr _ _ _ heads) _ _ ih.1 ih.2
  | single _ _ ih => exact ⟨ih, by rintro _ ⟨⟩⟩
  | double _ _ _ ih ih' => exact ⟨ih, by rintro _ ⟨⟩; exact ih'⟩
  | alone head =>
    exact h.element _ _ (h.attributes expr head) (unique_attributes head) fun _ member => absurd member List.not_mem_nil
  | around head _ ih => exact h.element _ _ (h.attributes expr head) (unique_attributes head) ih

theorem BuiltFrom.of_parse {source : List Char} {d : Document} (parsed : Document.parse source = .ok d) :
    ∀ n ∈ d.body, good n := by
  obtain ⟨seen, c, reads, -, -⟩ := reads_of_parse parsed
  exact h.of_reads expr reads

end Built

theorem Built.of_parse {part good : Node → Prop} (h : Built part good) {source : List Char} {d : Document}
    (parsed : Document.parse source = .ok d) : ∀ n ∈ d.body, good n :=
  h.anyExpr.of_parse (fun _ _ _ _ => trivial) parsed

theorem built_plain : Built (fun n => n.isPart = true) (fun n => n.isPlain = true) where
  text _ _ := rfl
  value _ _ := rfl
  words _ _ := rfl
  comment _ _ := rfl
  header _ _ := rfl
  interpolation _ _ := rfl
  choice _ _ _ other inside beside := by
    cases other with
    | none => exact Node.allPlain_of_forall inside
    | some nodes =>
      exact Bool.and_eq_true_iff.mpr ⟨Node.allPlain_of_forall inside, Node.allPlain_of_forall (beside nodes rfl)⟩
  loop _ _ _ _ _ other inside beside := by
    cases other with
    | none => exact Node.allPlain_of_forall inside
    | some nodes =>
      exact Bool.and_eq_true_iff.mpr ⟨Node.allPlain_of_forall inside, Node.allPlain_of_forall (beside nodes rfl)⟩
  element _ _ _ _ parts _ inside := Bool.and_eq_true_iff.mpr
    ⟨List.all_eq_true.mpr fun a member => Attribute.isPlain_of_holds (parts a member), Node.allPlain_of_forall inside⟩

/-- A document that has just been read has texts and interpolations in its attributes and nothing else. -/
theorem plain_of_parse {source : List Char} {d : Document} (h : Document.parse source = .ok d) :
    Node.allPlain d.body = true := Node.allPlain_of_forall (built_plain.of_parse h)

end Grammar
end PromptScript
