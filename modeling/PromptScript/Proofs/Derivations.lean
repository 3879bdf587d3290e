import PromptScript.Proofs.Readings

/-! # Derivations of documents

The grammar of nodes as a relation: what is read from one cursor to another, with the parts it is read from. A
reading that succeeds has a derivation, and what holds of all that the grammar reads is proved by induction on it,
without the bound on the depth of the reading. -/
namespace PromptScript.Grammar

/-- What is read: nodes with what ends them, what comes next among nodes, a block after its word, the branches of a
block, and a tag. `seen` is what is known of the document before and after it. -/
inductive Part where
  | nodes (root : Bool) (seen : Seen) (body : List Node) (ending : Ending) (seen' : Seen)
  | next (root : Bool) (seen : Seen) (next : Next)
  | block (b : Block) (start : Nat) (seen : Seen) (node : Node) (seen' : Seen)
  | branches (b : Block) (seen : Seen) (body : List Node) (otherwise : Option (List Node)) (seen' : Seen)
  | element (tag : Tag) (seen : Seen) (node : Node) (seen' : Seen)

/-- The cursor after two braces and the blanks that follow them. -/
def afterBraces (c : Cursor) : Cursor := (c.skip 2).skipWhile isSpace

/-- The cursor after the name of a tag. -/
def afterName (tag : Tag) (c : Cursor) : Cursor := c.skip (1 + tag.name.length)

/-- The attributes of a tag that starts at one cursor, read from after its name up to another; `alone` tells whether
the tag closes itself. -/
def HasAttributes (tag : Tag) (c : Cursor) (attributes : List Attribute) (alone : Bool) (c' : Cursor) : Prop :=
  Gives (readAttributes c.offset ((afterName tag c).rest.length + 1) []) (afterName tag c) (attributes, alone) c'

inductive Reads : Part → Cursor → Cursor → Prop
  | done {root seen e c c'} (last : Reads (.next root seen (.ending e)) c c') :
      Reads (.nodes root seen [] e seen) c c'
  | more {root seen seen₁ seen₂ n r e c c₁ c₂} (first : Reads (.next root seen (.node n seen₁)) c c₁)
      (rest : Reads (.nodes root seen₁ r e seen₂) c₁ c₂) : Reads (.nodes root seen (n :: r) e seen₂) c c₂
  | source {root seen c} (lead : leadOf root seen c.rest = .nothing) :
      Reads (.next root seen (.ending .source)) c c
  | mark {root seen e length u c c'} (lead : leadOf root seen c.rest = .braces)
      (opens : openingAt (afterBraces c).rest = (.ending e, length))
      (closes : Gives expectClose ((afterBraces c).skip length) u c') :
      Reads (.next root seen (.ending (e ⟨c.offset, c'.offset⟩))) c c'
  | close {root seen tag span c c'} (lead : leadOf root seen c.rest = .close tag)
      (closes : Gives (readClosing tag) c span c') : Reads (.next root seen (.ending (.close tag span))) c c'
  | block {root seen seen' b length node c c'} (lead : leadOf root seen c.rest = .braces)
      (opens : openingAt (afterBraces c).rest = (.block b, length))
      (reads : Reads (.block b c.offset seen node seen') ((afterBraces c).skip length) c') :
      Reads (.next root seen (.node node seen')) c c'
  | value {root seen length node c c'} (lead : leadOf root seen c.rest = .braces)
      (opens : openingAt (afterBraces c).rest = (.value, length))
      (reads : Gives (readInterpolation c.offset) ((afterBraces c).skip length) node c') :
      Reads (.next root seen (.node node seen)) c c'
  | comment {root seen opening closing node c c'} (lead : leadOf root seen c.rest = .comment opening closing)
      (reads : Gives (readComment opening closing) c node c') : Reads (.next root seen (.node node seen)) c c'
  | tag {root seen seen' tag node c c'} (lead : leadOf root seen c.rest = .tag tag)
      (reads : Reads (.element tag seen node seen') c c') : Reads (.next root seen (.node node seen')) c c'
  | header {root seen node c c'} (lead : leadOf root seen c.rest = .header) (reads : Gives readHeader c node c') :
      Reads (.next root seen (.node node { seen with header := true })) c c'
  | text {root seen node content c c'} (lead : leadOf root seen c.rest = .text)
      (reads : Gives (readText seen.content) c (node, content) c') :
      Reads (.next root seen (.node node { seen with content := content })) c c'
  | choice {start seen seen' test body otherwise c c₁ c'} (head : Gives readChoiceHead c test c₁)
      (reads : Reads (.branches .choice seen body otherwise seen') c₁ c') :
      Reads (.block .choice start seen (.choice ⟨start, c'.offset⟩ test body otherwise none) seen') c c'
  | loop {start seen seen' body otherwise c c₁ c'} {head : LoopHead} (heads : Gives readLoopHead c head c₁)
      (reads : Reads (.branches .loop seen body otherwise seen') c₁ c') :
      Reads (.block .loop start seen
        (.loop ⟨start, c'.offset⟩ head.items head.item head.index body otherwise none) seen') c c'
  | single {b seen seen' body e c c'} (reads : Reads (.nodes false seen body e seen') c c')
      (ends : b.endedBy e = true) : Reads (.branches b seen body none seen') c c'
  | double {b seen seen₁ seen₂ body other span e c c₁ c'}
      (reads : Reads (.nodes false seen body (.elseMark span) seen₁) c c₁)
      (others : Reads (.nodes false seen₁ other e seen₂) c₁ c') (ends : b.endedBy e = true) :
      Reads (.branches b seen body (some other) seen₂) c c'
  | alone {tag seen attributes c c'} (head : HasAttributes tag c attributes true c') :
      Reads (.element tag seen (.element ⟨c.offset, c'.offset⟩ tag attributes [] none) seen) c c'
  | around {tag seen seen' attributes body span c c₁ c'} (head : HasAttributes tag c attributes false c₁)
      (reads : Reads (.nodes false seen body (.close tag span) seen') c₁ c') :
      Reads (.element tag seen (.element ⟨c.offset, c'.offset⟩ tag attributes body none) seen') c c'

theorem not_gives_failEnding {α : Type} {name : String} {start : Nat} {ending : Ending} {c c' : Cursor} {a : α} :
    ¬ Gives (failEnding name start ending) c a c' := by
  cases ending with
  | source =>
    intro h
    obtain ⟨_, _, _, h⟩ := gives_bind.mp h
    exact not_gives_failAt h
  | elseMark span => exact not_gives_failAt
  | endIf span => exact not_gives_failAt
  | endFor span => exact not_gives_failAt
  | close tag span => exact not_gives_failAt

/-! ## Readings have derivations -/

/-- The readings up to a bound on their depth have derivations. -/
structure Derives (fuel : Nat) : Prop where
  nodes {root seen body e seen' c c'} (h : Gives (readNodes fuel root seen) c (body, e, seen') c') :
    Reads (.nodes root seen body e seen') c c'
  next {root seen next c c'} (h : Gives (readNext fuel root seen) c next c') : Reads (.next root seen next) c c'
  block {b start seen node seen' c c'} (h : Gives (readBlock fuel b start seen) c (node, seen') c') :
    Reads (.block b start seen node seen') c c'
  branches {b start seen body otherwise seen' c c'}
    (h : Gives (readBranches fuel b start seen) c (body, otherwise, seen') c') :
    Reads (.branches b seen body otherwise seen') c c'
  element {tag seen node seen' c c'} (h : Gives (readElement fuel tag seen) c (node, seen') c') :
    Reads (.element tag seen node seen') c c'

namespace Derives

variable {fuel : Nat} (ih : Derives fuel)

include ih

theorem readNodes {root seen body e seen' c c'}
    (h : Gives (Grammar.readNodes (fuel + 1) root seen) c (body, e, seen') c') :
    Reads (.nodes root seen body e seen') c c' := by
  obtain ⟨next, c₁, first, h⟩ := gives_bind.mp h
  have first := ih.next first
  cases next with
  | ending ending =>
    obtain ⟨same, rfl⟩ := gives_pure.mp h
    cases same
    exact .done first
  | node node seen₁ =>
    obtain ⟨⟨r, e', seen₂⟩, c₂, rest, h⟩ := gives_bind.mp h
    obtain ⟨same, rfl⟩ := gives_pure.mp h
    cases same
    exact .more first (ih.nodes rest)

theorem readNext {root seen next c c'} (h : Gives (Grammar.readNext (fuel + 1) root seen) c next c') :
    Reads (.next root seen next) c c' := by
  obtain ⟨start, c₁, here, h⟩ := gives_bind.mp h
  obtain ⟨rfl, rfl⟩ := gives_offset.mp here
  obtain ⟨text, c₁, here, h⟩ := gives_bind.mp h
  obtain ⟨rfl, rfl⟩ := gives_rest.mp here
  split at h
  · next lead =>
    obtain ⟨rfl, rfl⟩ := gives_pure.mp h
    exact .source lead
  · next lead =>
    obtain ⟨_, c₁, skips, h⟩ := gives_bind.mp h
    obtain rfl := gives_skip.mp skips
    obtain ⟨_, c₁, skips, h⟩ := gives_bind.mp h
    obtain rfl := gives_skipSpaces.mp skips
    obtain ⟨text, c₁, here, h⟩ := gives_bind.mp h
    obtain ⟨rfl, rfl⟩ := gives_rest.mp here
    generalize opens : openingAt _ = opening at h
    obtain ⟨opening, length⟩ := opening
    obtain ⟨_, c₁, skips, h⟩ := gives_bind.mp h
    obtain rfl := gives_skip.mp skips
    cases opening with
    | ending e =>
      obtain ⟨_, c₁, closes, h⟩ := gives_bind.mp h
      obtain ⟨_, c₁, here, h⟩ := gives_bind.mp h
      obtain ⟨rfl, rfl⟩ := gives_offset.mp here
      obtain ⟨rfl, rfl⟩ := gives_pure.mp h
      exact .mark lead opens closes
    | block b =>
      obtain ⟨⟨node, seen'⟩, c₁, reads, h⟩ := gives_bind.mp h
      obtain ⟨rfl, rfl⟩ := gives_pure.mp h
      exact .block lead opens (ih.block reads)
    | value =>
      obtain ⟨node, c₁, reads, h⟩ := gives_bind.mp h
      obtain ⟨rfl, rfl⟩ := gives_pure.mp h
      exact .value lead opens reads
  · next lead =>
    obtain ⟨node, c₁, reads, h⟩ := gives_bind.mp h
    obtain ⟨rfl, rfl⟩ := gives_pure.mp h
    exact .comment lead reads
  · next lead =>
    obtain ⟨span, c₁, closes, h⟩ := gives_bind.mp h
    obtain ⟨rfl, rfl⟩ := gives_pure.mp h
    exact .close lead closes
  · next lead =>
    obtain ⟨⟨node, seen'⟩, c₁, reads, h⟩ := gives_bind.mp h
    obtain ⟨rfl, rfl⟩ := gives_pure.mp h
    exact .tag lead (ih.element reads)
  · exact (not_gives_failAt h).elim
  · next lead =>
    obtain ⟨node, c₁, reads, h⟩ := gives_bind.mp h
    obtain ⟨rfl, rfl⟩ := gives_pure.mp h
    exact .header lead reads
  · next lead =>
    obtain ⟨⟨node, content⟩, c₁, reads, h⟩ := gives_bind.mp h
    obtain ⟨rfl, rfl⟩ := gives_pure.mp h
    exact .text lead reads

theorem readBlock {b start seen node seen' c c'}
    (h : Gives (Grammar.readBlock (fuel + 1) b start seen) c (node, seen') c') :
    Reads (.block b start seen node seen') c c' := by
  cases b with
  | choice =>
    obtain ⟨test, c₁, head, h⟩ := gives_bind.mp h
    obtain ⟨⟨body, otherwise, seen₁⟩, c₂, reads, h⟩ := gives_bind.mp h
    obtain ⟨_, c₃, here, h⟩ := gives_bind.mp h
    obtain ⟨rfl, rfl⟩ := gives_offset.mp here
    obtain ⟨same, rfl⟩ := gives_pure.mp h
    cases same
    exact .choice head (ih.branches reads)
  | loop =>
    obtain ⟨head, c₁, heads, h⟩ := gives_bind.mp h
    obtain ⟨⟨body, otherwise, seen₁⟩, c₂, reads, h⟩ := gives_bind.mp h
    obtain ⟨_, c₃, here, h⟩ := gives_bind.mp h
    obtain ⟨rfl, rfl⟩ := gives_offset.mp here
    obtain ⟨same, rfl⟩ := gives_pure.mp h
    cases same
    exact .loop heads (ih.branches reads)

theorem readBranches {b start seen body otherwise seen' c c'}
    (h : Gives (Grammar.readBranches (fuel + 1) b start seen) c (body, otherwise, seen') c') :
    Reads (.branches b seen body otherwise seen') c c' := by
  obtain ⟨⟨body', ending, seen₁⟩, c₁, reads, h⟩ := gives_bind.mp h
  have reads := ih.nodes reads
  -- Anything but an `else` has to be what the block ends with.
  have alone (h : Gives (if b.endedBy ending then return (body', none, seen₁)
      else failEnding b.word start ending) c₁ (body, otherwise, seen') c') :
      Reads (.branches b seen body otherwise seen') c c' := by
    split at h
    · next ends =>
      obtain ⟨same, rfl⟩ := gives_pure.mp h
      cases same
      exact .single reads ends
    · exact (not_gives_failEnding h).elim
  cases ending with
  | elseMark span =>
    obtain ⟨⟨other, ending, seen₂⟩, c₂, others, h⟩ := gives_bind.mp h
    dsimp only at h
    split at h
    · next ends =>
      obtain ⟨same, rfl⟩ := gives_pure.mp h
      cases same
      exact .double reads (ih.nodes others) ends
    · obtain ⟨_, _, _, h⟩ := gives_bind.mp h
      exact (not_gives_failEnding h).elim
  | source => exact alone h
  | endIf span => exact alone h
  | endFor span => exact alone h
  | close tag span => exact alone h

theorem readElement {tag seen node seen' c c'}
    (h : Gives (Grammar.readElement (fuel + 1) tag seen) c (node, seen') c') :
    Reads (.element tag seen node seen') c c' := by
  obtain ⟨_, c₁, here, h⟩ := gives_bind.mp h
  obtain ⟨rfl, rfl⟩ := gives_offset.mp here
  obtain ⟨_, c₁, skips, h⟩ := gives_bind.mp h
  obtain rfl := gives_skip.mp skips
  obtain ⟨_, c₁, here, h⟩ := gives_bind.mp h
  obtain ⟨rfl, rfl⟩ := gives_rest.mp here
  obtain ⟨⟨attributes, alone⟩, c₁, head, h⟩ := gives_bind.mp h
  cases alone with
  | true =>
    obtain ⟨_, c₂, here, h⟩ := gives_bind.mp h
    obtain ⟨rfl, rfl⟩ := gives_offset.mp here
    obtain ⟨same, rfl⟩ := gives_pure.mp h
    cases same
    exact .alone head
  | false =>
    obtain ⟨⟨body, ending, seen₁⟩, c₂, reads, h⟩ := gives_bind.mp h
    cases ending with
    | close closed span =>
      dsimp only at h
      split at h
      · next same =>
        subst same
        obtain ⟨_, c₃, here, h⟩ := gives_bind.mp h
        obtain ⟨rfl, rfl⟩ := gives_offset.mp here
        obtain ⟨same, rfl⟩ := gives_pure.mp h
        cases same
        exact .around head (ih.nodes reads)
      · exact (not_gives_failEnding h).elim
    | source => exact (not_gives_failEnding h).elim
    | elseMark span => exact (not_gives_failEnding h).elim
    | endIf span => exact (not_gives_failEnding h).elim
    | endFor span => exact (not_gives_failEnding h).elim

theorem succ : Derives (fuel + 1) :=
  ⟨ih.readNodes, ih.readNext, ih.readBlock, ih.readBranches, ih.readElement⟩

end Derives

theorem derives (fuel : Nat) : Derives fuel := by
  induction fuel with
  | zero => constructor <;> intros <;> exact (not_gives_failEnd ‹_›).elim
  | succ fuel ih => exact ih.succ

/-! ## The end of a source -/

theorem leadOf_eq_nothing {root : Bool} {seen : Seen} {text : List Char} (h : leadOf root seen text = .nothing) :
    text = [] := by
  by_cases empty : text = []
  · exact empty
  · simp only [leadOf, empty, ↓reduceIte] at h
    repeat' split at h
    all_goals cases h

/-- The words that end nodes. -/
theorem openingAt_ending {text : List Char} {e : Span → Ending} {length : Nat}
    (h : openingAt text = (.ending e, length)) : e = .elseMark ∨ e = .endIf ∨ e = .endFor := by
  unfold openingAt at h
  repeat' split at h
  all_goals cases h
  · exact .inl rfl
  · exact .inr (.inl rfl)
  · exact .inr (.inr rfl)

/-- Only where nothing is left does the source end nodes. -/
theorem Reads.next_source {root : Bool} {seen : Seen} {c c' : Cursor}
    (h : Reads (.next root seen (.ending .source)) c c') : c = c' ∧ c'.rest = [] := by
  generalize same : Part.next root seen (.ending .source) = part at h
  cases h with
  | source lead => exact ⟨rfl, leadOf_eq_nothing lead⟩
  | mark lead opens closes =>
    obtain ⟨-, -, same⟩ := Part.next.inj same
    rcases openingAt_ending opens with rfl | rfl | rfl <;> cases same
  | _ => cases same

/-- A run of nodes that the end of the source ends leaves nothing. -/
theorem Reads.rest_eq_nil {root : Bool} {seen seen' : Seen} {body : List Node} {c c' : Cursor}
    (h : Reads (.nodes root seen body .source seen') c c') : c'.rest = [] := by
  generalize same : Part.nodes root seen body .source seen' = part at h
  induction h generalizing seen body with
  | done last _ =>
    cases same
    exact last.next_source.2
  | more _ _ _ ih =>
    cases same
    exact ih rfl
  | _ => cases same

/-- **A document that is read has a derivation**, which goes over all of its source. -/
theorem reads_of_parse {source : List Char} {d : Document} (h : Document.parse source = .ok d) :
    ∃ seen c, Reads (.nodes true ⟨false, false⟩ d.body .source seen) (.start source) c ∧ d.span = ⟨0, c.offset⟩ ∧
      d.progress = none := by
  unfold Document.parse at h
  split at h
  · next d' c reads =>
    cases h
    obtain ⟨text, c₁, here, reads⟩ := gives_bind.mp (show Gives readDocument _ _ _ from reads)
    obtain ⟨rfl, rfl⟩ := gives_rest.mp here
    obtain ⟨⟨body, ending, seen⟩, c₂, nodes, reads⟩ := gives_bind.mp reads
    have nodes := (derives _).nodes nodes
    cases ending with
    | source =>
      obtain ⟨_, c₃, here, reads⟩ := gives_bind.mp reads
      obtain ⟨rfl, rfl⟩ := gives_offset.mp here
      obtain ⟨rfl, rfl⟩ := gives_pure.mp reads
      exact ⟨seen, _, nodes, rfl, rfl⟩
    | elseMark span => exact (not_gives_failEnding reads).elim
    | endIf span => exact (not_gives_failEnding reads).elim
    | endFor span => exact (not_gives_failEnding reads).elim
    | close tag span => exact (not_gives_failEnding reads).elim
  · cases h

end PromptScript.Grammar
