import PromptScript.Proofs.ForkedDocuments
import PromptScript.Proofs.Headings

/-! # Documents under another header

One header is written in place of another. What stands before it is read as it was: both headers start with the same mark.
The closing mark of the new one is followed by a newline. If a text comes next it starts with this newline, else the newline
is a text of its own; the rest is read as it was. -/
namespace PromptScript

/-- The nodes behind a newline, without their places: a text that comes first takes it. -/
inductive Node.Newlined (nodes nodes' : List Node) : Prop
  | apart (rest : unplacedAll nodes' = .text ⟨0, 0⟩ "\n" none :: unplacedAll nodes)
  | joined {span : Span} {data : List Char} {r : List Node} (first : nodes = .text span (String.ofList data) none :: r)
      (rest : unplacedAll nodes' = .text ⟨0, 0⟩ (String.ofList ('\n' :: data)) none :: unplacedAll r)

namespace Grammar

variable {w : Fork} {root : Bool} {seen seen' : Seen} {nodes rest : List Node} {e : Ending} {c c' d : Cursor}

/-! ## Nodes that come first -/

/-- Nodes that are read one after the other, with what is known of the document before and after them. -/
inductive Passed (root : Bool) : Seen → List Node → Seen → Cursor → Cursor → Prop
  | none {seen : Seen} {c : Cursor} : Passed root seen [] seen c c
  | more {seen seen₁ seen' : Seen} {n : Node} {r : List Node} {c c₁ c' : Cursor}
      (first : Reads (.next root seen (.node n seen₁)) c c₁) (rest : Passed root seen₁ r seen' c₁ c') :
      Passed root seen (n :: r) seen' c c'

/-- The nodes that come first are read first. -/
theorem Reads.split (h : Reads (.nodes root seen (nodes ++ rest) e seen') c c') :
    ∃ seen₁ c₁, Passed root seen nodes seen₁ c c₁ ∧ Reads (.nodes root seen₁ rest e seen') c₁ c' := by
  induction nodes generalizing seen c with
  | nil => exact ⟨seen, c, .none, h⟩
  | cons n r ih =>
    cases h with
    | more first later =>
      obtain ⟨seen₁, c₁, passed, reads⟩ := ih later
      exact ⟨seen₁, c₁, .more first passed, reads⟩

namespace Passed

variable {seen₁ : Seen} {c₁ : Cursor}

theorem append (h : Passed root seen nodes seen₁ c c₁) (reads : Reads (.nodes root seen₁ rest e seen') c₁ c') :
    Reads (.nodes root seen (nodes ++ rest) e seen') c c' := by
  induction h with
  | none => exact reads
  | more first _ ih => exact .more first (ih reads)

theorem ahead (h : Passed root seen nodes seen' c c') : c.Ahead c' := by
  induction h with
  | none => exact .refl _
  | more first _ ih => exact first.ahead.trans ih

theorem beside (level : w.Level) (h : Passed root seen nodes seen' c c') (bare : Node.headedAll nodes = false)
    (untagged : Node.taggedAll nodes = false) (within : w.behind <:+ c'.rest) :
    ∀ d, w.At c d → ∃ nodes' d', Passed root seen nodes' seen' d d' ∧
      Node.unplacedAll nodes' = Node.unplacedAll nodes ∧ w.At c' d' := by
  induction h with
  | none => exact fun d at_ => ⟨[], d, .none, rfl, at_⟩
  | @more seen seen₁ _ n _ _ _ _ first later ih =>
    intro d at_
    obtain ⟨bare, bare'⟩ := Bool.or_eq_false_iff.mp bare
    obtain ⟨untagged, untagged'⟩ := Bool.or_eq_false_iff.mp untagged
    have plain : Part.Plain w (.next root seen (.node n seen₁)) :=
      ⟨Bool.or_eq_false_iff.mpr ⟨bare, rfl⟩, .inr (Bool.or_eq_false_iff.mpr ⟨untagged, rfl⟩)⟩
    obtain ⟨n', d₁, reads, same, at₁⟩ := first.beside level plain (later.ahead.within within) d at_
    obtain ⟨r', d', passed, same', at'⟩ := ih bare' untagged' within d₁ at₁
    exact ⟨n' :: r', d', .more reads passed, by rw [Node.unplacedAll, same, same', Node.unplacedAll], at'⟩

end Passed

/-! ## The header -/

/-- Only a header is read into a header. -/
theorem Reads.of_config {span : Span} {data : String} {p : Option Progress}
    (h : Reads (.next root seen (.node (.config span data p) seen')) c c') :
    leadOf root seen c.rest = .header ∧ span = ⟨c.offset, c'.offset⟩ ∧ seen' = { seen with header := true } := by
  cases h with
  | block _ _ reads => cases reads
  | value _ _ reads =>
    obtain ⟨_, same⟩ := readInterpolation_gives reads
    cases same
  | comment _ reads =>
    obtain ⟨_, same, -⟩ := readComment_gives reads
    cases same
  | tag _ reads => cases reads
  | header lead reads =>
    obtain ⟨_, same, -⟩ := readHeader_gives reads
    cases same
    exact ⟨lead, rfl, rfl⟩
  | text _ reads =>
    obtain ⟨same, -⟩ := gives_readText.mp reads
    cases same

theorem leadOf_header_mark {text : List Char} (h : leadOf root seen text = .header) :
    atHeaderMark text = true ∧ seen = ⟨false, false⟩ := by
  unfold leadOf at h
  repeat' split at h
  all_goals cases h
  next here =>
    obtain ⟨header, content⟩ := seen
    simp only [Bool.and_eq_true, Bool.not_eq_true'] at here
    obtain ⟨⟨⟨mark, -⟩, rfl⟩, rfl⟩ := here
    exact ⟨mark, rfl⟩

/-! ## A newline before nodes -/

/-- Behind a header a text does not start with what ends one. -/
theorem leadOf_text {text : List Char} (h : leadOf root ⟨true, false⟩ text = .text) :
    endsText text = false ∧ atHeaderMark text = false := by
  unfold leadOf at h
  unfold endsText
  repeat' split at h
  all_goals simp_all

/-- What is neither text nor a second header ends a text. -/
theorem leadOf_not_text {text : List Char} (other : leadOf root ⟨true, false⟩ text ≠ .text)
    (first : leadOf root ⟨true, false⟩ text ≠ .secondHeader) : text = [] ∨ endsText text = true := by
  unfold leadOf at other first
  unfold endsText
  repeat' split at other
  all_goals simp_all

theorem Reads.lead_ne {next : Next} (h : Reads (.next root seen next) c c') : leadOf root seen c.rest ≠ .secondHeader := by
  cases h <;> simp_all

theorem Reads.ending_lead (h : Reads (.next root seen (.ending e)) c c') : leadOf root seen c.rest ≠ .text := by
  cases h <;> simp_all

/-- At the start of a text, and further on if it goes on there, the same is taken. -/
theorem scanText_inside {o : Nat} {text : List Char} (plain : endsText text = false) (unmarked : atHeaderMark text = false) :
    scanText false .inside true o text = scanText false .first true o text := by
  cases text with
  | nil => rfl
  | cons a r =>
    unfold scanText
    rw [plain, unmarked]
    rfl

/-- Where something other than text starts, nothing is taken. -/
theorem scanText_stops {o : Nat} {text : List Char} (ends : text = [] ∨ endsText text = true) :
    scanText false .inside true o text = ([], ⟨o, text⟩) := by
  cases text with
  | nil => rfl
  | cons a r =>
    have ends : endsText (a :: r) = true := ends.resolve_left nofun
    have plain : a ≠ '\\' := by
      rintro rfl
      cases ends
    unfold scanText
    rw [if_neg plain, ends]
    rfl

theorem scanned_newline {text : List Char} {o : Nat} : scanned false ⟨o, '\n' :: text⟩ =
    ('\n' :: (scanText false .inside true (o + 1) text).1, (scanText false .inside true (o + 1) text).2) := rfl

/-- A text that starts with a newline, of which the rest is given. -/
theorem reads_newline {text data : List Char} {o : Nat} (taken : (scanText false .inside true (o + 1) text).1 = data) :
    Reads (.next root ⟨true, false⟩ (.node
      (.text ⟨o, (scanText false .inside true (o + 1) text).2.offset⟩ (String.ofList ('\n' :: data)) none)
      ⟨true, !Text.allBlank data⟩)) ⟨o, '\n' :: text⟩ (scanText false .inside true (o + 1) text).2 := by
  subst taken
  exact .text rfl (gives_readText.mpr (by rw [scanned_newline]; exact ⟨rfl, rfl⟩))

/-- **Behind a header and a newline** the nodes are read that were read behind the header. -/
theorem Reads.newline (h : Reads (.nodes true ⟨true, false⟩ nodes .source seen') c c') (bare : Node.headedAll nodes = false)
    (o : Nat) : ∃ nodes' d', Reads (.nodes true ⟨true, false⟩ nodes' .source seen') ⟨o, '\n' :: c.rest⟩ d' ∧
      Node.Newlined nodes nodes' := by
  -- What follows the newline, or the text it is the start of, is read again.
  have again {seen : Seen} {r : List Node} {c₁ : Cursor} (d₁ : Cursor) (later : Reads (.nodes true seen r .source seen') c₁ c')
      (bare : Node.headedAll r = false) (same : c₁.rest = d₁.rest) :
      ∃ r' d', Reads (.nodes true seen r' .source seen') d₁ d' ∧ Node.unplacedAll r' = Node.unplacedAll r := by
    obtain ⟨r', e', d', reads, alike, last, -⟩ := later.beside Fork.level_ends ⟨bare, .inl rfl⟩ (List.nil_suffix ..) d₁
      (Fork.at_ends.mpr same)
    obtain rfl : e' = .source := by cases e' <;> cases last; rfl
    exact ⟨r', d', reads, alike⟩
  by_cases lead : leadOf true ⟨true, false⟩ c.rest = .text
  · obtain ⟨plain, unmarked⟩ := leadOf_text lead
    have inside := scanText_inside (o := o + 1) plain unmarked
    have places := scanText_places false .first true (o + 1) c.offset c.rest
    cases h with
    | done last => exact (last.ending_lead lead).elim
    | @more _ _ seen₁ _ n r _ _ c₁ _ first later =>
      obtain ⟨bare, bare'⟩ := Bool.or_eq_false_iff.mp bare
      cases first with
      | text _ reads =>
        obtain ⟨same, rfl⟩ := gives_readText.mp reads
        cases same
        obtain ⟨r', d', reads', alike⟩ := again (scanText false .inside true (o + 1) c.rest).2 later bare'
          (by rw [inside]; exact places.2.symm)
        refine ⟨_, d', .more (reads_newline (by rw [inside, places.1]; rfl)) reads', .joined rfl ?_⟩
        rw [Node.unplacedAll, alike]
        rfl
      | _ => simp_all
  · have second : leadOf true ⟨true, false⟩ c.rest ≠ .secondHeader := by
      cases h with
      | done last => exact last.lead_ne
      | more first => exact first.lead_ne
    have stops := scanText_stops (o := o + 1) (leadOf_not_text lead second)
    obtain ⟨r', d', reads', alike⟩ := again (scanText false .inside true (o + 1) c.rest).2 h bare (by rw [stops])
    refine ⟨_, d', .more (reads_newline (congrArg Prod.fst stops)) reads', .apart ?_⟩
    rw [Node.unplacedAll, alike]
    rfl

/-- The node of a header that is written at an offset. -/
def headerAt (o : Nat) (y : List Char) : Node :=
  .config ⟨o, o + Text.byteLength (headerText y)⟩ (String.ofList ('\n' :: (y ++ ['\n']))) none

/-- Before the old header and the new one the source forks, with the mark of a header on both branches. -/
theorem exists_marked {text : List Char} (mark : atHeaderMark text = true) (y below : List Char) :
    ∃ w : Fork, w.Marked ∧ w.behind = text ∧ w.behind' = headerText y ++ '\n' :: below := by
  obtain ⟨r, rfl⟩ := atHeaderMark_eq mark
  refine ⟨⟨Node.headerMark ++ r, headerText y ++ '\n' :: below, nofun⟩, ⟨⟨r, _, rfl, rfl⟩, mark, ?_⟩, rfl, rfl⟩
  rfl

end Grammar

namespace Document

open Grammar

variable {source : List Char} {d : Document} {before rest : List Node} {span : Span} {data : String}

/-- **A header is replaced.** Where no tag stands before the header of a document, the document with another header in its
place and a newline behind it is read as the same nodes, but for their places, the header and the newline. -/
theorem parse_reheaded (parsed : parse source = .ok d) (parts : d.body = before ++ .config span data none :: rest)
    (bare : Node.headedAll before = false) (bare' : Node.headedAll rest = false) (untagged : Node.taggedAll before = false) :
    ∃ above header below, source = above ++ header ++ below ∧
      span = ⟨Text.byteLength above, Text.byteLength (above ++ header)⟩ ∧
      ∀ y : List Char, (∀ line ∈ Text.lines y, atHeaderMark line = false) → ∃ before' rest' stop,
        parse (above ++ (headerText y ++ '\n' :: below)) =
          .ok ⟨⟨0, stop⟩, before' ++ headerAt (Text.byteLength above) y :: rest', none⟩ ∧
        Node.unplacedAll before' = Node.unplacedAll before ∧ Node.Newlined rest rest' ∧ Node.headedAll rest' = false := by
  obtain ⟨seen, c, reads, -⟩ := reads_of_parse parsed
  rw [parts] at reads
  obtain ⟨seen₁, c₁, passed, reads⟩ := reads.split
  cases reads with
  | @more _ _ seen₂ _ _ _ _ _ c₂ _ header later =>
    obtain ⟨lead, rfl, rfl⟩ := header.of_config
    obtain ⟨mark, rfl⟩ := leadOf_header_mark lead
    obtain ⟨above, start, offset⟩ := passed.ahead
    obtain ⟨text, rest_eq, offset'⟩ := header.ahead
    have offset : c₁.offset = Text.byteLength above := offset.trans (Nat.zero_add _)
    refine ⟨above, text, c₂.rest, ?_, ?_, fun y free => ?_⟩
    · exact start.trans (by rw [rest_eq, List.append_assoc])
    · rw [offset', offset, Text.byteLength_append]
    obtain ⟨w, marked, here, there⟩ := exists_marked mark y c₂.rest
    let source' := above ++ (headerText y ++ '\n' :: c₂.rest)
    obtain ⟨before', d₁, passed', alike, nothing, left, right⟩ := passed.beside marked.level bare untagged
      (here ▸ List.suffix_refl _) (.start source') ⟨above, here ▸ start, there ▸ rfl⟩
    -- The nodes before the header end where they did.
    obtain rfl : nothing = [] := List.append_left_eq_self.mp (here ▸ left.symm)
    have place : d₁ = ⟨Text.byteLength above, headerText y ++ '\n' :: c₂.rest⟩ := by
      obtain ⟨above', start', offset₁⟩ := passed'.ahead
      have right : d₁.rest = headerText y ++ '\n' :: c₂.rest := right.trans there
      obtain rfl : above = above' := by
        rw [right] at start'
        exact List.append_cancel_right start'
      rw [← right, ← Nat.zero_add (Text.byteLength above)]
      exact congrArg (Cursor.mk · d₁.rest) offset₁
    have reads' := gives_readHeader free (Text.byteLength above) c₂.rest
    rw [← place] at reads'
    obtain ⟨rest', c', later', newlined⟩ := later.newline bare' (Text.byteLength above + Text.byteLength (headerText y))
    have lead' : leadOf true ⟨false, false⟩ d₁.rest = .header := by rw [place]; rfl
    exact ⟨before', rest', c'.offset, parse_of_reads (passed'.append (.more (.header lead' reads') later')), alike, newlined,
      later'.heads.2.1 (.inr rfl)⟩

end Document
end PromptScript
