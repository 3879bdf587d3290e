import PromptScript.Proofs.Layout
import PromptScript.Survey.Splicing

/-! # Splices in order

Spans that are replaced one after the other, each behind the one before, are each replaced where they stand. For
spans that are cut out the converse holds too: a cut behind which another has been made before is made too early in
the text. -/
namespace PromptScript

namespace Text

theorem takeBytes_append (a b : List Char) : takeBytes (byteLength a) (a ++ b) = a := by
  induction a with
  | nil => cases b with
    | nil => rfl
    | cons c r => simp [takeBytes, byteLength, Nat.ne_of_gt c.utf8Size_pos]
  | cons c r ih => simp [takeBytes, byteLength, ih]

theorem dropBytes_append (a b : List Char) : dropBytes (byteLength a) (a ++ b) = b := by
  have whole := takeBytes_append_dropBytes (byteLength a) (a ++ b)
  rw [takeBytes_append] at whole
  exact List.append_cancel_left whole

/-- What a span covers that reaches from the end of one part to the end of the next. -/
theorem slice_eq {source before part after : List Char} (cut : source = before ++ part ++ after) :
    slice source ⟨byteLength before, byteLength (before ++ part)⟩ = part := by
  rw [List.append_assoc] at cut
  unfold slice
  rw [cut, takeBytes_append, dropBytes_append, byteLength_append, Nat.add_sub_cancel_left, takeBytes_append]

/-- A text that is longer reaches further. -/
theorem exists_append_of_byteLength_le {a a' b b' : List Char} (same : a ++ b = a' ++ b')
    (le : byteLength a ≤ byteLength a') : ∃ m, a' = a ++ m ∧ b = m ++ b' := by
  rcases List.append_eq_append_iff.mp same with ⟨m, first, second⟩ | ⟨m, first, second⟩
  · exact ⟨m, first, second⟩
  · have empty : byteLength m = 0 := by rw [first, byteLength_append] at le; omega
    have none : m = [] := by
      cases m with
      | nil => rfl
      | cons c r =>
        have := c.utf8Size_pos
        simp only [byteLength] at empty
        omega
    subst none
    exact ⟨[], by simpa using first.symm, by simpa using second.symm⟩

/-- What is left of a text without the characters that start within one of the spans. Its first character has the
given offset. -/
def outside (spans : List Span) : Nat → List Char → List Char
  | _, [] => []
  | o, c :: r =>
    if spans.any fun s => s.start ≤ o && o < s.stop then outside spans (o + c.utf8Size) r
    else c :: outside spans (o + c.utf8Size) r

variable {spans : List Span} {span : Span} {o : Nat} {text : List Char}

theorem outside_append (spans : List Span) (o : Nat) (a b : List Char) :
    outside spans o (a ++ b) = outside spans o a ++ outside spans (o + byteLength a) b := by
  induction a generalizing o with
  | nil => rfl
  | cons c r ih =>
    simp only [List.cons_append, outside, byteLength, ih, Nat.add_assoc]
    split <;> rfl

/-- Text before all spans is left. -/
theorem outside_eq_self (before : ∀ s ∈ spans, o + byteLength text ≤ s.start) : outside spans o text = text := by
  induction text generalizing o with
  | nil => rfl
  | cons c r ih =>
    have size := c.utf8Size_pos
    simp only [byteLength] at before
    have out : (spans.any fun s => s.start ≤ o && o < s.stop) = false := by
      rw [List.any_eq_false]
      intro s mem inside
      have := before s mem
      simp only [Bool.and_eq_true, decide_eq_true_eq] at inside
      omega
    rw [outside, out, ih fun s mem => by have := before s mem; omega]
    rfl

/-- Text behind all spans is left. -/
theorem outside_of_stop_le (behind : ∀ s ∈ spans, s.stop ≤ o) : outside spans o text = text := by
  induction text generalizing o with
  | nil => rfl
  | cons c r ih =>
    have out : (spans.any fun s => s.start ≤ o && o < s.stop) = false := by
      rw [List.any_eq_false]
      intro s mem inside
      have := behind s mem
      simp only [Bool.and_eq_true, decide_eq_true_eq] at inside
      omega
    rw [outside, out, ih fun s mem => Nat.le_trans (behind s mem) (Nat.le_add_right ..)]
    rfl

/-- Text within a span is gone. -/
theorem outside_eq_nil (mem : span ∈ spans) (start : span.start ≤ o) (stop : o + byteLength text ≤ span.stop) :
    outside spans o text = [] := by
  induction text generalizing o with
  | nil => rfl
  | cons c r ih =>
    have size := c.utf8Size_pos
    simp only [byteLength] at stop
    have inside : (spans.any fun s => s.start ≤ o && o < s.stop) = true := by
      rw [List.any_eq_true]
      refine ⟨span, mem, ?_⟩
      simp only [Bool.and_eq_true, decide_eq_true_eq]
      omega
    rw [outside, inside, if_pos rfl]
    exact ih (by omega) (by omega)

/-- A span that lies before a text leaves it as it is. -/
theorem outside_cons (before : span.stop ≤ o) : outside (span :: spans) o text = outside spans o text := by
  induction text generalizing o with
  | nil => rfl
  | cons c r ih =>
    have out : (decide (span.start ≤ o) && decide (o < span.stop)) = false := by
      rw [Bool.and_eq_false_iff, decide_eq_false_iff_not, decide_eq_false_iff_not]
      omega
    simp only [outside, List.any_cons, out, Bool.false_or, ih (Nat.le_trans before (Nat.le_add_right ..))]

end Text

/-- A span lies before another. -/
def Span.Before (a b : Span) : Prop := a.stop ≤ b.start

/-- How many bytes a span covers. -/
def Span.length (s : Span) : Nat := s.stop - s.start

/-- How many bytes spans cover together. -/
def Span.total : List Span → Nat
  | [] => 0
  | s :: r => s.length + total r

/-- A span of a text: it covers some characters of it. -/
structure Span.Of (source : List Char) (s : Span) : Prop where
  proper : s.start < s.stop
  start : Text.Boundary source s.start
  stop : Text.Boundary source s.stop

/-- A span from one place between characters of a text to another, or to the same. -/
structure Span.Fits (source : List Char) (s : Span) : Prop where
  forward : s.start ≤ s.stop
  start : Text.Boundary source s.start
  stop : Text.Boundary source s.stop

theorem Span.Of.fits {source : List Char} {s : Span} (h : s.Of source) : s.Fits source :=
  ⟨Nat.le_of_lt h.proper, h.start, h.stop⟩

namespace Splicing

variable {source kept gone between part rest : List Char} {sp : Splicing} {span : Span}

/-- The start of the source has been replaced; the rest of it is there as it was, and the shift leads to it. -/
structure Upto (source kept gone rest : List Char) (sp : Splicing) : Prop where
  source_eq : source = gone ++ rest
  text_eq : sp.text = kept ++ rest
  shift_eq : (Text.byteLength kept : Int) = Text.byteLength gone + sp.shift

theorem Upto.start (source : List Char) : Upto source [] [] source (Splicing.start source) :=
  ⟨rfl, rfl, rfl⟩

/-- A span of the rest is found where it stands now. -/
theorem Upto.place_eq (h : Upto source kept gone (between ++ part ++ rest) sp)
    (start : span.start = Text.byteLength (gone ++ between))
    (stop : span.stop = Text.byteLength (gone ++ between ++ part)) :
    sp.place span = ⟨Text.byteLength (kept ++ between), Text.byteLength (kept ++ between ++ part)⟩ := by
  have shift := h.shift_eq
  simp only [Text.byteLength_append] at start stop ⊢
  simp only [place, shifted, start, stop, Span.mk.injEq]
  omega

/-- Replacing a span of the rest replaces just that, and leaves what follows as it was. -/
theorem Upto.replace (h : Upto source kept gone (between ++ part ++ rest) sp)
    (start : span.start = Text.byteLength (gone ++ between))
    (stop : span.stop = Text.byteLength (gone ++ between ++ part)) (new : List Char) :
    Upto source (kept ++ between ++ new) (gone ++ between ++ part) rest (sp.replace span new) := by
  have text : sp.text = (kept ++ between) ++ (part ++ rest) := by rw [h.text_eq]; simp
  have text' : sp.text = (kept ++ between ++ part) ++ rest := by rw [h.text_eq]; simp
  refine ⟨by rw [h.source_eq]; simp, ?_, ?_⟩
  · have before : Text.takeBytes (Text.byteLength (kept ++ between)) sp.text = kept ++ between := by
      rw [text, Text.takeBytes_append]
    have behind : Text.dropBytes (Text.byteLength (kept ++ between ++ part)) sp.text = rest := by
      rw [text', Text.dropBytes_append]
    show Text.takeBytes (sp.place span).start sp.text ++ new ++ Text.dropBytes (sp.place span).stop sp.text = _
    rw [h.place_eq start stop, before, behind]
  · have shift := h.shift_eq
    show _ = _ + (sp.shift + Text.byteLength new - (((sp.place span).stop : Int) - (sp.place span).start))
    rw [h.place_eq start stop]
    simp only [Text.byteLength_append, Int.natCast_add]
    omega

/-- A span behind what has been replaced cuts the rest in three. -/
theorem Upto.split (h : Upto source kept gone rest sp) (fits : span.Fits source)
    (after : Text.byteLength gone ≤ span.start) :
    ∃ between part rest', rest = between ++ part ++ rest' ∧ span.start = Text.byteLength (gone ++ between) ∧
      span.stop = Text.byteLength (gone ++ between ++ part) := by
  obtain ⟨a, b, cut, start⟩ := fits.start
  obtain ⟨a', b', cut', stop⟩ := fits.stop
  have forward := fits.forward
  obtain ⟨part, rfl, rfl⟩ := Text.exists_append_of_byteLength_le (cut.symm.trans cut') (by omega)
  obtain ⟨between, rfl, rfl⟩ :=
    Text.exists_append_of_byteLength_le (h.source_eq.symm.trans cut) (by rw [start]; exact after)
  exact ⟨between, part, b', (List.append_assoc ..).symm, start.symm, stop.symm⟩

/-- Cuts spans out, one after the other. -/
def cutAll (sp : Splicing) (spans : List Span) : Splicing := spans.foldl (fun sp span => sp.replace span []) sp

/-- The text of the source that a span covers is what the span covers now, as whole characters. -/
def Takes (source : List Char) (sp : Splicing) (span : Span) : Prop :=
  ∃ before after, sp.text = before ++ Text.slice source span ++ after ∧
    sp.place span =
      ⟨Text.byteLength before, Text.byteLength before + Text.byteLength (Text.slice source span)⟩

theorem Upto.takes (h : Upto source kept gone rest sp) (fits : span.Fits source)
    (after : Text.byteLength gone ≤ span.start) : Takes source sp span := by
  obtain ⟨between, part, rest', rfl, start, stop⟩ := h.split fits after
  have cut : source = gone ++ between ++ part ++ rest' := by rw [h.source_eq]; simp
  have slice : Text.slice source span = part := by
    rw [← Text.slice_eq cut, ← start, ← stop]
  refine ⟨kept ++ between, rest', by rw [h.text_eq, slice]; simp, ?_⟩
  rw [h.place_eq start stop, slice, Text.byteLength_append (kept ++ between)]

/-- Cutting spans that lie in order behind what has been replaced. -/
theorem Upto.cutAll (h : Upto source kept gone rest sp) {spans : List Span} (ordered : spans.Pairwise Span.Before)
    (of : ∀ s ∈ spans, s.Of source) (after : ∀ s ∈ spans, Text.byteLength gone ≤ s.start) :
    ∃ passed rest', rest = passed ++ rest' ∧
      Upto source (kept ++ Text.outside spans (Text.byteLength gone) passed) (gone ++ passed) rest'
        (sp.cutAll spans) ∧
      (sp.cutAll spans).shift = sp.shift - (Span.total spans : Nat) ∧
      (∀ s ∈ spans, s.stop ≤ Text.byteLength (gone ++ passed)) ∧
      ∀ o, Text.byteLength gone ≤ o → (∀ s ∈ spans, s.stop ≤ o) → Text.byteLength (gone ++ passed) ≤ o := by
  induction spans generalizing kept gone rest sp with
  | nil =>
    refine ⟨[], rest, rfl, by simpa [Splicing.cutAll, Text.outside] using h, by simp [Splicing.cutAll, Span.total], nofun, ?_⟩
    intro o le _
    simpa using le
  | cons span spans ih =>
    obtain ⟨first, ordered⟩ := List.pairwise_cons.mp ordered
    obtain ⟨between, part, rest₁, rfl, start, stop⟩ :=
      h.split (of span List.mem_cons_self).fits (after span List.mem_cons_self)
    have next := h.replace start stop []
    obtain ⟨passed, rest', rfl, upto, shift, stops, least⟩ := ih next ordered
      (fun s mem => of s (List.mem_cons_of_mem _ mem)) fun s mem => by rw [← stop]; exact first s mem
    refine ⟨between ++ part ++ passed, rest', by simp, ?_, ?_, ?_, ?_⟩
    · have left : Text.outside (span :: spans) (Text.byteLength gone) (between ++ part ++ passed) =
          between ++ Text.outside spans (Text.byteLength (gone ++ between ++ part)) passed := by
        rw [List.append_assoc, Text.outside_append, Text.outside_append, ← Text.byteLength_append,
          ← Text.byteLength_append, Text.outside_eq_self, Text.outside_eq_nil List.mem_cons_self (by omega),
          Text.outside_cons (by omega), List.nil_append]
        · rw [← Text.byteLength_append]; omega
        · intro s mem
          rw [← Text.byteLength_append, ← start]
          rcases List.mem_cons.mp mem with rfl | mem
          · exact Nat.le_refl _
          · exact Nat.le_trans (Nat.le_of_lt (of span List.mem_cons_self).proper) (first s mem)
      rw [left]
      show Upto _ _ _ _ ((sp.replace span []).cutAll spans)
      simpa using upto
    · show ((sp.replace span []).cutAll spans).shift = _
      have shift' := h.shift_eq
      have shift'' := next.shift_eq
      rw [shift, Span.total, Span.length, start, stop]
      simp only [Text.byteLength_append, List.append_nil, Int.natCast_add] at shift' shift'' ⊢
      omega
    · intro s mem
      rcases List.mem_cons.mp mem with rfl | mem
      · rw [stop]
        simp only [Text.byteLength_append]
        omega
      · have := stops s mem
        simpa using this
    · intro o _ all
      have := least o (by rw [← stop]; exact all span List.mem_cons_self) fun s mem => all s (List.mem_cons_of_mem _ mem)
      simpa using this

/-! ## Cuts of a whole text -/

variable {spans : List Span}

/-- What is cut out in order is gone, and all else is left. -/
theorem text_cutAll (ordered : spans.Pairwise Span.Before) (of : ∀ s ∈ spans, s.Of source) :
    ((Splicing.start source).cutAll spans).text = Text.outside spans 0 source := by
  obtain ⟨passed, rest, rfl, upto, -, stops, -⟩ := (Upto.start source).cutAll ordered of fun _ _ => Nat.zero_le _
  rw [upto.text_eq, Text.outside_append, Text.outside_of_stop_le (o := 0 + Text.byteLength passed)]
  · rfl
  · simpa using stops

/-- Each span is found where it stands. -/
theorem takes_of_ordered (ordered : spans.Pairwise Span.Before) (of : ∀ s ∈ spans, s.Of source)
    {before after : List Span} (split : spans = before ++ span :: after) :
    Takes source ((Splicing.start source).cutAll before) span := by
  subst split
  obtain ⟨first, -, across⟩ := List.pairwise_append.mp ordered
  obtain ⟨passed, rest, rfl, upto, -, -, least⟩ := (Upto.start source).cutAll first
    (fun s mem => of s (List.mem_append_left _ mem)) fun _ _ => Nat.zero_le _
  refine upto.takes (of span (by simp)).fits (least _ (Nat.zero_le _) fun s mem => across s mem span (by simp))

/-- How many bytes the spans before an offset cover. -/
def displaced (spans : List Span) (o : Nat) : Nat := Span.total (spans.filter fun s => s.stop ≤ o)

/-- Every span is looked for where it stands when its turn comes: the shift is what has been cut out before it. -/
def Exact (source : List Char) (spans : List Span) : Prop :=
  ∀ before span after, spans = before ++ span :: after →
    ((Splicing.start source).cutAll before).shift = -(displaced before span.start : Int)

/-- Only if all spans lie before an offset do they displace it as far as they are long. -/
theorem displaced_eq_iff {o : Nat} (proper : ∀ s ∈ spans, s.start < s.stop) :
    displaced spans o = Span.total spans ↔ ∀ s ∈ spans, s.stop ≤ o := by
  have le (spans : List Span) : displaced spans o ≤ Span.total spans := by
    induction spans with
    | nil => exact Nat.le_refl _
    | cons s spans ih =>
      unfold displaced at ih ⊢
      by_cases h : s.stop ≤ o <;> simp [h, Span.total] <;> omega
  induction spans with
  | nil => simp [displaced]
  | cons s spans ih =>
    have ih := ih fun s mem => proper s (List.mem_cons_of_mem _ mem)
    have long : 0 < s.length := Nat.sub_pos_of_lt (proper s List.mem_cons_self)
    have le := le spans
    unfold displaced at ih le ⊢
    by_cases h : s.stop ≤ o
    · simp only [h, List.filter_cons, decide_true, if_true, Span.total, List.forall_mem_cons, true_and, ← ih]
      omega
    · simp only [h, List.filter_cons, decide_false, Bool.false_eq_true, if_false, Span.total,
        List.forall_mem_cons, false_and, iff_false]
      omega

/-- **Cuts are exact just if they are made in order.** -/
theorem exact_iff_ordered (of : ∀ s ∈ spans, s.Of source) : Exact source spans ↔ spans.Pairwise Span.Before := by
  have shift {before : List Span} (ordered : before.Pairwise Span.Before) (of : ∀ s ∈ before, s.Of source) :
      ((Splicing.start source).cutAll before).shift = -(Span.total before : Int) := by
    obtain ⟨_, _, _, _, shift, _⟩ := (Upto.start source).cutAll ordered of fun _ _ => Nat.zero_le _
    rw [shift]
    simp [Splicing.start]
  constructor
  · intro exact
    have first (n : Nat) : (spans.take n).Pairwise Span.Before := by
      induction n with
      | zero => simp
      | succ n ih =>
        rw [List.take_add_one]
        cases here : spans[n]? with
        | none => simpa using ih
        | some span =>
          obtain ⟨inside, rfl⟩ := List.getElem?_eq_some_iff.mp here
          have of' : ∀ s ∈ spans.take n, s.Of source := fun s mem => of s (List.mem_of_mem_take mem)
          have here := exact (spans.take n) spans[n] (spans.drop (n + 1)) (by simp)
          rw [shift ih of'] at here
          have all := (displaced_eq_iff (o := spans[n].start) fun s mem => (of' s mem).proper).mp (by omega)
          refine List.pairwise_append.mpr ⟨ih, by simp, ?_⟩
          rintro s mem t (_ | ⟨_, ⟨⟩⟩)
          exact all s mem
    have whole := first spans.length
    rwa [List.take_length] at whole
  · rintro ordered before span after rfl
    obtain ⟨first, -, across⟩ := List.pairwise_append.mp ordered
    have of' : ∀ s ∈ before, s.Of source := fun s mem => of s (List.mem_append_left _ mem)
    rw [shift first of', (displaced_eq_iff fun s mem => (of' s mem).proper).mpr fun s mem =>
      across s mem span (by simp)]

end Splicing
end PromptScript
