import PromptScript.Proofs.Splices

/-! # Texts in the places of spans

What a text is in which spans are replaced one after the other, each behind the one before and with whatever text: the
text at the start with each span exchanged for what takes its place. At each turn what lies behind the last span is as it
was, and the shift leads to it. Spans may be empty and may touch, and what takes their place may be longer or shorter. -/
namespace PromptScript

/-- A text from an offset on, with others in the places of spans. -/
def Text.substituted (source : List Char) : Nat → List (Span × List Char) → List Char
  | o, [] => dropBytes o source
  | o, (span, new) :: r => slice source ⟨o, span.start⟩ ++ new ++ substituted source span.stop r

/-- What is left of a text from an offset in its second part on. -/
theorem Text.dropBytes_add (a b : List Char) (n : Nat) : dropBytes (byteLength a + n) (a ++ b) = dropBytes n b := by
  induction a with
  | nil => simp [byteLength]
  | cons c r ih =>
    have enough : c.utf8Size ≤ byteLength (c :: r) + n := by simp only [byteLength]; omega
    have left : byteLength (c :: r) + n - c.utf8Size = byteLength r + n := by simp only [byteLength]; omega
    rw [List.cons_append, dropBytes, if_pos enough, left, ih]

namespace Splicing

/-- Replaces spans, one after the other. -/
def replaceAll (sp : Splicing) (edits : List (Span × List Char)) : Splicing :=
  edits.foldl (fun sp edit => sp.replace edit.1 edit.2) sp

/-- What is behind an offset of the source is there as it was, where the shift leads to; the offset is not shifted to before
the start of the text. -/
def LeadsTo (source : List Char) (sp : Splicing) (o : Nat) : Prop :=
  0 ≤ (o : Int) + sp.shift ∧ Text.dropBytes (sp.shifted o) sp.text = Text.dropBytes o source

variable {source kept gone rest : List Char} {sp : Splicing} {edits : List (Span × List Char)}

theorem Upto.leadsTo (h : Upto source kept gone rest sp) {o : Nat} (behind : Text.byteLength gone ≤ o) :
    LeadsTo source sp o := by
  obtain ⟨n, rfl⟩ := Nat.exists_eq_add_of_le behind
  have shift := h.shift_eq
  have place : sp.shifted (Text.byteLength gone + n) = Text.byteLength kept + n := by
    unfold shifted
    omega
  refine ⟨by omega, ?_⟩
  rw [place, h.text_eq, h.source_eq, Text.dropBytes_add, Text.dropBytes_add]

/-- Replacing spans that lie in order behind what has been replaced. -/
theorem Upto.replaceAll (h : Upto source kept gone rest sp) (fits : ∀ edit ∈ edits, edit.1.Fits source)
    (ordered : edits.Pairwise fun a b => a.1.Before b.1) (after : ∀ edit ∈ edits, Text.byteLength gone ≤ edit.1.start) :
    ∃ kept' gone' rest', Upto source kept' gone' rest' (sp.replaceAll edits) ∧
      kept' ++ rest' = kept ++ Text.substituted source (Text.byteLength gone) edits ∧
      ∀ o, Text.byteLength gone ≤ o → (∀ edit ∈ edits, edit.1.stop ≤ o) → Text.byteLength gone' ≤ o := by
  -- Each replacement moves the seam of `Upto` behind its span; what was spliced before it is not looked at again.
  induction edits generalizing kept gone rest sp with
  | nil =>
    refine ⟨kept, gone, rest, h, ?_, fun _ behind _ => behind⟩
    rw [Text.substituted, h.source_eq, Text.dropBytes_append]
  | cons edit edits ih =>
    obtain ⟨span, new⟩ := edit
    obtain ⟨first, ordered⟩ := List.pairwise_cons.mp ordered
    obtain ⟨between, part, rest₁, rfl, start, stop⟩ := h.split (fits _ List.mem_cons_self) (after _ List.mem_cons_self)
    obtain ⟨kept', gone', rest', upto, text, least⟩ := ih (h.replace start stop new)
      (fun other mem => fits other (List.mem_cons_of_mem _ mem)) ordered fun other mem => stop ▸ first other mem
    have before : Text.slice source ⟨Text.byteLength gone, span.start⟩ = between := by
      have cut : source = gone ++ between ++ (part ++ rest₁) := by rw [h.source_eq]; simp only [List.append_assoc]
      rw [start, Text.slice_eq cut]
    refine ⟨kept', gone', rest', upto, ?_, fun o _ all => ?_⟩
    · rw [text, Text.substituted, before, stop]
      simp only [List.append_assoc]
    · obtain ⟨first, others⟩ := List.forall_mem_cons.mp all
      exact least o (stop ▸ first) others

/-- **Replacing in order is exact.** Spans that lie in order are replaced each in its place, with the source between them left
as it is; whenever some of them have been replaced, the next one covers what it covers in the source, and from the last
one on the text is that of the source. -/
theorem replaces_in_place (fits : ∀ edit ∈ edits, edit.1.Fits source)
    (ordered : edits.Pairwise fun a b => a.1.Before b.1) :
    ((start source).replaceAll edits).text = Text.substituted source 0 edits ∧
      ∀ before after, edits = before ++ after →
        (∀ o, (∀ edit ∈ before, edit.1.stop ≤ o) → LeadsTo source ((start source).replaceAll before) o) ∧
        ∀ edit ∈ after.head?, Takes source ((start source).replaceAll before) edit.1 := by
  constructor
  · obtain ⟨kept, gone, rest, upto, text, -⟩ := (Upto.start source).replaceAll fits ordered fun _ _ => Nat.zero_le _
    rw [upto.text_eq, text]
    rfl
  · rintro before after rfl
    obtain ⟨first, -, across⟩ := List.pairwise_append.mp ordered
    obtain ⟨kept, gone, rest, upto, -, least⟩ := (Upto.start source).replaceAll
      (fun edit mem => fits edit (List.mem_append_left _ mem)) first fun _ _ => Nat.zero_le _
    refine ⟨fun o behind => upto.leadsTo (least o (Nat.zero_le _) behind), fun edit next => ?_⟩
    have mem : edit ∈ after := List.mem_of_mem_head? next
    have behind : Text.byteLength gone ≤ edit.1.start := least _ (Nat.zero_le _) fun s there => across s there edit mem
    exact upto.takes (fits edit (List.mem_append_right _ mem)) behind

/-- A longer text, a shorter one, one where nothing was and none at all. -/
theorem replaces_in_place_of_four :
    let source := ['ä', 'b', 'c', 'd', '€', 'f']
    let edits : List (Span × List Char) :=
      [(⟨0, 2⟩, ['x', 'y', 'ö']), (⟨3, 5⟩, ['z']), (⟨5, 5⟩, ['u', 'v']), (⟨5, 8⟩, [])]
    ((start source).replaceAll edits).text = ['x', 'y', 'ö', 'b', 'z', 'u', 'v', 'f'] ∧
      LeadsTo source ((start source).replaceAll edits) 8 := by
  intro source edits
  have boundary (o : Nat) (same : Text.byteLength (Text.takeBytes o source) = o) : Text.Boundary source o :=
    ⟨_, _, (Text.takeBytes_append_dropBytes o source).symm, same⟩
  have fits : ∀ edit ∈ edits, edit.1.Fits source := by
    intro edit mem
    simp only [edits, List.mem_cons, List.not_mem_nil, or_false] at mem
    rcases mem with rfl | rfl | rfl | rfl <;> exact ⟨by decide, boundary _ (by decide), boundary _ (by decide)⟩
  have ordered : edits.Pairwise fun a b => a.1.Before b.1 := by simp [edits, Span.Before]
  have whole := replaces_in_place fits ordered
  exact ⟨whole.1.trans (by decide), (whole.2 edits [] (List.append_nil _).symm).1 8 (by simp [edits])⟩

end Splicing
end PromptScript
