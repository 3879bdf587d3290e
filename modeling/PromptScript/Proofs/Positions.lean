import Mathlib.Data.List.Induction
import PromptScript.Proofs.Letters
import PromptScript.Proofs.Settled
import PromptScript.Proofs.Splices

/-! # Positions of offsets

The position of an offset is counted from the text before it: a line for each newline, and a column for each character
since the last of them. Positions are ordered as a text is read, by their lines and then by their columns. An offset further
on has a later position, so that an offset can be told from its position. -/
namespace PromptScript

/-! ## Lines of a text in two parts -/

namespace Text

/-- The characters of the line in which a text ends. -/
def lastLine (text : List Char) : List Char := (text.reverse.takeWhile (· ≠ '\n')).reverse

/-- The characters of the line in which a text starts. -/
def firstLine (text : List Char) : List Char := text.takeWhile (· ≠ '\n')

@[simp] theorem lastLine_newline (text : List Char) : lastLine (text ++ ['\n']) = [] := by simp [lastLine]

theorem lastLine_concat {c : Char} (other : c ≠ '\n') (text : List Char) :
    lastLine (text ++ [c]) = lastLine text ++ [c] := by
  simp [lastLine, other]

/-- A line goes on until the next newline. -/
theorem lastLine_append (a : List Char) {b : List Char} (free : '\n' ∉ b) : lastLine (a ++ b) = lastLine a ++ b := by
  induction b using List.reverseRecOn with
  | nil => simp
  | append_singleton r c ih =>
    rw [List.mem_append, not_or, List.mem_singleton] at free
    rw [← List.append_assoc, lastLine_concat (Ne.symm free.2), ih free.1, List.append_assoc]

theorem firstLine_eq_self {text : List Char} (free : '\n' ∉ text) : firstLine text = text := by
  induction text with
  | nil => rfl
  | cons c r ih =>
    rw [List.mem_cons, not_or] at free
    have other : c ≠ '\n' := Ne.symm free.1
    simpa [firstLine, other] using ih free.2

/-- What comes after a newline does not belong to the line. -/
theorem firstLine_append {a : List Char} (broken : '\n' ∈ a) (b : List Char) : firstLine (a ++ b) = firstLine a := by
  induction a with
  | nil => cases broken
  | cons c r ih =>
    by_cases newline : c = '\n'
    · simp [firstLine, newline]
    · have later : '\n' ∈ r := (List.mem_cons.mp broken).resolve_left (Ne.symm newline)
      simpa [firstLine, newline] using ih later

theorem firstLine_append_of_free {a : List Char} (free : '\n' ∉ a) (b : List Char) : firstLine (a ++ b) = a ++ firstLine b := by
  refine List.takeWhile_append_of_pos fun c there => decide_eq_true ?_
  rintro rfl
  exact free there

/-- The lines of two texts, the last of the first and the first of the second being one. -/
theorem lines_append {a b last first : List Char} {above below : List (List Char)} (ends : lines a = above ++ [last])
    (starts : lines b = first :: below) : lines (a ++ b) = above ++ (last ++ first) :: below := by
  induction a generalizing above last with
  | nil =>
    obtain ⟨rfl, rfl⟩ : above = [] ∧ last = [] := by
      cases above with
      | nil => exact ⟨rfl, (List.cons.inj ends).1.symm⟩
      | cons line more => cases more <;> cases (List.cons.inj ends).2
    exact starts
  | cons c r ih =>
    obtain ⟨line, more, rest, cut⟩ := lines_cons c r
    obtain ⟨line', more', rest', cut'⟩ := lines_cons c (r ++ b)
    rw [cut] at ends
    rw [List.cons_append, cut']
    by_cases newline : c = '\n'
    · rw [if_pos newline] at ends ⊢
      cases above with
      | nil => cases (List.cons.inj ends).2
      | cons line₀ above₀ =>
        obtain ⟨rfl, below⟩ := List.cons.inj ends
        rw [← rest', ih (rest.trans below)]
        rfl
    · rw [if_neg newline] at ends ⊢
      -- The character joins the first line of the rest, which is also the last one if there is no line above it.
      cases above with
      | nil =>
        obtain ⟨rfl, rfl⟩ := List.cons.inj ends
        have joined := rest'.symm.trans (@ih _ [] rest)
        obtain ⟨rfl, rfl⟩ := List.cons.inj joined
        rfl
      | cons line₀ above₀ =>
        obtain ⟨rfl, rfl⟩ := List.cons.inj ends
        have joined := rest'.symm.trans (@ih _ (line :: above₀) rest)
        obtain ⟨rfl, rfl⟩ := List.cons.inj joined
        rfl

/-- A text starts with its first line. -/
theorem lines_eq_cons (text : List Char) : ∃ below, lines text = firstLine text :: below := by
  induction text with
  | nil => exact ⟨[], rfl⟩
  | cons c r ih =>
    obtain ⟨line, more, rest, cut⟩ := lines_cons c r
    obtain ⟨below, ih⟩ := ih
    obtain ⟨rfl, rfl⟩ := List.cons.inj (rest.symm.trans ih)
    by_cases newline : c = '\n'
    · exact ⟨firstLine r :: more, by rw [cut, if_pos newline]; simp [firstLine, newline]⟩
    · exact ⟨more, by rw [cut, if_neg newline]; simp [firstLine, newline]⟩

/-- A text ends with its last line, after as many lines as there are newlines. -/
theorem lines_eq_concat (text : List Char) : ∃ above, lines text = above ++ [lastLine text] ∧ above.length = text.count '\n' := by
  induction text using List.reverseRecOn with
  | nil => exact ⟨[], rfl, rfl⟩
  | append_singleton r c ih =>
    obtain ⟨above, ends, count⟩ := ih
    by_cases newline : c = '\n'
    · subst newline
      refine ⟨above ++ [lastLine r], ?_, by simp [count]⟩
      rw [lines_append (b := ['\n']) ends rfl]
      simp
    · have single : lines [c] = [[c]] := by
        show (if c = '\n' then [[], []] else [[c]]) = [[c]]
        rw [if_neg newline]
      refine ⟨above, ?_, by simp [count, newline]⟩
      rw [lines_append ends single, lastLine_concat newline]

/-- There is no newline within a line. -/
theorem newline_not_mem_line {text line : List Char} (there : line ∈ lines text) : '\n' ∉ line := by
  induction text generalizing line with
  | nil =>
    rw [List.mem_singleton.mp there]
    exact List.not_mem_nil
  | cons c r ih =>
    obtain ⟨first, more, rest, cut⟩ := lines_cons c r
    rw [rest] at ih
    rw [cut] at there
    by_cases newline : c = '\n'
    · rw [if_pos newline] at there
      rcases List.mem_cons.mp there with rfl | there
      · exact List.not_mem_nil
      · exact ih there
    · rw [if_neg newline] at there
      rcases List.mem_cons.mp there with rfl | there
      · rw [List.mem_cons, not_or]
        exact ⟨Ne.symm newline, ih List.mem_cons_self⟩
      · exact ih (List.mem_cons_of_mem _ there)

theorem lines_of_free {text : List Char} (free : '\n' ∉ text) : lines text = [text] := by
  obtain ⟨above, ends, count⟩ := lines_eq_concat text
  rw [List.count_eq_zero.mpr free, List.length_eq_zero_iff] at count
  have whole : lastLine text = text := lastLine_append [] free
  rw [ends, count, whole]
  rfl

/-- Lines that are put together are the lines of the whole. -/
theorem lines_joinWith {parts : List (List Char)} (some : parts ≠ []) (free : ∀ part ∈ parts, '\n' ∉ part) :
    lines (joinWith ['\n'] parts) = parts := by
  induction parts with
  | nil => exact absurd rfl some
  | cons part more ih =>
    obtain ⟨here, later⟩ := List.forall_mem_cons.mp free
    cases more with
    | nil => exact lines_of_free here
    | cons next more =>
      have ends : lines (part ++ ['\n']) = [part] ++ [[]] := by
        have sole : lines part = [] ++ [part] := lines_of_free here
        rw [lines_append (b := ['\n']) sole rfl, List.append_nil]
        rfl
      show lines (part ++ ['\n'] ++ joinWith ['\n'] (next :: more)) = _
      rw [lines_append ends (ih (List.cons_ne_nil _ _) later)]
      rfl

/-! ## Positions -/

theorem endPosition_concat (text : List Char) (c : Char) : endPosition (text ++ [c]) = advance (endPosition text) c := by
  simp [endPosition]

/-- **The position where a text ends**: one line for each newline, one column for each character since the last. -/
theorem endPosition_eq (text : List Char) : endPosition text = ⟨text.count '\n' + 1, (lastLine text).length + 1⟩ := by
  induction text using List.reverseRecOn with
  | nil => rfl
  | append_singleton r c ih =>
    rw [endPosition_concat, ih]
    by_cases newline : c = '\n'
    · simp [advance, newline]
    · simp [advance, newline, lastLine_concat newline]

end Text

/-- A position comes before another one in a text. -/
def Position.Before (p q : Position) : Prop := p.line < q.line ∨ p.line = q.line ∧ p.column < q.column

namespace Position.Before

variable {p q r : Position}

theorem trans (h : p.Before q) (h' : q.Before r) : p.Before r := by
  unfold Before at *
  omega

theorem irrefl (p : Position) : ¬ p.Before p := by
  unfold Before
  omega

end Position.Before

namespace Text

theorem before_advance (p : Position) (c : Char) : p.Before (advance p c) := by
  unfold advance Position.Before
  split <;> simp

/-- The position moves on with each character. -/
theorem before_foldl_advance (p : Position) (c : Char) (r : List Char) : p.Before ((c :: r).foldl advance p) := by
  induction r generalizing p c with
  | nil => exact before_advance p c
  | cons d r ih => exact (before_advance p c).trans (ih _ d)

/-- Between two characters a text can be cut. -/
theorem Boundary.cut {text : List Char} {o : Nat} (h : Boundary text o) : byteLength (takeBytes o text) = o := by
  obtain ⟨a, b, rfl, rfl⟩ := h
  rw [takeBytes_append]

theorem boundary_iff {text : List Char} {o : Nat} : Boundary text o ↔ floorOffset text o = o :=
  ⟨Boundary.cut, fun same => same ▸ boundary_floorOffset text o⟩

instance (text : List Char) (o : Nat) : Decidable (Boundary text o) := decidable_of_iff _ boundary_iff.symm

theorem Boundary.le {text : List Char} {o : Nat} (h : Boundary text o) : o ≤ byteLength text := by
  obtain ⟨a, b, rfl, rfl⟩ := h
  rw [byteLength_append]
  exact Nat.le_add_right ..

/-- Of two cuts of a text the later one has more characters before it. -/
theorem exists_between {a a' b b' : List Char} (same : a ++ b = a' ++ b') (less : byteLength a < byteLength a') :
    ∃ c r, a' = a ++ c :: r := by
  rcases List.append_eq_append_iff.mp same with ⟨between, rfl, -⟩ | ⟨between, rfl, -⟩
  · cases between with
    | nil =>
      rw [List.append_nil] at less
      exact absurd less (Nat.lt_irrefl _)
    | cons c r => exact ⟨c, r, rfl⟩
  · rw [byteLength_append] at less
    omega

theorem before_positionAt {text : List Char} {m n : Nat} (hm : Boundary text m) (hn : Boundary text n) (less : m < n) :
    (positionAt text m).Before (positionAt text n) := by
  obtain ⟨a, b, same, rfl⟩ := hm
  obtain ⟨a', b', same', rfl⟩ := hn
  obtain ⟨c, r, later⟩ := exists_between (same.symm.trans same') less
  have here : takeBytes (byteLength a) text = a := by rw [same, takeBytes_append]
  have there : takeBytes (byteLength a') text = a ++ c :: r := by rw [same', takeBytes_append, later]
  unfold positionAt
  rw [here, there]
  unfold endPosition
  rw [List.foldl_append]
  exact before_foldl_advance _ c r

/-- **Positions are in the order of their offsets.** -/
theorem before_positionAt_iff {text : List Char} {m n : Nat} (hm : Boundary text m) (hn : Boundary text n) :
    (positionAt text m).Before (positionAt text n) ↔ m < n := by
  refine ⟨fun earlier => ?_, before_positionAt hm hn⟩
  rcases Nat.lt_trichotomy m n with less | rfl | more
  · exact less
  · exact absurd earlier (Position.Before.irrefl _)
  · exact absurd (earlier.trans (before_positionAt hn hm more)) (Position.Before.irrefl _)

/-- An offset can be told from its position. -/
theorem positionAt_inj {text : List Char} {m n : Nat} (hm : Boundary text m) (hn : Boundary text n) :
    positionAt text m = positionAt text n ↔ m = n := by
  refine ⟨fun same => ?_, congrArg _⟩
  rcases Nat.lt_trichotomy m n with less | equal | more
  · exact absurd (same ▸ before_positionAt hm hn less) (Position.Before.irrefl _)
  · exact equal
  · exact absurd (same ▸ before_positionAt hn hm more) (Position.Before.irrefl _)

/-- An offset is moved back to the nearest place between two characters. -/
theorem Boundary.le_floorOffset {text : List Char} {m n : Nat} (hm : Boundary text m) (le : m ≤ n) :
    m ≤ floorOffset text n := by
  have kept : floorOffset text m = m := hm.cut
  rw [← kept]
  exact floorOffset_mono text le

end Text
end PromptScript
