import PromptScript.Defect
import PromptScript.Proofs.Positions

/-! # What an excerpt shows

The excerpt of a text around a span shows the lines from two above the one where the span starts to two below the one
where it stops, as far as there are such lines. Each has its number in front, all numbers being of one width. Under the
line where the span starts there is a mark: its caret is under the first character of the span, and it is as long as the
part of the span on that line.

Showing a defect takes prefixes of the source and subtracts numbers. `Diagnostic.checked?` is the same with each of these
steps tested, and it never fails. -/
namespace PromptScript

/-! ## Rows -/

namespace Number

/-- A greater number has no fewer digits. -/
theorem length_digitsOf_mono {m n : Nat} (le : m ≤ n) : (digitsOf m).length ≤ (digitsOf n).length := by
  unfold digitsOf
  induction n using Nat.strongRecOn generalizing m with
  | ind n ih =>
    by_cases small : m < 10
    · rw [Nat.toDigits_of_lt_base small]
      exact Nat.length_toDigits_pos
    · have tenth : n / 10 < n := by omega
      rw [Nat.toDigits_of_base_le (by decide) (by omega : 10 ≤ m), Nat.toDigits_of_base_le (by decide) (by omega : 10 ≤ n),
        List.length_append, List.length_append]
      exact Nat.add_le_add_right (ih (n / 10) tenth (Nat.div_le_div_right le)) _

end Number

namespace Text

/-- A line with its number in front, the number at the right of the gutter. -/
def numbered (gutter n : Nat) (line : List Char) : List Char :=
  padLeft gutter (Number.digitsOf n) ++ ':' :: ' ' :: line

/-- Lines with their numbers, the first of which is given. -/
def numberedFrom (gutter : Nat) : Nat → List (List Char) → List (List Char)
  | _, [] => []
  | n, line :: r => numbered gutter n line :: numberedFrom gutter (n + 1) r

/-- A row that underlines some characters of the row above: the caret is under the first of them, and each further one
has a tilde. There is a caret even where there is nothing to underline. -/
def markUnder (gutter : Nat) (lead marked : List Char) : List Char :=
  List.replicate (gutter + 2 + lead.length) ' ' ++ '^' :: List.replicate (max 1 marked.length - 1) '~'

@[simp] theorem length_padLeft {gutter : Nat} {text : List Char} (fits : text.length ≤ gutter) :
    (padLeft gutter text).length = gutter := by
  simp [padLeft, fits]

theorem underline_eq (gutter : Nat) (lead marked : List Char) :
    underline gutter (lead.length + 1) (max 1 marked.length) = markUnder gutter lead marked := by
  unfold underline markUnder
  rw [Nat.add_sub_cancel, List.replicate_append_replicate]

variable {gutter n : Nat} {start stop : Position}

theorem frameLines_append (a b : List (Nat × List Char)) :
    frameLines gutter start stop (a ++ b) = frameLines gutter start stop a ++ frameLines gutter start stop b := by
  induction a with
  | nil => rfl
  | cons e r ih =>
    simp only [List.cons_append, frameLines, ih]
    split <;> rfl

/-- Lines above and below the one where the span starts are shown with their numbers. -/
theorem frameLines_apart {shown : List (List Char)} (apart : start.line < n ∨ n + shown.length ≤ start.line) :
    frameLines gutter start stop ((List.range' n shown.length).zip shown) = numberedFrom gutter n shown := by
  induction shown generalizing n with
  | nil => rfl
  | cons line r ih =>
    rw [List.length_cons] at apart
    have other : n ≠ start.line := by omega
    rw [List.length_cons, List.range'_succ, List.zip_cons_cons]
    unfold frameLines numberedFrom
    rw [if_neg other, ih (by omega)]
    rfl

/-- The line where the span starts is shown with the mark under it. -/
theorem frameLines_around {above below : List (List Char)} {line : List Char} (here : n + above.length = start.line) :
    frameLines gutter start stop ((List.range' n (above ++ line :: below).length).zip (above ++ line :: below)) =
      numberedFrom gutter n above ++ numbered gutter start.line line ::
        underline gutter start.column (markWidth start stop line) :: numberedFrom gutter (start.line + 1) below := by
  have numbers : List.range' n (above ++ line :: below).length =
      List.range' n above.length ++ start.line :: List.range' (start.line + 1) below.length := by
    rw [List.length_append, ← List.range'_append_1, here, List.length_cons, List.range'_succ]
  rw [numbers, List.zip_append (by simp), frameLines_append, frameLines_apart (.inr (Nat.le_of_eq here)), List.zip_cons_cons]
  unfold frameLines
  rw [if_pos rfl, frameLines_apart (.inl (Nat.lt_succ_self _))]
  rfl

theorem newline_not_mem_numbered {line : List Char} (free : '\n' ∉ line) : '\n' ∉ numbered gutter n line := by
  have digits : '\n' ∉ Number.digitsOf n := fun there =>
    absurd (Nat.isDigit_of_mem_toDigits (by decide) (by decide) there) (by decide)
  simp [numbered, padLeft, digits, free]

theorem newline_not_mem_numberedFrom {shown : List (List Char)} (free : ∀ line ∈ shown, '\n' ∉ line) :
    ∀ row ∈ numberedFrom gutter n shown, '\n' ∉ row := by
  induction shown generalizing n with
  | nil => exact fun row there => nomatch there
  | cons line r ih =>
    obtain ⟨here, later⟩ := List.forall_mem_cons.mp free
    exact List.forall_mem_cons.mpr ⟨newline_not_mem_numbered here, ih later⟩

end Text

/-! ## Frames -/

namespace Diagnostic

/-- The number of the first line that is shown. -/
def top (d : Diagnostic) : Nat := max 1 (d.start.line - 2)

/-- The number of the last line that is shown. -/
def bottom (source : List Char) (d : Diagnostic) : Nat := min (d.stop.line + 2) (Text.lines source).length

/-- The width of the numbers in front of the lines. -/
def gutter (source : List Char) (d : Diagnostic) : Nat := (Number.digitsOf (d.bottom source)).length

/-- What stands on the line where the span starts in front of the span. -/
def lead (source : List Char) (d : Diagnostic) : List Char := Text.lastLine (Text.takeBytes d.span.start source)

/-- What the span covers of the line where it starts. -/
def marked (source : List Char) (d : Diagnostic) : List Char := Text.firstLine (Text.slice source d.span)

/-- The frame of a diagnostic shows its span in the source. -/
structure Framed (source : List Char) (d : Diagnostic) (above : List (List Char)) (tail : List Char)
    (below : List (List Char)) : Prop where
  /-- The lines shown are those from the top to the bottom, -/
  shown : ((Text.lines source).take (d.bottom source)).drop (d.top - 1) =
    above ++ (d.lead source ++ d.marked source ++ tail) :: below
  /-- none of them is missing, -/
  whole : above.length + 1 + below.length = d.bottom source + 1 - d.top
  /-- and the line on which the span starts is where its number says. -/
  here : d.top + above.length = d.start.line
  /-- There is a row for each of these lines, and one more, the mark, under the line where the span starts. -/
  rows : Text.lines d.frame.toList =
    Text.numberedFrom (d.gutter source) d.top above ++
      Text.numbered (d.gutter source) d.start.line (d.lead source ++ d.marked source ++ tail) ::
      Text.markUnder (d.gutter source) (d.lead source) (d.marked source) ::
      Text.numberedFrom (d.gutter source) (d.start.line + 1) below
  /-- All numbers are of the same width. -/
  aligned : ∀ n ≤ d.bottom source, (Text.padLeft (d.gutter source) (Number.digitsOf n)).length = d.gutter source

end Diagnostic

namespace Text

variable {text : List Char} {m n : Nat}

/-- What stands before the end of a span is what stands before its start, and what it covers. -/
theorem takeBytes_slice (hm : Boundary text m) (hn : Boundary text n) (le : m ≤ n) :
    takeBytes n text = takeBytes m text ++ slice text ⟨m, n⟩ := by
  obtain ⟨a, b, rfl, rfl⟩ := hm
  obtain ⟨a', b', same, rfl⟩ := hn
  obtain ⟨between, rfl, rfl⟩ := exists_append_of_byteLength_le same le
  rw [slice_eq (List.append_assoc a between b').symm, takeBytes_append, ← List.append_assoc, takeBytes_append]

/-- The line where a part of a text starts, between the lines above and below. -/
theorem lines_around (before part after : List Char) :
    ∃ above tail below, lines (before ++ part ++ after) = above ++ (lastLine before ++ firstLine part ++ tail) :: below ∧
      above.length = before.count '\n' ∧ ('\n' ∈ part → tail = []) := by
  obtain ⟨above, ends, count⟩ := lines_eq_concat before
  obtain ⟨below, starts⟩ := lines_eq_cons (part ++ after)
  have cut := lines_append ends starts
  rw [← List.append_assoc] at cut
  by_cases broken : '\n' ∈ part
  · rw [firstLine_append broken] at cut
    exact ⟨above, [], below, by rw [List.append_nil]; exact cut, count, fun _ => rfl⟩
  · rw [firstLine_append_of_free broken, ← List.append_assoc] at cut
    exact ⟨above, firstLine after, below, by rw [firstLine_eq_self broken]; exact cut, count, fun there => absurd there broken⟩

/-- The mark is as long as what the part has on its first line. -/
theorem markWidth_eq (before part tail : List Char) (ends : '\n' ∈ part → tail = []) :
    markWidth (endPosition before) (endPosition (before ++ part)) (lastLine before ++ firstLine part ++ tail) =
      max 1 (firstLine part).length := by
  unfold markWidth
  rw [endPosition_eq, endPosition_eq, List.count_append]
  by_cases broken : '\n' ∈ part
  · have further := List.count_pos_iff.mpr broken
    rw [ends broken, if_neg (by simp only; omega)]
    simp
  · rw [List.count_eq_zero.mpr broken, lastLine_append before broken, firstLine_eq_self broken, if_pos rfl]
    simp

/-- The lines from one number to another. -/
theorem drop_take_around {above below : List (List Char)} {line : List Char} {top bottom : Nat} (start : top ≤ above.length + 1)
    (stop : above.length < bottom) :
    ((above ++ line :: below).take bottom).drop (top - 1) =
      above.drop (top - 1) ++ line :: below.take (bottom - (above.length + 1)) := by
  obtain ⟨more, rfl⟩ := Nat.exists_eq_add_of_lt stop
  have ahead : above.length + more + 1 = above.length + (more + 1) := by omega
  have rest : above.length + (more + 1) - (above.length + 1) = more := by omega
  rw [ahead, List.take_length_add_append, List.take_succ_cons, rest, List.drop_append_of_le_length (by omega)]

/-- The rows of a frame. -/
theorem lines_frame {above below : List (List Char)} {line : List Char} {start stop : Position} {top bottom : Nat}
    (first : top = max 1 (start.line - 2)) (last : bottom = min (stop.line + 2) (lines text).length)
    (shown : ((lines text).take bottom).drop (top - 1) = above ++ line :: below) (here : top + above.length = start.line) :
    lines (frame text start stop) =
      numberedFrom (Number.digitsOf bottom).length top above ++ numbered (Number.digitsOf bottom).length start.line line ::
        underline (Number.digitsOf bottom).length start.column (markWidth start stop line) ::
        numberedFrom (Number.digitsOf bottom).length (start.line + 1) below := by
  have free : ∀ l ∈ above ++ line :: below, '\n' ∉ l := fun l there =>
    newline_not_mem_line (List.mem_of_mem_take (List.mem_of_mem_drop (shown ▸ there)))
  have count : bottom + 1 - top = bottom - (top - 1) := by omega
  have laid : frame text start stop = joinWith ['\n']
      (frameLines (Number.digitsOf bottom).length start stop
        ((List.range' top (above ++ line :: below).length).zip (above ++ line :: below))) := by
    rw [← shown, List.drop_take, ← count, first, last]
    rfl
  rw [laid, frameLines_around here, lines_joinWith (by simp)]
  intro row there
  rcases List.mem_append.mp there with there | there
  · exact newline_not_mem_numberedFrom (fun l there => free l (by simp [there])) row there
  · rcases List.mem_cons.mp there with rfl | there
    · exact newline_not_mem_numbered (free line (by simp))
    · rcases List.mem_cons.mp there with rfl | there
      · simp [underline]
      · exact newline_not_mem_numberedFrom (fun l there => free l (by simp [there])) row there

end Text

namespace Diagnostic

/-- **A frame shows its span.** -/
theorem framed (source : List Char) (fault : Fault) : ∃ above tail below, (of source fault).Framed source above tail below := by
  obtain ⟨hm, hn, le⟩ := of_within source fault
  have start : (of source fault).start = Text.endPosition (Text.takeBytes (of source fault).span.start source) := rfl
  have stop : (of source fault).stop = Text.endPosition (Text.takeBytes (of source fault).span.stop source) := rfl
  have frame : (of source fault).frame = String.ofList (Text.frame source (of source fault).start (of source fault).stop) := rfl
  generalize of source fault = d at *
  have through := Text.takeBytes_slice hm hn le
  have whole := Text.takeBytes_append_dropBytes d.span.stop source
  rw [through] at stop whole
  obtain ⟨above, tail, below, cut, count, ends⟩ :=
    Text.lines_around (Text.takeBytes d.span.start source) (Text.slice source d.span) (Text.dropBytes d.span.stop source)
  have width := Text.markWidth_eq (Text.takeBytes d.span.start source) _ _ ends
  rw [whole] at cut
  rw [← start, ← stop] at width
  rw [Text.endPosition_eq] at start stop
  replace cut : Text.lines source = above ++ (d.lead source ++ d.marked source ++ tail) :: below := cut
  have first : d.start.line = above.length + 1 := by rw [start, count]
  have column : d.start.column = (d.lead source).length + 1 := by rw [start]; rfl
  have later : d.start.line ≤ d.stop.line := by
    rw [start, stop, List.count_append]
    exact Nat.add_le_add_right (Nat.le_add_right ..) 1
  have total : (Text.lines source).length = above.length + 1 + below.length := by
    rw [cut, List.length_append, List.length_cons]
    omega
  -- The lines that are shown reach from above the line of the span to below it.
  have top : d.top ≤ above.length + 1 := by unfold top; omega
  have bottom : above.length < d.bottom source ∧ d.bottom source ≤ above.length + 1 + below.length := by
    unfold Diagnostic.bottom
    omega
  have shown : ((Text.lines source).take (d.bottom source)).drop (d.top - 1) = _ := cut ▸ Text.drop_take_around top bottom.1
  have positive : 1 ≤ d.top := Nat.le_max_left ..
  have here : d.top + (above.drop (d.top - 1)).length = d.start.line := by
    rw [List.length_drop]
    omega
  refine ⟨above.drop (d.top - 1), tail, below.take (d.bottom source - (above.length + 1)), shown, ?_, here, ?_, ?_⟩
  · rw [List.length_drop, List.length_take]
    omega
  · rw [frame, String.toList_ofList, Text.lines_frame rfl rfl shown here, column]
    unfold Diagnostic.lead Diagnostic.marked
    rw [width, Text.underline_eq]
    rfl
  · intro n le
    exact Text.length_padLeft (Number.length_digitsOf_mono le)

end Diagnostic

/-! ## Each step tested -/

namespace Text

/-- A difference, if it is not negative. -/
def minus? (a b : Nat) : Option Nat := if b ≤ a then some (a - b) else none

/-- The text before an offset, if the offset is between two characters. -/
def before? (text : List Char) (o : Nat) : Option (List Char) :=
  if Boundary text o then some (takeBytes o text) else none

/-- The text behind an offset, if the offset is between two characters. -/
def behind? (text : List Char) (o : Nat) : Option (List Char) :=
  if Boundary text o then some (dropBytes o text) else none

/-- Goes back from an offset to a place between two characters, if there is one. -/
def back? (text : List Char) : Nat → Option Nat
  | 0 => if Boundary text 0 then some 0 else none
  | n + 1 => if Boundary text (n + 1) then some (n + 1) else back? text n

/-- The place between two characters for an offset, which may be beyond the end. -/
def place? (text : List Char) (o : Nat) : Option Nat := back? text (min o (byteLength text))

/-- The offset of the last newline. -/
def lastNewline? : List Char → Option Nat
  | [] => none
  | c :: r =>
    match lastNewline? r with
    | some o => some (c.utf8Size + o)
    | none => if c = '\n' then some 0 else none

/-- The offset where the last line starts. -/
def lineStart (text : List Char) : Nat := (lastNewline? text).elim 0 (· + 1)

/-- The position of an offset, if it is between two characters. -/
def positionAt? (text : List Char) (o : Nat) : Option Position := do
  let before ← before? text o
  let line ← behind? before (lineStart before)
  return ⟨before.count '\n' + 1, line.length + 1⟩

/-- The rows for the line of a number. -/
def rows? (text : List Char) (gutter : Nat) (start stop : Position) (n : Nat) : Option (List (List Char)) := do
  let line := (lines text).getD (← minus? n 1) []
  if n = start.line then
    let lead ← minus? start.column 1
    let width := if stop.line = start.line then max 1 (stop.column - start.column) else max 1 (line.length - lead)
    let further ← minus? width 1
    return [numbered gutter n line,
      List.replicate (gutter + 2) ' ' ++ List.replicate lead ' ' ++ '^' :: List.replicate further '~']
  else return [numbered gutter n line]

/-- The excerpt of a text around a span that starts and stops at the given positions. -/
def frame? (text : List Char) (start stop : Position) : Option (List Char) := do
  let first := max 1 (start.line - frameContext)
  let last := min (stop.line + frameContext) (lines text).length
  let rows ← (List.range' first (last + 1 - first)).mapM (rows? text (Number.digitsOf last).length start stop)
  return joinWith ['\n'] rows.flatten

end Text

/-- Shows a defect in a source, with each step tested. -/
def Diagnostic.checked? (source : List Char) (fault : Fault) : Option Diagnostic := do
  let start ← Text.place? source fault.span.start
  let stop ← Text.place? source (max fault.span.stop fault.span.start)
  let first ← Text.positionAt? source start
  let last ← Text.positionAt? source stop
  let frame ← Text.frame? source first last
  return ⟨fault.defect, ⟨start, stop⟩, first, last, String.ofList frame⟩

namespace Text

variable {text : List Char} {m n o : Nat}

theorem boundary_zero (text : List Char) : Boundary text 0 := ⟨[], text, rfl, rfl⟩

theorem back?_eq (text : List Char) (n : Nat) : back? text n = some (floorOffset text n) := by
  induction n with
  | zero =>
    have kept : floorOffset text 0 = 0 := (boundary_zero text).cut
    rw [kept]
    exact if_pos (boundary_zero text)
  | succ n ih =>
    unfold back?
    by_cases boundary : Boundary text (n + 1)
    · rw [if_pos boundary, show floorOffset text (n + 1) = n + 1 from boundary.cut]
    · have within := floorOffset_le text (n + 1)
      have other : floorOffset text (n + 1) ≠ n + 1 := mt boundary_iff.mpr boundary
      have low : floorOffset text (n + 1) ≤ floorOffset text n := (boundary_floorOffset ..).le_floorOffset (by omega)
      have high : floorOffset text n ≤ floorOffset text (n + 1) := floorOffset_mono text (Nat.le_succ n)
      rw [if_neg boundary, ih, Nat.le_antisymm high low]

theorem place?_eq (text : List Char) (o : Nat) : place? text o = some (floorOffset text o) := by
  unfold place?
  rw [back?_eq]
  have high : floorOffset text (min o (byteLength text)) ≤ floorOffset text o := floorOffset_mono text (Nat.min_le_left ..)
  have low : floorOffset text o ≤ floorOffset text (min o (byteLength text)) :=
    (boundary_floorOffset ..).le_floorOffset (Nat.le_min.mpr ⟨floorOffset_le .., (boundary_floorOffset ..).le⟩)
  rw [Nat.le_antisymm high low]

theorem lastNewline?_of_free (free : '\n' ∉ text) : lastNewline? text = none := by
  induction text with
  | nil => rfl
  | cons c r ih =>
    rw [List.mem_cons, not_or] at free
    unfold lastNewline?
    rw [ih free.2]
    exact if_neg (Ne.symm free.1)

theorem lastNewline?_append (a : List Char) {b : List Char} (free : '\n' ∉ b) :
    lastNewline? (a ++ '\n' :: b) = some (byteLength a) := by
  induction a with
  | nil =>
    show lastNewline? ('\n' :: b) = _
    unfold lastNewline?
    rw [lastNewline?_of_free free]
    rfl
  | cons c r ih =>
    rw [List.cons_append]
    unfold lastNewline?
    rw [ih]
    rfl

/-- Before the last line there is nothing, or a newline. -/
theorem lastLine_cases (text : List Char) :
    '\n' ∉ lastLine text ∧ (lastLine text = text ∨ ∃ above, text = above ++ '\n' :: lastLine text) := by
  induction text using List.reverseRecOn with
  | nil => exact ⟨List.not_mem_nil, .inl rfl⟩
  | append_singleton r c ih =>
    obtain ⟨free, whole⟩ := ih
    by_cases newline : c = '\n'
    · subst newline
      rw [lastLine_newline]
      exact ⟨List.not_mem_nil, .inr ⟨r, rfl⟩⟩
    · rw [lastLine_concat newline]
      refine ⟨by simp [free, Ne.symm newline], whole.imp (congrArg (· ++ [c])) ?_⟩
      rintro ⟨above, cut⟩
      refine ⟨above, ?_⟩
      nth_rewrite 1 [cut]
      simp

/-- The last line is what stands behind its start. -/
theorem behind?_lineStart (text : List Char) : behind? text (lineStart text) = some (lastLine text) := by
  have behind (a b : List Char) : behind? (a ++ b) (byteLength a) = some b := by
    unfold behind?
    rw [if_pos ⟨a, b, rfl, rfl⟩, dropBytes_append]
  obtain ⟨free, whole | ⟨above, whole⟩⟩ := lastLine_cases text
  · unfold lineStart
    rw [lastNewline?_of_free (whole ▸ free), whole]
    exact behind [] text
  · have start : lineStart text = byteLength (above ++ ['\n']) := by
      rw [whole, lineStart, lastNewline?_append above free, byteLength_append]
      rfl
    rw [start]
    nth_rewrite 1 [whole]
    rw [List.append_cons]
    exact behind _ _

theorem positionAt?_eq (boundary : Boundary text o) : positionAt? text o = some (positionAt text o) := by
  unfold positionAt? positionAt before?
  rw [if_pos boundary, Option.bind_eq_bind, Option.bind_some, behind?_lineStart, endPosition_eq]
  rfl

/-- The rows for one numbered line. -/
theorem rows?_eq {gutter : Nat} {start stop : Position} (column : 1 ≤ start.column) (number : 1 ≤ n) :
    rows? text gutter start stop n = some (frameLines gutter start stop [(n, (lines text).getD (n - 1) [])]) := by
  have positive {a b : Nat} (le : b ≤ a) : minus? a b = some (a - b) := if_pos le
  unfold rows?
  rw [positive number, positive column]
  simp only [Option.bind_eq_bind, Option.bind_some]
  unfold frameLines
  by_cases here : n = start.line
  · simp only [if_pos here]
    rw [positive (by split <;> exact Nat.le_max_left ..)]
    rfl
  · simp only [if_neg here]
    rfl

theorem mapM_eq_some {α β : Type} {f : α → Option β} {g : α → β} {l : List α} (each : ∀ a ∈ l, f a = some (g a)) :
    l.mapM f = some (l.map g) := by
  induction l with
  | nil => rfl
  | cons a r ih =>
    obtain ⟨here, later⟩ := List.forall_mem_cons.mp each
    rw [List.mapM_cons, here, ih later]
    rfl

theorem frameLines_eq_flatMap {gutter : Nat} {start stop : Position} (shown : List (Nat × List Char)) :
    frameLines gutter start stop shown = shown.flatMap fun e => frameLines gutter start stop [e] := by
  induction shown with
  | nil => rfl
  | cons e r ih => rw [List.flatMap_cons, ← ih, ← frameLines_append]; rfl

/-- The lines of a text with their numbers. -/
theorem zip_lines {all : List (List Char)} {first count : Nat} (positive : 1 ≤ first) (fits : count ≤ all.length - (first - 1)) :
    (List.range' first ((all.drop (first - 1)).take count).length).zip ((all.drop (first - 1)).take count) =
      (List.range' first count).map fun n => (n, all.getD (n - 1) []) := by
  have length : ((all.drop (first - 1)).take count).length = count := by
    rw [List.length_take, List.length_drop]
    omega
  rw [length]
  refine List.ext_getElem (by simp [length]) fun i here _ => ?_
  have within : first - 1 + i < all.length := by
    simp [length] at here
    omega
  have place : first + i - 1 = first - 1 + i := by omega
  simp [place, within]

theorem frame?_eq {start stop : Position} (column : 1 ≤ start.column) : frame? text start stop = some (frame text start stop) := by
  unfold frame? frame
  simp only
  generalize first_def : max 1 (start.line - frameContext) = first
  generalize last_def : min (stop.line + frameContext) (lines text).length = last
  have positive : 1 ≤ first := by omega
  have rows : ∀ n ∈ List.range' first (last + 1 - first), rows? text (Number.digitsOf last).length start stop n = some _ :=
    fun n there => rows?_eq column (Nat.le_trans positive (List.mem_range'_1.mp there).1)
  rw [mapM_eq_some rows, zip_lines positive (by omega), frameLines_eq_flatMap, List.flatMap_map]
  rfl

end Text

/-- No step of showing a defect fails. -/
theorem Diagnostic.checked?_eq (source : List Char) (fault : Fault) : checked? source fault = some (of source fault) := by
  have column (o : Nat) : 1 ≤ (Text.positionAt source o).column := by
    unfold Text.positionAt
    rw [Text.endPosition_eq]
    exact Nat.le_add_left ..
  unfold checked?
  rw [Text.place?_eq, Text.place?_eq]
  simp only [Option.bind_eq_bind, Option.bind_some]
  rw [Text.positionAt?_eq (Text.boundary_floorOffset ..), Text.positionAt?_eq (Text.boundary_floorOffset ..)]
  simp only [Option.bind_some]
  rw [Text.frame?_eq (column _)]
  rfl

namespace Diagnostic

/-- A diagnostic is about the place a fault names: about the nearest offsets between two characters that are no greater,
and it tells their lines and columns. -/
structure Placed (source : List Char) (fault : Fault) (d : Diagnostic) : Prop where
  start_boundary : Text.Boundary source d.span.start
  stop_boundary : Text.Boundary source d.span.stop
  start_le_stop : d.span.start ≤ d.span.stop
  stop_le_length : d.span.stop ≤ Text.byteLength source
  nearest_start : ∀ o, Text.Boundary source o → (o ≤ d.span.start ↔ o ≤ fault.span.start)
  nearest_stop : ∀ o, Text.Boundary source o → (o ≤ d.span.stop ↔ o ≤ max fault.span.stop fault.span.start)
  start_eq : d.start = ⟨(Text.takeBytes d.span.start source).count '\n' + 1,
    (Text.lastLine (Text.takeBytes d.span.start source)).length + 1⟩
  stop_eq : d.stop = ⟨(Text.takeBytes d.span.stop source).count '\n' + 1,
    (Text.lastLine (Text.takeBytes d.span.stop source)).length + 1⟩

theorem placed (source : List Char) (fault : Fault) : (of source fault).Placed source fault := by
  obtain ⟨start, stop, le⟩ := of_within source fault
  have nearest (n o : Nat) (boundary : Text.Boundary source o) : o ≤ Text.floorOffset source n ↔ o ≤ n :=
    ⟨fun low => Nat.le_trans low (Text.floorOffset_le source n), boundary.le_floorOffset⟩
  exact ⟨start, stop, le, stop.le, nearest _, nearest _, Text.endPosition_eq _, Text.endPosition_eq _⟩

/-- **Showing a defect never fails, and it shows the right place.** Whatever span a fault names, all steps of showing it
succeed, and what is shown is about the nearest offsets between two characters. Positions are in the order of the offsets,
so that they tell the offsets, and the frame has the lines around the span and a mark under its part of the first. -/
theorem shown_right (source : List Char) (fault : Fault) :
    checked? source fault = some (of source fault) ∧ (of source fault).Placed source fault ∧
      (∀ m n, Text.Boundary source m → Text.Boundary source n →
        ((Text.positionAt source m).Before (Text.positionAt source n) ↔ m < n) ∧
          (Text.positionAt source m = Text.positionAt source n ↔ m = n)) ∧
      ∃ above tail below, (of source fault).Framed source above tail below :=
  ⟨checked?_eq source fault, placed source fault,
    fun _ _ hm hn => ⟨Text.before_positionAt_iff hm hn, Text.positionAt_inj hm hn⟩, framed source fault⟩

/-- A span that ends beyond the text is shown up to the end. -/
example : (of "a\nbc".toList ⟨.unexpectedEnd, ⟨3, 9⟩⟩).frame = "1: a\n2: bc\n    ^" := by decide +kernel

end Diagnostic
end PromptScript
