import PromptScript.Proofs.Embedded

/-! # Texts that fork

Two texts have a stretch in common, and go on alike or each with a closing brace. What is read of the stretch in one of
them is read in the other, too: no token goes on with a closing brace, so a reading that stays within the stretch sees the
same characters. `Parallel` compares two readings of them. What they read may differ in the places where it stands. -/
namespace PromptScript

theorem Cursor.rest_skip (n : Nat) (c : Cursor) : (c.skip n).rest = c.rest.drop n := by
  obtain ⟨offset, rest⟩ := c
  induction n generalizing offset rest with
  | zero => rfl
  | succ n ih => cases rest with
    | nil => rfl
    | cons d r => exact ih _ _

/-- What is left at a cursor is left at every one before it. -/
theorem Cursor.Ahead.within {c c' : Cursor} {behind : List Char} (h : c.Ahead c') (within : behind <:+ c'.rest) :
    behind <:+ c.rest := by
  obtain ⟨read, rest, -⟩ := h
  rw [rest]
  exact within.trans (List.suffix_append ..)

namespace Grammar

variable {α β γ δ : Type}

/-- How two texts go on that are alike up to a point. -/
structure Fork where
  behind : List Char
  behind' : List Char
  ended : behind = [] → behind' = []

namespace Fork

variable {w : Fork} {c c' d : Cursor}

/-- They go on alike, or each with a closing brace. -/
class Closes (w : Fork) : Prop where
  closing : w.behind = w.behind' ∨ ∃ r r', w.behind = '\x7d' :: r ∧ w.behind' = '\x7d' :: r'

/-- Two cursors are at the same place of the stretch in common. -/
def At (w : Fork) (c d : Cursor) : Prop := ∃ text, c.rest = text ++ w.behind ∧ d.rest = text ++ w.behind'

/-- On both branches they go on by the same text. -/
theorem At.onward (at_ : w.At c d) {read more : List Char} (rest : c.rest = read ++ more) (within : w.behind <:+ more) :
    ∃ later, more = later ++ w.behind ∧ d.rest = read ++ (later ++ w.behind') := by
  obtain ⟨text, here, here'⟩ := at_
  obtain ⟨later, there⟩ := within
  have whole : text ++ w.behind = read ++ later ++ w.behind := by rw [← here, rest, List.append_assoc, there]
  obtain rfl := List.append_cancel_right whole
  exact ⟨later, there.symm, by rw [here', List.append_assoc]⟩

/-! ## What texts start with -/

/-- Two texts from the same place of the stretch in common, or the same text. -/
def Sees (w : Fork) (text text' : List Char) : Prop :=
  (∃ t, text = t ++ w.behind ∧ text' = t ++ w.behind') ∨ text = text'

/-- What a function tells from a text does not depend on the branch. -/
def Blind (w : Fork) (f : List Char → α) : Prop := ∀ text text', w.Sees text text' → f text' = f text

variable [closes : w.Closes]

theorem blind_of_brace {f : List Char → α} (h : ∀ text r r', f (text ++ '\x7d' :: r) = f (text ++ '\x7d' :: r')) :
    w.Blind f := by
  rintro text text' (⟨t, rfl, rfl⟩ | rfl)
  · rcases closes.closing with same | ⟨r, r', here, here'⟩
    · rw [same]
    · rw [here, here']
      exact h t r' r
  · rfl

/-- What is told from the first two characters, and from a closing brace alone. -/
theorem blind_of_two {f : List Char → α} (far : ∀ a b r r', f (a :: b :: r) = f (a :: b :: r'))
    (first : ∀ r r', f ('\x7d' :: r) = f ('\x7d' :: r')) : w.Blind f := by
  refine blind_of_brace fun text r r' => ?_
  match text with
  | [] => exact first r r'
  | [a] => exact far a _ r r'
  | a :: b :: _ => exact far a b _ _

theorem blind_head : w.Blind List.head? := blind_of_brace fun text r r' => by cases text <;> rfl

omit closes in
/-- A lead does not reach behind a character that is not in it. -/
theorem dropLead?_stop {stop : Char} {lead : List Char} (plain : lead.all (· != stop) = true) (text r : List Char) :
    Text.dropLead? lead (text ++ stop :: r) = (Text.dropLead? lead text).map (· ++ stop :: r) := by
  induction lead generalizing text with
  | nil => rfl
  | cons a lead ih =>
    obtain ⟨first, later⟩ := Bool.and_eq_true_iff.mp plain
    cases text with
    | nil => exact if_neg (bne_iff_ne.mp first)
    | cons c text =>
      show (if a = c then Text.dropLead? lead (text ++ stop :: r) else none) = (if a = c then _ else _ : Option _).map _
      split
      · exact ih later text
      · rfl

theorem blind_startsWith {lead : List Char} (plain : lead.all (· != '\x7d') = true) : w.Blind (Text.startsWith lead) := by
  refine blind_of_brace fun text r r' => ?_
  rw [Text.startsWith, Text.startsWith, dropLead?_stop plain, dropLead?_stop plain, Option.isSome_map, Option.isSome_map]

theorem blind_startsWithWord {word : String} (plain : word.toList.all (· != '\x7d') = true) :
    w.Blind (startsWithWord word) := by
  refine blind_of_brace fun text r r' => ?_
  unfold startsWithWord
  rw [dropLead?_stop plain, dropLead?_stop plain]
  match Text.dropLead? word.toList text with
  | none | some [] | some (_ :: _) => rfl

theorem blind_symbolAt? {table : List (String × α)} (plain : table.all (·.1.toList.all (· != '\x7d')) = true) :
    w.Blind (symbolAt? table) := by
  intro text text' sees
  unfold symbolAt?
  induction table with
  | nil => rfl
  | cons entry table ih =>
    obtain ⟨first, later⟩ := Bool.and_eq_true_iff.mp plain
    rw [List.find?_cons, List.find?_cons, w.blind_startsWith first _ _ sees, ih later]

theorem blind_infixAt? : w.Blind infixAt? := by
  intro text text' sees
  unfold infixAt?
  rw [w.blind_startsWithWord (by decide) _ _ sees, w.blind_symbolAt? (by decide) _ _ sees, w.blind_symbolAt? (by decide) _ _ sees]

theorem blind_updateAt? : w.Blind updateAt? := blind_of_two updateAt?_far fun _ _ => rfl

theorem blind_assignAt? : w.Blind assignAt? := by
  intro text text' sees
  unfold assignAt?
  rw [w.blind_symbolAt? (by decide) _ _ sees]
  cases symbolAt? assignSymbols text with
  | some found => rfl
  | none => exact blind_of_two plainAssignAt?_far (fun _ _ => rfl) _ _ sees

theorem blind_unaryAt? : w.Blind unaryAt? := by
  have words : w.Blind (startsWithWord "typeof") ∧ w.Blind (startsWithWord "void") :=
    ⟨blind_startsWithWord (by decide), blind_startsWithWord (by decide)⟩
  intro text text' sees
  have head := blind_head _ _ sees
  have words := And.intro (words.1 _ _ sees) (words.2 _ _ sees)
  cases text with
  | nil =>
    obtain rfl : text' = [] := List.head?_eq_none_iff.mp head
    rfl
  | cons a r =>
    obtain ⟨r', rfl⟩ : ∃ r', text' = a :: r' := by
      cases text' <;> cases head
      exact ⟨_, rfl⟩
    unfold unaryAt?
    split <;> simp_all

theorem blind_choiceAt : w.Blind choiceAt := blind_of_two choiceAt_far fun _ _ => rfl

theorem blind_linkAt? : w.Blind linkAt? := by
  have after : w.Blind fun text : List Char => Text.startsWith ['?', '.'] text && !((text.drop 2).head?.any Char.isDigit) := by
    refine blind_of_brace fun text r r' => ?_
    match text with
    | [] => rfl
    | [a] => simp [Text.startsWith, Text.dropLead?]
    | a :: b :: t =>
      by_cases mark : '?' = a
      · subst mark
        by_cases point : '.' = b
        · subst point
          cases t <;> rfl
        · simp [Text.startsWith, Text.dropLead?, point]
      · simp [Text.startsWith, Text.dropLead?, mark]
  intro text text' sees
  have after := after _ _ sees
  unfold linkAt?
  dsimp only at after
  rw [after, blind_of_two plainLinkAt?_far (fun _ _ => rfl) _ _ sees]

end Fork

/-! ## Readings on both branches -/

/-- What is read of the stretch in common on one branch is read on the other, too. Of the values that are read both have
the same view. -/
structure Parallel (w : Fork) (view : α → γ) (x y : Reading α) : Prop where
  ahead : ∀ c a c', Gives x c a c' → c.Ahead c'
  both : ∀ c d a c', w.At c d → Gives x c a c' → w.behind <:+ c'.rest → ∃ b d', Gives y d b d' ∧ view a = view b ∧ w.At c' d'

namespace Parallel

variable {w : Fork} {view : α → γ} {later : β → δ} {x x' y y' : Reading α} {f g : α → Reading β}

theorem none (fails : ∀ c a c', ¬ Gives x c a c') : Parallel w view x y :=
  ⟨fun c a c' h => (fails c a c' h).elim, fun c _ a c' _ h => (fails c a c' h).elim⟩

theorem failHere {message : String} : Parallel w view (Grammar.failHere message) y := none fun _ _ _ => not_gives_failHere

theorem failEnd : Parallel w view Grammar.failEnd y := none fun _ _ _ => not_gives_failEnd

theorem failAt {defect : Defect} {span : Span} : Parallel w view (Grammar.failAt defect span) y :=
  none fun _ _ _ => not_gives_failAt

/-- What fails after something else. -/
theorem fails {z : Reading β} (fails : ∀ a c b c', ¬ Gives (f a) c b c') : Parallel w later (x >>= f) z := by
  refine none fun c b c' h => ?_
  obtain ⟨a, c₁, -, h⟩ := gives_bind.mp h
  exact fails a c₁ b c' h

theorem pure {a b : α} (same : view a = view b) : Parallel w view (Pure.pure a) (Pure.pure b) where
  ahead c a' c' h := by
    obtain ⟨-, rfl⟩ := gives_pure.mp h
    exact .refl _
  both c d a' c' at_ h _ := by
    obtain ⟨rfl, rfl⟩ := gives_pure.mp h
    exact ⟨b, d, gives_pure.mpr ⟨rfl, rfl⟩, same, at_⟩

theorem bind (first : Parallel w view x y) (rest : ∀ a b, view a = view b → Parallel w later (f a) (g b)) :
    Parallel w later (x >>= f) (y >>= g) where
  ahead c b c' h := by
    obtain ⟨a, c₁, hx, hf⟩ := gives_bind.mp h
    exact (first.ahead _ _ _ hx).trans ((rest a a rfl).ahead _ _ _ hf)
  both c d b c' at_ h within := by
    obtain ⟨a, c₁, hx, hf⟩ := gives_bind.mp h
    obtain ⟨a', d₁, hy, same, at₁⟩ := first.both c d a c₁ at_ hx (((rest a a rfl).ahead _ _ _ hf).within within)
    obtain ⟨b', d', hg, same, at'⟩ := (rest a a' same).both c₁ d₁ b c' at₁ hf within
    exact ⟨b', d', .bind hy hg, same, at'⟩

theorem ite {p : Prop} [Decidable p] (hx : Parallel w view x y) (hx' : Parallel w view x' y') :
    Parallel w view (if p then x else x') (if p then y else y') := by
  split
  · exact hx
  · exact hx'

theorem offset {f g : Nat → Reading β} (rest : ∀ o o', Parallel w later (f o) (g o')) :
    Parallel w later (Grammar.offset >>= f) (Grammar.offset >>= g) where
  ahead c := (rest c.offset c.offset).ahead c
  both c d := (rest c.offset d.offset).both c d

/-- An offset that only defects show. -/
theorem sourceEnd {f g : Nat → Reading β} (rest : ∀ o o', Parallel w later (f o) (g o')) :
    Parallel w later (Grammar.sourceEnd >>= f) (Grammar.sourceEnd >>= g) where
  ahead c := (rest (c.offset + Text.byteLength c.rest) 0).ahead c
  both c d := (rest _ _).both c d

/-- A look at the text. -/
theorem rest {f g : List Char → Reading β} (rest : ∀ text text', w.Sees text text' → Parallel w later (f text) (g text')) :
    Parallel w later (Grammar.rest >>= f) (Grammar.rest >>= g) where
  ahead c := (rest c.rest c.rest (.inr rfl)).ahead c
  both c d b c' at_ := (rest c.rest d.rest (.inl at_)).both c d b c' at_

theorem skip {f g : Unit → Reading β} {n : Nat} (rest : Parallel w later (f ()) (g ())) :
    Parallel w later (Grammar.skip n >>= f) (Grammar.skip n >>= g) := by
  have skips : Parallel w id (Grammar.skip n) (Grammar.skip n) := by
    refine ⟨fun c _ c' h => gives_skip.mp h ▸ c.ahead_skip n, fun c d _ c' at_ h within => ?_⟩
    obtain rfl := gives_skip.mp h
    refine ⟨(), d.skip n, gives_skip.mpr rfl, rfl, ?_⟩
    obtain ⟨t, here, here'⟩ := at_
    refine ⟨t.drop n, ?_⟩
    rw [Cursor.rest_skip, here] at within
    rw [Cursor.rest_skip, Cursor.rest_skip, here, here']
    -- Unless the texts end with the stretch in common the skipped characters are all of it.
    by_cases le : n ≤ t.length
    · exact ⟨List.drop_append_of_le_length le, List.drop_append_of_le_length le⟩
    · have short := within.length_le
      rw [List.length_drop, List.length_append] at short
      have empty : w.behind = [] := List.length_eq_zero_iff.mp (by omega)
      rw [empty, w.ended empty, List.append_nil, List.append_nil]
      exact ⟨rfl, rfl⟩
  exact skips.bind fun _ _ _ => rest

/-- A look at the text of which the branch does not change the outcome. -/
theorem look {s : List Char → α} (blind : w.Blind s) {f g : α → Reading β} (rest : ∀ a, Parallel w later (f a) (g a)) :
    Parallel w later (Grammar.rest >>= fun text => f (s text)) (Grammar.rest >>= fun text => g (s text)) := by
  refine .rest fun text text' sees => ?_
  rw [blind _ _ sees]
  exact rest _

variable [closes : w.Closes]

theorem current? {f g : Option Char → Reading β} (rest : ∀ d, Parallel w later (f d) (g d)) :
    Parallel w later (Grammar.current? >>= f) (Grammar.current? >>= g) := look Fork.blind_head rest

/-- A reading that moves over characters which no closing brace is among. -/
theorem skipWhile {p : Char → Bool} {x : Reading α} (tell : List Char → α) (stops : p '\x7d' = false)
    (reads : ∀ c a c', Gives x c a c' ↔ tell (c.rest.takeWhile p) = a ∧ c.skipWhile p = c') : Parallel w id x x := by
  refine ⟨fun c a c' h => ((reads ..).mp h).2 ▸ c.ahead_skipWhile p, fun c d a c' at_ h within => ?_⟩
  obtain ⟨rfl, rfl⟩ := (reads ..).mp h
  obtain ⟨t, here, here'⟩ := at_
  rw [Cursor.skipWhile_eq] at within ⊢
  have moved : ∃ later, c.rest.dropWhile p = later ++ w.behind ∧ d.rest.dropWhile p = later ++ w.behind' ∧
      d.rest.takeWhile p = c.rest.takeWhile p := by
    -- Behind the stretch there is the same on both branches, or a closing brace, where the reading stops at the latest.
    rcases closes.closing with same | ⟨r, r', z, z'⟩
    · obtain ⟨later, left⟩ := within
      have alike : d.rest = c.rest := by rw [here, here', same]
      rw [alike, ← same]
      exact ⟨later, left.symm, left.symm, rfl⟩
    · have stretch (t r : List Char) : (t ++ '\x7d' :: r).dropWhile p = t.dropWhile p ++ '\x7d' :: r ∧
          (t ++ '\x7d' :: r).takeWhile p = t.takeWhile p := by
        induction t with
        | nil => simp [stops]
        | cons d t ih => by_cases passes : p d = true <;> simp [passes, ih]
      rw [here, here', z, z']
      exact ⟨t.dropWhile p, (stretch t r).1, (stretch t r').1, (stretch t r').2.trans (stretch t r).2.symm⟩
  obtain ⟨later, left, left', taken⟩ := moved
  refine ⟨_, _, (reads d _ _).mpr ⟨rfl, rfl⟩, congrArg tell taken.symm, later, left, ?_⟩
  rw [Cursor.skipWhile_eq]
  exact left'

theorem takeWhile {p : Char → Bool} (stops : p '\x7d' = false) {f g : List Char → Reading β}
    (rest : ∀ text, Parallel w later (f text) (g text)) :
    Parallel w later (Grammar.takeWhile p >>= f) (Grammar.takeWhile p >>= g) := by
  refine (skipWhile id stops fun _ _ _ => gives_takeWhile).bind fun text _ same => ?_
  obtain rfl := same
  exact rest _

theorem blanks : Parallel w id Grammar.skipSpaces Grammar.skipSpaces := by
  refine skipWhile (p := isSpace) (fun _ => ()) rfl fun c a c' => ?_
  rw [gives_skipSpaces, and_iff_right (Subsingleton.elim _ _)]

theorem skipSpaces {f g : Unit → Reading β} (rest : Parallel w later (f ()) (g ())) :
    Parallel w later (Grammar.skipSpaces >>= f) (Grammar.skipSpaces >>= g) := blanks.bind fun _ _ _ => rest

end Parallel
end Grammar
end PromptScript
