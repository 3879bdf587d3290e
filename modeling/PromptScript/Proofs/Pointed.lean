import PromptScript.Proofs.ForkedReadings

/-! # Texts before a mark and a point

A question mark with a point and a digit after it is no link, and no mark of a choice either. So whatever is read up to the
end of a text is read there, too, where these stand behind the text: no token goes on with them, unless the text itself ends
in a question mark. But no text does that is read to its end: `Undisturbed` says so of a reading together with the rest. -/
namespace PromptScript

/-- The place of a cursor when there is more behind its text. -/
def Cursor.before (behind : List Char) (c : Cursor) : Cursor := ⟨c.offset, c.rest ++ behind⟩

theorem Cursor.skip_before {behind : List Char} {n : Nat} {c : Cursor} (le : n ≤ c.rest.length) :
    (c.before behind).skip n = (c.skip n).before behind := by
  obtain ⟨offset, rest⟩ := c
  induction n generalizing offset rest with
  | zero => rfl
  | succ n ih =>
    cases rest with
    | nil => cases le
    | cons d r => exact ih _ _ (Nat.le_of_succ_le_succ le)

theorem Cursor.head?_before {behind : List Char} {c : Cursor} (some : c.rest ≠ []) :
    (c.before behind).rest.head? = c.rest.head? := by
  obtain ⟨offset, _ | ⟨d, r⟩⟩ := c
  · exact absurd rfl some
  · rfl

namespace Grammar

variable {α β : Type}

/-- A question mark, and a number that starts with its point. -/
def IsPointed (behind : List Char) : Prop := ∃ d r, d.isDigit = true ∧ behind = '?' :: '.' :: d :: r

/-- A text does not end in a question mark. -/
def Unasked (text : List Char) : Prop := text.getLast? ≠ some '?'

theorem unasked_append {lead text : List Char} (h : Unasked text) (last : text = [] → Unasked lead) :
    Unasked (lead ++ text) := by
  unfold Unasked at *
  rw [List.getLast?_append]
  cases here : text.getLast? with
  | none => exact last (List.getLast?_eq_none_iff.mp here)
  | some d =>
    rw [here] at h
    exact h

theorem Unasked.of_ne_nil {lead text : List Char} (h : Unasked text) (some : text ≠ []) : Unasked (lead ++ text) :=
  unasked_append h fun empty => absurd empty some

/-- The characters that are passed over do not end in a question mark, if it is none of them. -/
theorem unasked_takeWhile {p : Char → Bool} (stops : p '?' = false) (text : List Char) : Unasked (text.takeWhile p) := by
  intro last
  have holds := List.all_eq_true.mp List.all_takeWhile _ (List.mem_of_getLast? last)
  rw [stops] at holds
  cases holds

/-! ## What texts start with -/

section Lookups

variable {behind text : List Char} (pointed : IsPointed behind) (unasked : Unasked text)

include pointed unasked

/-- What is told from the first two characters, if a question mark as the second tells as much as the end of the text. -/
theorem two_before {f : List Char → α} (far : ∀ a b r r', f (a :: b :: r) = f (a :: b :: r'))
    (one : ∀ a r, a ≠ '?' → f (a :: '?' :: r) = f [a]) (none : ∀ r, f ('?' :: '.' :: r) = f []) :
    f (text ++ behind) = f text := by
  obtain ⟨d, r, -, rfl⟩ := pointed
  match text with
  | [] => exact none _
  | [a] => exact one a _ fun mark => unasked (congrArg some mark)
  | a :: b :: _ => exact far a b _ _

omit unasked in
theorem dropLead?_before {lead : List Char} (plain : lead.all (· != '?') = true) (text : List Char) :
    Text.dropLead? lead (text ++ behind) = (Text.dropLead? lead text).map (· ++ behind) := by
  obtain ⟨d, r, -, rfl⟩ := pointed
  exact Fork.dropLead?_stop plain text _

omit unasked in
theorem startsWith_before {lead : List Char} (plain : lead.all (· != '?') = true) (text : List Char) :
    Text.startsWith lead (text ++ behind) = Text.startsWith lead text := by
  rw [Text.startsWith, dropLead?_before pointed plain, Option.isSome_map]
  rfl

omit unasked in
theorem startsWithWord_before {word : String} (plain : word.toList.all (· != '?') = true) (text : List Char) :
    startsWithWord word (text ++ behind) = startsWithWord word text := by
  unfold startsWithWord
  rw [dropLead?_before pointed plain]
  obtain ⟨d, r, -, rfl⟩ := pointed
  match Text.dropLead? word.toList text with
  | none | some [] | some (_ :: _) => rfl

/-- A symbol of two question marks may have others behind them. -/
theorem startsWith_marks {lead : List Char} (plain : lead.all (· != '?') = true) :
    Text.startsWith ('?' :: '?' :: lead) (text ++ behind) = Text.startsWith ('?' :: '?' :: lead) text := by
  match text with
  | [] =>
    obtain ⟨d, r, -, rfl⟩ := pointed
    rfl
  | [a] =>
    have apart : '?' ≠ a := fun mark => unasked (congrArg some mark.symm)
    simp [Text.startsWith, Text.dropLead?, apart]
  | a :: b :: r =>
    have later : (Text.dropLead? lead (r ++ behind)).isSome = (Text.dropLead? lead r).isSome :=
      startsWith_before pointed plain r
    simp only [Text.startsWith, List.cons_append, Text.dropLead?]
    split
    · split
      · exact later
      · rfl
    · rfl

/-- Whether a symbol has question marks nowhere but at its start, two of them. -/
def isLead : List Char → Bool
  | '?' :: '?' :: lead => lead.all (· != '?')
  | lead => lead.all (· != '?')

theorem symbolAt?_before {table : List (String × α)} (leads : table.all (isLead ·.1.toList) = true) :
    symbolAt? table (text ++ behind) = symbolAt? table text := by
  unfold symbolAt?
  induction table with
  | nil => rfl
  | cons entry table ih =>
    obtain ⟨first, later⟩ := Bool.and_eq_true_iff.mp leads
    have same : Text.startsWith entry.1.toList (text ++ behind) = Text.startsWith entry.1.toList text := by
      replace first : isLead entry.1.toList = true := first
      generalize entry.1.toList = symbol at first
      unfold isLead at first
      split at first
      · exact startsWith_marks pointed unasked first
      · exact startsWith_before pointed first text
    rw [List.find?_cons, List.find?_cons, same, ih later]

theorem infixAt?_before : infixAt? (text ++ behind) = infixAt? text := by
  unfold infixAt?
  rw [startsWithWord_before pointed (by decide), symbolAt?_before pointed unasked (by decide),
    symbolAt?_before pointed unasked (by decide)]

theorem updateAt?_before : updateAt? (text ++ behind) = updateAt? text :=
  two_before pointed unasked updateAt?_far (fun a r _ => by unfold updateAt?; split <;> simp_all) fun _ => rfl

theorem assignAt?_before : assignAt? (text ++ behind) = assignAt? text := by
  unfold assignAt?
  rw [symbolAt?_before pointed unasked (by decide)]
  cases symbolAt? assignSymbols text with
  | some found => rfl
  | none =>
    refine two_before pointed unasked plainAssignAt?_far (fun a r _ => ?_) fun _ => rfl
    by_cases equals : a = '='
    · subst equals
      rfl
    · simp [plainAssignAt?, equals]

theorem unaryAt?_before : unaryAt? (text ++ behind) = unaryAt? text := by
  have words (word : String) (plain : word.toList.all (· != '?') = true) := startsWithWord_before pointed plain text
  have typeof := words "typeof" (by decide)
  have void := words "void" (by decide)
  cases text with
  | nil =>
    obtain ⟨d, r, -, rfl⟩ := pointed
    rfl
  | cons a r =>
    rw [List.cons_append] at typeof void ⊢
    unfold unaryAt?
    split <;> simp_all

theorem choiceAt_before : choiceAt (text ++ behind) = choiceAt text :=
  two_before pointed unasked choiceAt_far (fun a r apart => by simp [choiceAt, apart]) fun _ => rfl

theorem linkAt?_before : linkAt? (text ++ behind) = linkAt? text := by
  have optional : (Text.startsWith ['?', '.'] (text ++ behind) && !(((text ++ behind).drop 2).head?.any Char.isDigit)) =
      (Text.startsWith ['?', '.'] text && !((text.drop 2).head?.any Char.isDigit)) := by
    obtain ⟨d, r, digit, rfl⟩ := pointed
    match text with
    | [] =>
      show (true && !d.isDigit) = false
      rw [digit]
      rfl
    | [a] =>
      have apart : '?' ≠ a := fun mark => unasked (congrArg some mark.symm)
      simp [Text.startsWith, Text.dropLead?, apart]
    | a :: b :: t =>
      have next : ((t ++ '?' :: '.' :: d :: r).head?.any Char.isDigit) = t.head?.any Char.isDigit := by cases t <;> rfl
      have lead (t : List Char) : Text.startsWith ['?', '.'] (a :: b :: t) = (decide (a = '?') && decide (b = '.')) := by
        simp [Text.startsWith, Text.dropLead?, apply_ite Option.isSome, eq_comm]
      show (Text.startsWith _ (a :: b :: (t ++ _)) && !(t ++ _).head?.any _) = (Text.startsWith _ _ && !t.head?.any _)
      rw [lead, lead, next]
  have plain : plainLinkAt? (text ++ behind) = plainLinkAt? text := by
    refine two_before pointed unasked plainLinkAt?_far (fun a r _ => ?_) fun _ => rfl
    by_cases dot : a = '.'
    · subst dot
      rfl
    · unfold plainLinkAt?
      split <;> simp_all
  unfold linkAt?
  rw [optional, plain]

/-- Whether a number starts at a character is told from the next one. -/
theorem numeralAt_before : numeralAt (text ++ behind) = numeralAt text :=
  two_before pointed unasked (fun _ _ _ _ => rfl) (fun _ _ _ => rfl) fun _ => rfl

theorem powerOf_before : powerOf (text ++ behind) = powerOf text := by
  obtain ⟨z, r, -, rfl⟩ := pointed
  match text with
  | [] => rfl
  | [e] => rfl
  | e :: d :: t =>
    have sign (r : List Char) : powerSign (d :: r) = powerSign [d] := by
      unfold powerSign
      split <;> simp_all
    have le : (powerSign [d]).length ≤ 1 := length_powerSign_le [d]
    -- A sign at the end of the text has no digit after it, nor has one before a question mark.
    have tail : powerFrom e (powerSign [d]) ((d :: (t ++ '?' :: '.' :: z :: r)).drop (powerSign [d]).length) =
        powerFrom e (powerSign [d]) ((d :: t).drop (powerSign [d]).length) := by
      match (powerSign [d]).length, le with
      | 0, _ => rfl
      | 1, _ => cases t <;> rfl
    rw [List.cons_append, List.cons_append, powerOf, powerOf, sign, sign t, tail]

end Lookups

/-! ## Readings up to there -/

/-- What is read of a text is read with more behind it, too; and a text that is read to its end does not end in a question
mark. -/
def Undisturbed (behind : List Char) (x : Reading α) (c : Cursor) : Prop :=
  ∀ a c', Gives x c a c' → Unasked c'.rest → Unasked c.rest ∧ Gives x (c.before behind) a (c'.before behind)

namespace Undisturbed

variable {behind : List Char} {x : Reading α} {c : Cursor}

theorem none (fails : ∀ a c', ¬ Gives x c a c') : Undisturbed behind x c := fun a c' h => (fails a c' h).elim

theorem failHere {message : String} : Undisturbed behind (Grammar.failHere message : Reading α) c :=
  none fun _ _ => not_gives_failHere

theorem failEnd : Undisturbed behind (Grammar.failEnd : Reading α) c := none fun _ _ => not_gives_failEnd

theorem failAt {defect : Defect} {span : Span} : Undisturbed behind (Grammar.failAt defect span : Reading α) c :=
  none fun _ _ => not_gives_failAt

theorem pure {a : α} : Undisturbed behind (Pure.pure a) c := by
  intro a' c' h unasked
  obtain ⟨rfl, rfl⟩ := gives_pure.mp h
  exact ⟨unasked, gives_pure.mpr ⟨rfl, rfl⟩⟩

theorem bind {f : α → Reading β} (first : Undisturbed behind x c)
    (rest : ∀ a c₁, Gives x c a c₁ → Undisturbed behind (f a) c₁) : Undisturbed behind (x >>= f) c := by
  intro b c' h unasked
  obtain ⟨a, c₁, hx, hf⟩ := gives_bind.mp h
  -- From the end on: how the text ends after the first reading is known from the second.
  obtain ⟨unasked, later⟩ := rest a c₁ hx b c' hf unasked
  obtain ⟨unasked, first⟩ := first a c₁ hx unasked
  exact ⟨unasked, .bind first later⟩

theorem ite {p : Prop} [Decidable p] {y : Reading α} (hx : p → Undisturbed behind x c) (hy : ¬ p → Undisturbed behind y c) :
    Undisturbed behind (if p then x else y) c := by
  split
  · next holds => exact hx holds
  · next fails => exact hy fails

theorem offset {f : Nat → Reading β} (rest : Undisturbed behind (f c.offset) c) :
    Undisturbed behind (Grammar.offset >>= f) c := rest

/-- A look at the text that shows as much where there is more behind it. -/
theorem rest {f : List Char → Reading β} (same : Unasked c.rest → f (c.rest ++ behind) = f c.rest)
    (rest : Undisturbed behind (f c.rest) c) : Undisturbed behind (Grammar.rest >>= f) c := by
  intro b c' h unasked
  obtain ⟨unasked, reads⟩ := rest b c' h unasked
  refine ⟨unasked, .rest ?_⟩
  rw [← same unasked] at reads
  exact reads

/-- A look at the next character, where the mark behind the text is as good as its end. -/
theorem current? (pointed : IsPointed behind) {f : Option Char → Reading β} (same : c.rest = [] → f (some '?') = f Option.none)
    (rest : Undisturbed behind (f c.rest.head?) c) : Undisturbed behind (Grammar.current? >>= f) c := by
  refine Undisturbed.rest (f := fun text => f text.head?) (fun _ => ?_) rest
  obtain ⟨d, r, -, rfl⟩ := pointed
  cases here : c.rest with
  | nil => exact same here
  | cons => rfl

/-- A look at the next character, which has to be there. -/
theorem peek {f : Option Char → Reading β} (fails : ∀ b c', c.rest = [] → ¬ Gives (f Option.none) c b c')
    (rest : Undisturbed behind (f c.rest.head?) c) : Undisturbed behind (Grammar.current? >>= f) c := by
  by_cases empty : c.rest = []
  · refine .none fun b c' h => ?_
    obtain ⟨_, _, look, h⟩ := gives_bind.mp h
    obtain ⟨rfl, rfl⟩ := gives_current?.mp look
    rw [empty] at h
    exact fails b c' empty h
  · exact Undisturbed.rest (f := fun text => f text.head?) (fun _ => congrArg f (Cursor.head?_before empty)) rest

theorem skip {n : Nat} {f : Unit → Reading β} (le : n ≤ c.rest.length) (last : (c.skip n).rest = [] → Unasked c.rest)
    (rest : Undisturbed behind (f ()) (c.skip n)) : Undisturbed behind (Grammar.skip n >>= f) c := by
  refine .bind (fun _ c' h unasked => ?_) fun _ c₁ h => gives_skip.mp h ▸ rest
  obtain rfl := gives_skip.mp h
  refine ⟨?_, gives_skip.mpr (Cursor.skip_before le)⟩
  by_cases ends : (c.skip n).rest = []
  · exact last ends
  · obtain ⟨read, here, -⟩ := c.ahead_skip n
    rw [here]
    exact unasked.of_ne_nil ends

/-- Characters are skipped before something that has to be there. -/
theorem skipTo {n : Nat} {f : Unit → Reading β} (some : ∀ b c', (c.skip n).rest = [] → ¬ Gives (f ()) (c.skip n) b c')
    (rest : Undisturbed behind (f ()) (c.skip n)) : Undisturbed behind (Grammar.skip n >>= f) c := by
  by_cases ends : (c.skip n).rest = []
  · refine .none fun b c' h => ?_
    obtain ⟨_, _, skips, h⟩ := gives_bind.mp h
    obtain rfl := gives_skip.mp skips
    exact some b c' ends h
  · exact .skip (Cursor.le_of_skip ends) (fun empty => absurd empty ends) rest

/-- Characters are skipped that are known. -/
theorem skipLead {f : Unit → Reading β} (lead : List Char) {r : List Char} (here : c.rest = lead ++ r) (last : Unasked lead)
    (rest : Undisturbed behind (f ()) (c.skip lead.length)) : Undisturbed behind (Grammar.skip lead.length >>= f) c := by
  refine .skip (by rw [here, List.length_append]; exact Nat.le_add_right ..) (fun ends => ?_) rest
  rw [Cursor.rest_skip, here, List.drop_left] at ends
  rw [here, ends, List.append_nil]
  exact last

theorem skipHead {f : Unit → Reading β} {d : Char} (here : c.rest.head? = some d) (apart : d ≠ '?')
    (rest : Undisturbed behind (f ()) (c.skip 1)) : Undisturbed behind (Grammar.skip 1 >>= f) c := by
  obtain ⟨r, here⟩ := List.head?_eq_some_iff.mp here
  exact skipLead [d] here (fun mark => apart (Option.some.inj mark)) rest

variable (pointed : IsPointed behind)

include pointed

/-- Characters that a question mark is none of. -/
theorem skipWhile {p : Char → Bool} {x : Reading α} (tell : List Char → α) (stops : p '?' = false)
    (reads : ∀ c a c', Gives x c a c' ↔ tell (c.rest.takeWhile p) = a ∧ c.skipWhile p = c') : Undisturbed behind x c := by
  intro a c' h unasked
  obtain ⟨rfl, rfl⟩ := (reads ..).mp h
  obtain ⟨z, r, -, rfl⟩ := pointed
  have both (text : List Char) : (text ++ '?' :: '.' :: z :: r).takeWhile p = text.takeWhile p ∧
      (text ++ '?' :: '.' :: z :: r).dropWhile p = text.dropWhile p ++ '?' :: '.' :: z :: r := by
    induction text with
    | nil => simp [stops]
    | cons d text ih => by_cases passes : p d = true <;> simp [passes, ih]
  rw [Cursor.skipWhile_eq] at unasked ⊢
  refine ⟨?_, (reads ..).mpr ⟨congrArg tell (both _).1, ?_⟩⟩
  · rw [← List.takeWhile_append_dropWhile (p := p) (l := c.rest)]
    exact unasked_append unasked fun _ => unasked_takeWhile stops _
  · rw [Cursor.skipWhile_eq]
    show (⟨_, (c.rest ++ _).dropWhile p⟩ : Cursor) = ⟨_, _⟩
    rw [(both c.rest).2]
    show (⟨c.offset + Text.byteLength ((c.rest ++ _).takeWhile p), _⟩ : Cursor) = _
    rw [(both c.rest).1]

theorem takeWhile {p : Char → Bool} (stops : p '?' = false) : Undisturbed behind (Grammar.takeWhile p) c :=
  skipWhile pointed id stops fun _ _ _ => gives_takeWhile

theorem blanks : Undisturbed behind Grammar.skipSpaces c :=
  skipWhile pointed (p := isSpace) (fun _ => ()) rfl fun c a c' => by
    rw [gives_skipSpaces, and_iff_right (Subsingleton.elim _ _)]

theorem skipSpaces {f : Unit → Reading β} (rest : Undisturbed behind (f ()) (c.skipWhile isSpace)) :
    Undisturbed behind (Grammar.skipSpaces >>= f) c :=
  (blanks pointed).bind fun _ _ skips => gives_skipSpaces.mp skips ▸ rest

end Undisturbed

/-! ## Literals -/

theorem not_gives_readStringBody {quote : Char} {n : Nat} {c c' : Cursor} {text : List Char} (empty : c.rest = []) :
    ¬ Gives (readStringBody quote n) c text c' := by
  cases n with
  | zero => exact not_gives_failEnd
  | succ n =>
    intro h
    obtain ⟨_, _, look, h⟩ := gives_bind.mp h
    obtain ⟨rfl, rfl⟩ := gives_current?.mp look
    rw [empty] at h
    exact not_gives_failEnd h

namespace Undisturbed

variable {behind : List Char} {c : Cursor}

/-- An escape, before something that has to be there. -/
theorem escape {f : Char → Reading β} (some : ∀ value c b c', c.rest = [] → ¬ Gives (f value) c b c')
    (rest : ∀ value c, Undisturbed behind (f value) c) : Undisturbed behind (readUnicodeEscape >>= f) c := by
  intro b c' h unasked
  obtain ⟨value, c₁, escape, h⟩ := gives_bind.mp h
  have there : c₁.rest ≠ [] := fun empty => some value c₁ b c' empty h
  obtain ⟨unasked, later⟩ := rest value c₁ b c' h unasked
  obtain ⟨read, here, offset⟩ := Advances.readUnicodeEscape _ _ _ escape
  -- Up to the end of the escape the two texts are alike, and there they fork.
  let w : Fork := ⟨c₁.rest, c₁.rest ++ behind, fun empty => absurd empty there⟩
  have at_ : w.At c (c.before behind) := ⟨read, here, by rw [Cursor.before, here, List.append_assoc]⟩
  obtain ⟨value', d, escape', same, text, left, left'⟩ :=
    (Parallel.readUnicodeEscape (w := w)).both c (c.before behind) value c₁ at_ escape (List.suffix_refl _)
  obtain rfl : value = value' := same
  obtain rfl : text = [] := List.self_eq_append_left.mp left
  obtain ⟨read', here', offset'⟩ := Advances.readUnicodeEscape _ _ _ escape'
  obtain rfl : read = read' := by
    rw [left', Cursor.before, here, List.append_assoc] at here'
    exact List.append_cancel_right here'
  obtain rfl : d = c₁.before behind := by
    obtain ⟨o, r⟩ := d
    obtain rfl : r = c₁.rest ++ behind := left'
    obtain rfl : o = c.offset + Text.byteLength read := offset'
    rw [Cursor.before, offset]
  exact ⟨here ▸ unasked.of_ne_nil there, .bind escape' later⟩

/-- A reading with a bound that the text ahead gives, if the bound does not matter. -/
theorem bounded (read : Nat → Reading α) (bound : List Char → Nat) (each : ∀ n, Undisturbed behind (read n) c)
    (settled : ∀ c, Settled read c (bound c.rest)) : Undisturbed behind (Grammar.rest >>= fun text => read (bound text)) c := by
  intro a c' h unasked
  let n := max (bound c.rest) (bound (c.before behind).rest)
  have more : Gives (read n) c a c' := (settled c n (Nat.le_max_left ..)).trans h
  obtain ⟨unasked, reads⟩ := each n a c' more unasked
  exact ⟨unasked, (settled (c.before behind) n (Nat.le_max_right ..)).symm.trans reads⟩

theorem readStringBody {quote : Char} (closing : quote ≠ '?') (n : Nat) :
    Undisturbed behind (readStringBody quote n) c := by
  induction n generalizing c with
  | zero => exact failEnd
  | succ n ih =>
    have fails (value : Char) (c : Cursor) (text : List Char) (c' : Cursor) (empty : c.rest = []) :
        ¬ Gives (do return value :: (← Grammar.readStringBody quote n)) c text c' :=
      not_gives_first (fun _ _ => not_gives_readStringBody empty) text c'
    have more (value : Char) (c : Cursor) : Undisturbed behind (do return value :: (← Grammar.readStringBody quote n)) c :=
      ih.bind fun _ _ _ => pure
    refine peek (fun _ _ _ => not_gives_failEnd) ?_
    cases here : c.rest.head? with
    | none => exact failEnd
    | some d =>
      by_cases close : d = quote
      · refine skipHead here (close ▸ closing) ?_
        rw [if_pos close]
        exact pure
      · by_cases mark : d = '\\'
        · refine skipTo (fun text c' empty h => ?_) ?_
          · rw [if_neg close, if_pos mark] at h
            obtain ⟨_, _, look, h⟩ := gives_bind.mp h
            obtain ⟨rfl, rfl⟩ := gives_current?.mp look
            rw [empty] at h
            exact not_gives_failEnd h
          · rw [if_neg close, if_pos mark]
            refine peek (fun _ _ _ => not_gives_failEnd) ?_
            cases here : (c.skip 1).rest.head? with
            | none => exact failEnd
            | some e =>
              by_cases code : e = 'u'
              · refine skipHead here (by rw [code]; decide) ?_
                rw [if_pos code]
                exact escape fails more
              · refine skipTo (fun text c' empty h => ?_) ?_
                · rw [if_neg code] at h
                  exact fails _ _ text c' empty h
                · rw [if_neg code]
                  exact more _ _
        · refine skipTo (fun text c' empty h => ?_) ?_
          · rw [if_neg close, if_neg mark] at h
            split at h
            · exact not_gives_failHere h
            · exact fails d _ text c' empty h
          · rw [if_neg close, if_neg mark]
            exact ite (fun _ => failHere) fun _ => more d _

theorem readString {quote : Char} (closing : quote ≠ '?') (here : c.rest.head? = some quote) :
    Undisturbed behind (readString quote) c := by
  refine skipHead here closing (bounded (fun n => do return String.ofList (← Grammar.readStringBody quote n))
    (fun text => text.length + 1) (fun n => (readStringBody closing n).bind fun _ _ _ => pure) fun c => ?_)
  obtain ⟨source, on⟩ := c.exists_source
  intro n least
  show ((Grammar.readStringBody quote n).run c >>= _) = ((Grammar.readStringBody quote _).run c >>= _)
  rw [(unbounded source).strings on quote n least]

variable (pointed : IsPointed behind)

theorem expect {d : Char} (apart : d ≠ '?') : Undisturbed behind (Grammar.expect d) c := by
  refine peek (fun _ _ _ => not_gives_failEnd) ?_
  cases here : c.rest.head? with
  | none => exact failEnd
  | some found =>
    refine ite (fun same => ?_) fun _ => failHere
    exact skipHead (f := Pure.pure) here (same ▸ apart) pure

include pointed

/-- A look at the next two characters. -/
theorem glance {f : List Char → Reading α} (far : ∀ a b r r', f (a :: b :: r) = f (a :: b :: r'))
    (one : ∀ a r, a ≠ '?' → f (a :: '?' :: r) = f [a]) (none : ∀ r, f ('?' :: '.' :: r) = f [])
    (rest : Undisturbed behind (f c.rest) c) : Undisturbed behind (Grammar.rest >>= f) c :=
  .rest (fun unasked => two_before pointed unasked far one none) rest

theorem readName : Undisturbed behind readName c := by
  refine peek (fun _ _ _ => not_gives_failEnd) ?_
  cases c.rest.head? with
  | none => exact failEnd
  | some d => exact ite (fun _ => (takeWhile pointed (by decide)).bind fun _ _ _ => pure) fun _ => failHere

theorem readHexLiteral {x : Char} {r : List Char} (here : c.rest = '0' :: x :: r) (apart : x ≠ '?') :
    Undisturbed behind readHexLiteral c := by
  refine skipLead ['0', x] here (fun mark => apart (Option.some.inj mark)) ?_
  refine (takeWhile pointed (by decide)).bind fun digits _ _ => ?_
  split
  · exact ite (fun _ => pure) fun _ => failHere
  · exact failHere

theorem readPlaces : Undisturbed behind readPlaces c := by
  refine glance pointed (fun a b r r' => ?_) (fun a r _ => ?_) (fun _ => rfl) ?_
  · by_cases dot : a = '.'
    · subst dot
      rfl
    · simp [dot]
  · by_cases dot : a = '.'
    · subst dot
      rfl
    · simp [dot]
  · split
    · next here =>
      have head : c.rest.head? = some '.' := by rw [here]; rfl
      refine ite (fun _ => ?_) fun _ => ite (fun _ => pure) fun _ => skipHead head (by decide) pure
      exact skipHead head (by decide) ((takeWhile pointed (by decide)).bind fun _ _ _ => pure)
    · next here => exact skipHead (d := '.') (by rw [here]; rfl) (by decide) pure
    · exact pure

theorem readPower : Undisturbed behind readPower c := by
  refine Undisturbed.rest (f := powerOf) (powerOf_before pointed) ?_
  cases here : c.rest with
  | nil => exact pure
  | cons e r =>
    refine ite (fun letter => ?_) fun _ => pure
    unfold powerFrom
    cases next : r.drop (powerSign r).length with
    | nil => exact pure
    | cons d t =>
      refine ite (fun _ => ?_) fun _ => pure
      have left : (c.skip (1 + (powerSign r).length)).rest = d :: t := by
        rw [Cursor.rest_skip, here, Nat.add_comm, List.drop_succ_cons, next]
      have some : (c.skip (1 + (powerSign r).length)).rest ≠ [] := by rw [left]; nofun
      refine skip (Cursor.le_of_skip some) (fun empty => absurd empty some) ?_
      exact (takeWhile pointed (by decide)).bind fun _ _ _ => pure

theorem readNumber : Undisturbed behind readNumber c := by
  refine glance pointed (fun a b r r' => ?_) (fun a r apart => ?_) (fun _ => rfl) ?_
  · split <;> split <;> simp_all
  · split <;> simp_all
  · split
    · next here => exact readHexLiteral pointed here (by decide)
    · next here => exact readHexLiteral pointed here (by decide)
    · refine offset ((takeWhile pointed (by decide)).bind fun whole _ _ => (readPlaces pointed).bind fun places _ _ => ?_)
      refine (readPower pointed).bind fun power _ _ => ?_
      split
      · exact pure
      · exact offset failAt

theorem readWord : Undisturbed behind readWord c := by
  refine offset ((readName pointed).bind fun word _ _ => offset ?_)
  dsimp only
  split
  · exact pure
  · exact ite (fun _ => failAt) fun _ => pure

end Undisturbed
end Grammar
end PromptScript
