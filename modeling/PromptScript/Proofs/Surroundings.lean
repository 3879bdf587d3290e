import PromptScript.Proofs.Elsewhere
import PromptScript.Proofs.Settled

/-! # Texts in other surroundings

An expression is read the same where there is more text before it, and more behind it that starts with a blank. `Stays`
compares a reading with its like in the longer text: what is read differs in its spans alone, which lie further on. A
reading that moves over blanks at its end would go on to the blanks of the text behind; of such a reading nothing is said
that comes to the end of its own text. -/
namespace PromptScript

/-! ## Spans further on -/

/-- A span further on. -/
def Span.shifted (k : Nat) (s : Span) : Span := ⟨s.start + k, s.stop + k⟩

theorem Span.hull_shifted (k : Nat) (a b : Span) : (a.shifted k).hull (b.shifted k) = (a.hull b).shifted k := by
  simp only [hull, shifted, Span.mk.injEq]
  omega

namespace Expr

mutual

/-- An expression further on. -/
def shifted (k : Nat) : Expr → Expr
  | literal span value => literal (span.shifted k) value
  | identifier span name => identifier (span.shifted k) name
  | array span items => array (span.shifted k) (itemsShifted k items)
  | object span fields => object (span.shifted k) (fieldsShifted k fields)
  | sequence span items => sequence (span.shifted k) (itemsShifted k items)
  | unary span op e => unary (span.shifted k) op (shifted k e)
  | binary span op a b => binary (span.shifted k) op (shifted k a) (shifted k b)
  | logical span op a b => logical (span.shifted k) op (shifted k a) (shifted k b)
  | assignment span op target value => assignment (span.shifted k) op (shifted k target) (shifted k value)
  | update span op before e => update (span.shifted k) op before (shifted k e)
  | member span base key optional => member (span.shifted k) (shifted k base) (keyShifted k key) optional
  | conditional span test a b => conditional (span.shifted k) (shifted k test) (shifted k a) (shifted k b)
  | call span callee arguments optional =>
    call (span.shifted k) (shifted k callee) (itemsShifted k arguments) optional
  | chain span e => chain (span.shifted k) (shifted k e)

def itemsShifted (k : Nat) : List Expr → List Expr
  | [] => []
  | e :: r => shifted k e :: itemsShifted k r

def fieldsShifted (k : Nat) : List (Key × Expr) → List (Key × Expr)
  | [] => []
  | (key, e) :: r => (keyShifted k key, shifted k e) :: fieldsShifted k r

def keyShifted (k : Nat) : Key → Key
  | .named name => .named name
  | .computed e => .computed (shifted k e)

end

@[simp] theorem span_shifted (k : Nat) (e : Expr) : (e.shifted k).span = e.span.shifted k := by cases e <;> rfl

mutual

/-- Nothing but spans differs further on. -/
@[simp] theorem unplaced_shifted (k : Nat) : ∀ e : Expr, (e.shifted k).unplaced = e.unplaced
  | literal .. | identifier .. => rfl
  | array _ items | sequence _ items => by rw [shifted, unplaced, unplaced, itemsUnplaced_shifted]
  | object _ fields => by rw [shifted, unplaced, unplaced, fieldsUnplaced_shifted]
  | unary _ _ e | update _ _ _ e | chain _ e => by rw [shifted, unplaced, unplaced, unplaced_shifted k e]
  | binary _ _ a b | logical _ _ a b | assignment _ _ a b => by
    rw [shifted, unplaced, unplaced, unplaced_shifted k a, unplaced_shifted k b]
  | member _ base key _ => by rw [shifted, unplaced, unplaced, unplaced_shifted k base, keyUnplaced_shifted]
  | conditional _ test a b => by
    rw [shifted, unplaced, unplaced, unplaced_shifted k test, unplaced_shifted k a, unplaced_shifted k b]
  | call _ callee arguments _ => by
    rw [shifted, unplaced, unplaced, unplaced_shifted k callee, itemsUnplaced_shifted]

theorem itemsUnplaced_shifted (k : Nat) : ∀ items : List Expr, itemsUnplaced (itemsShifted k items) = itemsUnplaced items
  | [] => rfl
  | e :: r => by rw [itemsShifted, itemsUnplaced, itemsUnplaced, unplaced_shifted k e, itemsUnplaced_shifted k r]

theorem fieldsUnplaced_shifted (k : Nat) :
    ∀ fields : List (Key × Expr), fieldsUnplaced (fieldsShifted k fields) = fieldsUnplaced fields
  | [] => rfl
  | (key, e) :: r => by
    rw [fieldsShifted, fieldsUnplaced, fieldsUnplaced, keyUnplaced_shifted k key, unplaced_shifted k e,
      fieldsUnplaced_shifted k r]

theorem keyUnplaced_shifted (k : Nat) : ∀ key : Key, keyUnplaced (keyShifted k key) = keyUnplaced key
  | .named _ => rfl
  | .computed e => by rw [keyShifted, keyUnplaced, keyUnplaced, unplaced_shifted k e]

end

mutual

/-- No further on is where it was. -/
theorem shifted_zero : ∀ e : Expr, e.shifted 0 = e
  | literal .. | identifier .. => rfl
  | array _ items | sequence _ items => by rw [shifted, itemsShifted_zero]; rfl
  | object _ fields => by rw [shifted, fieldsShifted_zero]; rfl
  | unary _ _ e | update _ _ _ e | chain _ e => by rw [shifted, shifted_zero e]; rfl
  | binary _ _ a b | logical _ _ a b | assignment _ _ a b => by rw [shifted, shifted_zero a, shifted_zero b]; rfl
  | member _ base key _ => by rw [shifted, shifted_zero base, keyShifted_zero]; rfl
  | conditional _ test a b => by rw [shifted, shifted_zero test, shifted_zero a, shifted_zero b]; rfl
  | call _ callee arguments _ => by rw [shifted, shifted_zero callee, itemsShifted_zero]; rfl

theorem itemsShifted_zero : ∀ items : List Expr, itemsShifted 0 items = items
  | [] => rfl
  | e :: r => by rw [itemsShifted, shifted_zero e, itemsShifted_zero r]

theorem fieldsShifted_zero : ∀ fields : List (Key × Expr), fieldsShifted 0 fields = fields
  | [] => rfl
  | (key, e) :: r => by rw [fieldsShifted, keyShifted_zero key, shifted_zero e, fieldsShifted_zero r]

theorem keyShifted_zero : ∀ key : Key, keyShifted 0 key = key
  | .named _ => rfl
  | .computed e => by rw [keyShifted, shifted_zero e]

end

end Expr

/-! ## Surroundings -/

namespace Grammar

/-- What a text is put into: so many bytes before it, and text behind it, with a blank between. -/
structure Surroundings where
  before : Nat
  behind : List Char
  apart : ∀ d ∈ behind.head?, isSpace d = true

/-- Surroundings with nothing behind. -/
def Surroundings.ahead (k : Nat) : Surroundings := ⟨k, [], nofun⟩

end Grammar

namespace Cursor

/-- The place of a cursor when its text is put into surroundings. -/
def amid (w : Grammar.Surroundings) (c : Cursor) : Cursor := ⟨c.offset + w.before, c.rest ++ w.behind⟩

theorem rest_amid (w : Grammar.Surroundings) (c : Cursor) : (c.amid w).rest = c.rest ++ w.behind := rfl

theorem amid_ahead_zero (c : Cursor) : c.amid (.ahead 0) = c := by
  unfold amid
  rw [show c.rest ++ (Grammar.Surroundings.ahead 0).behind = c.rest from List.append_nil _]
  rfl

/-- Every cursor is somewhere in a source. -/
theorem exists_source (c : Cursor) : ∃ source, (start source).Ahead c := by
  refine ⟨List.replicate c.offset 'a' ++ c.rest, List.replicate c.offset 'a', rfl, ?_⟩
  have length (n : Nat) : Text.byteLength (List.replicate n 'a') = n := by
    induction n with
    | zero => rfl
    | succ n ih => rw [List.replicate_succ, Text.byteLength, ih]; exact Nat.add_comm ..
  show c.offset = 0 + _
  rw [length, Nat.zero_add]

theorem Ahead.rest_ne_nil {c c' : Cursor} (h : c.Ahead c') (some : c'.rest ≠ []) : c.rest ≠ [] := by
  obtain ⟨read, rest, -⟩ := h
  rw [rest]
  exact List.append_ne_nil_of_right_ne_nil _ some

theorem skip_amid {w : Grammar.Surroundings} {n : Nat} {c : Cursor} (some : w.behind = [] ∨ n ≤ c.rest.length) :
    (c.amid w).skip n = (c.skip n).amid w := by
  obtain ⟨offset, rest⟩ := c
  induction n generalizing offset rest with
  | zero => rfl
  | succ n ih =>
    cases rest with
    | nil =>
      have empty : w.behind = [] := some.resolve_right (Nat.not_succ_le_zero n)
      unfold amid
      rw [empty]
      rfl
    | cons d r =>
      show (⟨offset + w.before + d.utf8Size, r ++ w.behind⟩ : Cursor).skip n = _
      rw [Nat.add_right_comm]
      exact ih _ _ (some.imp_right Nat.le_of_succ_le_succ)

theorem le_of_skip {n : Nat} {c : Cursor} (some : (c.skip n).rest ≠ []) : n ≤ c.rest.length := by
  obtain ⟨offset, rest⟩ := c
  induction rest generalizing n offset with
  | nil => cases n <;> exact (some rfl).elim
  | cons d r ih =>
    cases n with
    | zero => exact Nat.zero_le _
    | succ n => exact Nat.succ_le_succ (ih _ some)

/-- Characters that blanks are none of are passed over up to the same place. -/
theorem skipWhile_amid {w : Grammar.Surroundings} {p : Char → Bool} {c : Cursor}
    (stops : (c.skipWhile p).rest ≠ [] ∨ ∀ d ∈ w.behind.head?, p d = false) :
    (c.amid w).skipWhile p = (c.skipWhile p).amid w ∧ (c.rest ++ w.behind).takeWhile p = c.rest.takeWhile p := by
  obtain ⟨offset, rest⟩ := c
  rw [skipWhile_eq, skipWhile_eq] at *
  have both : (rest ++ w.behind).takeWhile p = rest.takeWhile p ∧
      (rest ++ w.behind).dropWhile p = rest.dropWhile p ++ w.behind := by
    replace stops : rest.dropWhile p ≠ [] ∨ ∀ d ∈ w.behind.head?, p d = false := stops
    clear offset
    induction rest with
    | nil =>
      have none : ∀ d ∈ w.behind.head?, p d = false := stops.resolve_left fun some => some rfl
      cases here : w.behind with
      | nil => exact ⟨rfl, rfl⟩
      | cons d r =>
        rw [here] at none
        have last := none d rfl
        exact ⟨List.takeWhile_cons_of_neg (by simp [last]), List.dropWhile_cons_of_neg (by simp [last])⟩
    | cons d r ih =>
      simp only [List.cons_append, List.takeWhile_cons, List.dropWhile_cons] at stops ⊢
      split
      · next holds =>
        rw [if_pos holds] at stops
        obtain ⟨takes, drops⟩ := ih stops
        exact ⟨congrArg (d :: ·) takes, drops⟩
      · exact ⟨rfl, rfl⟩
  refine ⟨?_, both.1⟩
  show (⟨offset + w.before + Text.byteLength ((rest ++ w.behind).takeWhile p), (rest ++ w.behind).dropWhile p⟩ : Cursor) = _
  rw [both.1, both.2, amid, Nat.add_right_comm]

end Cursor

namespace Grammar

variable {α β γ δ : Type} {w : Surroundings} {whole : Bool}

/-- What one reading gives at a cursor another gives in surroundings, further on; but for those that come to the end of
the text, if `whole` does not say that these count as well. -/
def Stays (w : Surroundings) (whole : Bool) (move : α → β) (x : Reading α) (y : Reading β) (c : Cursor) : Prop :=
  ∀ a c', Gives x c a c' → c.Ahead c' ∧
    ((whole = false → w.behind = [] ∨ c'.rest ≠ []) → Gives y (c.amid w) (move a) (c'.amid w))

namespace Stays

variable {c : Cursor} {move : α → γ} {later : β → δ} {x : Reading α} {y : Reading γ} {f : α → Reading β}
  {g : γ → Reading δ}

theorem none (fails : ∀ a c', ¬ Gives x c a c') : Stays w whole move x y c := fun a c' h => (fails a c' h).elim

theorem failHere {message : String} : Stays w whole move (Grammar.failHere message) y c := none fun _ _ => not_gives_failHere

theorem failEnd : Stays w whole move Grammar.failEnd y c := none fun _ _ => not_gives_failEnd

theorem failAt {defect : Defect} {span : Span} : Stays w whole move (Grammar.failAt defect span) y c :=
  none fun _ _ => not_gives_failAt

theorem pure {a : α} {b : γ} (same : move a = b) : Stays w whole move (Pure.pure a) (Pure.pure b) c := by
  intro a' c' h
  obtain ⟨rfl, rfl⟩ := gives_pure.mp h
  exact ⟨.refl _, fun _ => gives_pure.mpr ⟨same.symm, rfl⟩⟩

theorem loosen (h : Stays w true move x y c) : Stays w whole move x y c :=
  fun a c' gives => ⟨(h a c' gives).1, fun _ => (h a c' gives).2 nofun⟩

/-- The first of two readings need not count at the end of the text, if the second does not start there. -/
theorem within (first : Stays w false move x y c)
    (some : whole = true → ∀ a c₁ b c', Gives x c a c₁ → Gives (f a) c₁ b c' → c₁.rest ≠ [])
    (rest : ∀ a c₁, Gives x c a c₁ → Stays w whole later (f a) (g (move a)) c₁) :
    Stays w whole later (x >>= f) (y >>= g) c := by
  intro b c' h
  obtain ⟨a, c₁, hx, hf⟩ := gives_bind.mp h
  obtain ⟨on, stays⟩ := first a c₁ hx
  obtain ⟨on', stays'⟩ := rest a c₁ hx b c' hf
  refine ⟨on.trans on', fun counts => gives_bind.mpr ⟨_, _, stays fun _ => ?_, stays' counts⟩⟩
  cases whole with
  | true => exact .inr (some rfl a c₁ b c' hx hf)
  | false => exact (counts rfl).imp_right on'.rest_ne_nil

theorem bind (first : Stays w whole move x y c)
    (rest : ∀ a c₁, Gives x c a c₁ → Stays w whole later (f a) (g (move a)) c₁) :
    Stays w whole later (x >>= f) (y >>= g) c := by
  cases whole with
  | false => exact within first nofun rest
  | true =>
    intro b c' h
    obtain ⟨a, c₁, hx, hf⟩ := gives_bind.mp h
    obtain ⟨on, stays⟩ := first a c₁ hx
    obtain ⟨on', stays'⟩ := rest a c₁ hx b c' hf
    exact ⟨on.trans on', fun counts => gives_bind.mpr ⟨_, _, stays nofun, stays' counts⟩⟩

theorem offset {f : Nat → Reading β} {g : Nat → Reading δ}
    (rest : Stays w whole later (f c.offset) (g (c.offset + w.before)) c) :
    Stays w whole later (Grammar.offset >>= f) (Grammar.offset >>= g) c := rest

theorem rest {f : List Char → Reading β} {g : List Char → Reading δ}
    (rest : Stays w whole later (f c.rest) (g (c.rest ++ w.behind)) c) :
    Stays w whole later (Grammar.rest >>= f) (Grammar.rest >>= g) c := rest

theorem current? {f : Option Char → Reading β} {g : Option Char → Reading δ}
    (some : whole = true → ∀ b c', Gives (f c.rest.head?) c b c' → c.rest ≠ [])
    (rest : Stays w whole later (f c.rest.head?) (g c.rest.head?) c) :
    Stays w whole later (Grammar.current? >>= f) (Grammar.current? >>= g) c := by
  intro b c' h
  obtain ⟨_, c₁, look, h⟩ := gives_bind.mp h
  obtain ⟨rfl, rfl⟩ := gives_current?.mp look
  obtain ⟨on, stays⟩ := rest b c' h
  refine ⟨on, fun counts => ?_⟩
  have here : w.behind = [] ∨ c.rest ≠ [] := by
    cases whole with
    | true => exact .inr (some rfl b c' h)
    | false => exact (counts rfl).imp_right on.rest_ne_nil
  have same : (c.amid w).rest.head? = c.rest.head? := by
    rw [Cursor.rest_amid]
    rcases here with empty | here
    · rw [empty, List.append_nil]
    · obtain ⟨d, r, here⟩ := List.exists_cons_of_ne_nil here
      rw [here]
      rfl
  exact gives_bind.mpr ⟨_, _, gives_current?.mpr ⟨same, rfl⟩, stays counts⟩

theorem skip {f : Unit → Reading β} {g : Unit → Reading δ} {n : Nat} (some : whole = true → n ≤ c.rest.length)
    (rest : Stays w whole later (f ()) (g ()) (c.skip n)) :
    Stays w whole later (Grammar.skip n >>= f) (Grammar.skip n >>= g) c := by
  intro b c' h
  obtain ⟨_, c₁, skips, h⟩ := gives_bind.mp h
  obtain rfl := gives_skip.mp skips
  obtain ⟨on, stays⟩ := rest b c' h
  refine ⟨(c.ahead_skip n).trans on, fun counts => gives_bind.mpr ⟨_, _, gives_skip.mpr ?_, stays counts⟩⟩
  refine Cursor.skip_amid ?_
  cases whole with
  | true => exact .inr (some rfl)
  | false => exact (counts rfl).imp_right fun there => Cursor.le_of_skip (on.rest_ne_nil there)

theorem skipSpaces {f : Unit → Reading β} {g : Unit → Reading δ}
    (some : whole = true → ∀ b c', Gives (f ()) (c.skipWhile isSpace) b c' → (c.skipWhile isSpace).rest ≠ [])
    (rest : Stays w whole later (f ()) (g ()) (c.skipWhile isSpace)) :
    Stays w whole later (Grammar.skipSpaces >>= f) (Grammar.skipSpaces >>= g) c := by
  intro b c' h
  obtain ⟨_, c₁, skips, h⟩ := gives_bind.mp h
  obtain rfl := gives_skipSpaces.mp skips
  obtain ⟨on, stays⟩ := rest b c' h
  refine ⟨(c.ahead_skipWhile _).trans on, fun counts => gives_bind.mpr ⟨_, _, gives_skipSpaces.mpr ?_, stays counts⟩⟩
  refine (Cursor.skipWhile_amid ?_).1
  cases whole with
  | true => exact .inl (some rfl b c' h)
  | false =>
    rcases counts rfl with empty | there
    · right
      rw [empty]
      nofun
    · exact .inl (on.rest_ne_nil there)

theorem takeWhile {p : Char → Bool} (solid : ∀ d, isSpace d = true → p d = false) :
    Stays w whole id (Grammar.takeWhile p) (Grammar.takeWhile p) c := by
  intro text c' h
  obtain ⟨rfl, rfl⟩ := gives_takeWhile.mp h
  -- At the end of the text the blank behind it ends the characters as well.
  obtain ⟨skips, takes⟩ := Cursor.skipWhile_amid (w := w) (p := p) (c := c) (.inr fun d head => solid d (w.apart d head))
  exact ⟨c.ahead_skipWhile p, fun _ => gives_takeWhile.mpr ⟨takes, skips⟩⟩

end Stays

/-! ## What a text starts with -/

theorem isSpace_eq_true {d : Char} (h : isSpace d = true) : d = ' ' ∨ d = '\t' ∨ d = '\n' ∨ d = '\r' ∨ d = Char.ofNat 12 := by
  simp only [isSpace, Bool.or_eq_true, beq_iff_eq] at h
  rcases h with (((h | h) | h) | h) | h
  · exact .inl h
  · exact .inr (.inl h)
  · exact .inr (.inr (.inl h))
  · exact .inr (.inr (.inr (.inl h)))
  · exact .inr (.inr (.inr (.inr (by rw [← h, Char.ofNat_toNat]))))

/-- No blank passes a test that none of the five passes. -/
theorem not_of_isSpace {p : Char → Bool} (none : [' ', '\t', '\n', '\r', Char.ofNat 12].any p = false) {d : Char}
    (h : isSpace d = true) : p d = false := by
  have apart := List.any_eq_false.mp none
  rcases isSpace_eq_true h with rfl | rfl | rfl | rfl | rfl <;> exact Bool.eq_false_iff.mpr (apart _ (by simp))

theorem isNameChar_of_isSpace {d : Char} (h : isSpace d = true) : isNameChar d = false :=
  not_of_isSpace (by decide) h

/-- Whether a text has no blank in it. -/
def isSolid (text : List Char) : Bool := !text.any isSpace

theorem isSolid_cons {d : Char} {r : List Char} (h : isSolid (d :: r) = true) : isSpace d = false ∧ isSolid r = true := by
  rw [isSolid, List.any_cons, Bool.not_or] at h
  obtain ⟨here, later⟩ := Bool.and_eq_true_iff.mp h
  exact ⟨(Bool.not_eq_true' _).mp here, later⟩

/-- The sign of an assignment with no operator. -/
def plainAssignAt? : List Char → Option (String × AssignOp)
  | '=' :: '=' :: _ => none
  | '=' :: '>' :: _ => none
  | '=' :: _ => some ("=", .assign)
  | _ => none

/-- Two characters tell an update, and so what is assigned without an operation. -/
theorem updateAt?_far (a b : Char) (r r' : List Char) : updateAt? (a :: b :: r) = updateAt? (a :: b :: r') := by
  unfold updateAt?
  split <;> split <;> simp_all

theorem plainAssignAt?_far (a b : Char) (r r' : List Char) : plainAssignAt? (a :: b :: r) = plainAssignAt? (a :: b :: r') := by
  by_cases equals : a = '='
  · subst equals
    by_cases twice : b = '='
    · subst twice
      rfl
    · by_cases arrow : b = '>'
      · subst arrow
        rfl
      · simp [plainAssignAt?, twice, arrow]
  · simp [plainAssignAt?, equals]

namespace Surroundings

variable (w : Surroundings)

theorem behind_eq : w.behind = [] ∨ ∃ d r, w.behind = d :: r ∧ isSpace d = true := by
  have apart := w.apart
  cases here : w.behind with
  | nil => exact .inl rfl
  | cons d r =>
    rw [here] at apart
    exact .inr ⟨d, r, rfl, apart d rfl⟩

/-- A lead without blanks does not reach behind a text. -/
theorem dropLead?_append {lead : List Char} (solid : isSolid lead = true) (text : List Char) :
    Text.dropLead? lead (text ++ w.behind) = (Text.dropLead? lead text).map (· ++ w.behind) := by
  induction lead generalizing text with
  | nil => rfl
  | cons a lead ih =>
    obtain ⟨first, later⟩ := isSolid_cons solid
    cases text with
    | nil =>
      rcases w.behind_eq with empty | ⟨d, r, here, blank⟩
      · rw [empty]
        rfl
      · have apart : a ≠ d := by
          rintro rfl
          exact Bool.noConfusion (first.symm.trans blank)
        rw [here]
        exact if_neg apart
    | cons c r =>
      show (if a = c then Text.dropLead? lead (r ++ w.behind) else none) = (if a = c then _ else _ : Option _).map _
      split
      · exact ih later r
      · rfl

theorem startsWith_append {lead : List Char} (solid : isSolid lead = true) (text : List Char) :
    Text.startsWith lead (text ++ w.behind) = Text.startsWith lead text := by
  rw [Text.startsWith, w.dropLead?_append solid, Option.isSome_map]
  rfl

theorem startsWithWord_append {word : String} (solid : isSolid word.toList = true) (text : List Char) :
    startsWithWord word (text ++ w.behind) = startsWithWord word text := by
  unfold startsWithWord
  rw [w.dropLead?_append solid]
  match Text.dropLead? word.toList text with
  | none => rfl
  | some (_ :: _) => rfl
  | some [] =>
    rcases w.behind_eq with empty | ⟨d, r, here, blank⟩
    · rw [empty]
      rfl
    · rw [here]
      exact congrArg not (isNameChar_of_isSpace blank)

theorem symbolAt?_append {table : List (String × α)} (solid : table.all (isSolid ·.1.toList) = true) (text : List Char) :
    symbolAt? table (text ++ w.behind) = symbolAt? table text := by
  unfold symbolAt?
  induction table with
  | nil => rfl
  | cons entry table ih =>
    obtain ⟨first, later⟩ := Bool.and_eq_true_iff.mp solid
    rw [List.find?_cons, List.find?_cons, w.startsWith_append first, ih later]

theorem infixAt?_append (text : List Char) : infixAt? (text ++ w.behind) = infixAt? text := by
  unfold infixAt?
  rw [w.startsWithWord_append (by decide), w.symbolAt?_append (by decide), w.symbolAt?_append (by decide)]

/-- What is told from the first two characters of a text, if blanks tell as much as the end of the text. -/
theorem ahead_append {f : List Char → α} (far : ∀ a b r r', f (a :: b :: r) = f (a :: b :: r'))
    (one : ∀ a d r, isSpace d = true → f (a :: d :: r) = f [a]) (none : ∀ d r, isSpace d = true → f (d :: r) = f [])
    (text : List Char) : f (text ++ w.behind) = f text := by
  match text with
  | [] =>
    rcases w.behind_eq with empty | ⟨d, r, here, blank⟩
    · rw [empty]
      rfl
    · rw [here]
      exact none d r blank
  | [a] =>
    rcases w.behind_eq with empty | ⟨d, r, here, blank⟩
    · rw [empty]
      rfl
    · rw [here]
      exact one a d r blank
  | a :: b :: r => exact far a b _ _

theorem updateAt?_append (text : List Char) : updateAt? (text ++ w.behind) = updateAt? text := by
  refine w.ahead_append updateAt?_far (fun a d r blank => ?_) (fun d r blank => ?_) text
  · rcases isSpace_eq_true blank with rfl | rfl | rfl | rfl | rfl <;> (unfold updateAt?; split <;> simp_all)
  · rcases isSpace_eq_true blank with rfl | rfl | rfl | rfl | rfl <;> rfl

theorem plainAssignAt?_append (text : List Char) : plainAssignAt? (text ++ w.behind) = plainAssignAt? text := by
  refine w.ahead_append plainAssignAt?_far (fun a d r blank => ?_) (fun d r blank => ?_) text
  · unfold plainAssignAt?
    rcases isSpace_eq_true blank with rfl | rfl | rfl | rfl | rfl <;> (split <;> simp_all)
  · rcases isSpace_eq_true blank with rfl | rfl | rfl | rfl | rfl <;> rfl

theorem assignAt?_append (text : List Char) : assignAt? (text ++ w.behind) = assignAt? text := by
  unfold assignAt?
  rw [w.symbolAt?_append (by decide)]
  cases symbolAt? assignSymbols text with
  | some found => rfl
  | none => exact w.plainAssignAt?_append text

theorem unaryAt?_append (text : List Char) : unaryAt? (text ++ w.behind) = unaryAt? text := by
  have words : ∀ text, startsWithWord "typeof" (text ++ w.behind) = startsWithWord "typeof" text ∧
      startsWithWord "void" (text ++ w.behind) = startsWithWord "void" text :=
    fun text => ⟨w.startsWithWord_append (by decide) text, w.startsWithWord_append (by decide) text⟩
  cases text with
  | nil =>
    rcases w.behind_eq with empty | ⟨d, r, here, blank⟩
    · rw [empty]
      rfl
    · have first := words []
      rw [here] at first ⊢
      rcases isSpace_eq_true blank with rfl | rfl | rfl | rfl | rfl <;> rfl
  | cons a r =>
    rw [List.cons_append]
    unfold unaryAt?
    have first := words (a :: r)
    rw [List.cons_append] at first
    split <;> simp_all

end Surroundings

/-! ## Literals -/

theorem length_pos_of_head {c : Cursor} {d : Char} (here : c.rest.head? = some d) : 1 ≤ c.rest.length :=
  List.length_pos_iff.mpr (rest_ne_nil_of_head here)

theorem isDigit_of_isSpace {d : Char} (h : isSpace d = true) : d.isDigit = false :=
  not_of_isSpace (p := Char.isDigit) (by decide) h

theorem isNameStart_of_isSpace {d : Char} (h : isSpace d = true) : isNameStart d = false :=
  not_of_isSpace (p := isNameStart) (by decide) h

/-- The sign that the digits of an exponent may have. -/
def powerSign (text : List Char) : List Char :=
  match text with
  | '+' :: _ => ['+']
  | '-' :: _ => ['-']
  | _ => []

/-- What an exponent is by the text after its sign. -/
def powerFrom (letter : Char) (sign tail : List Char) : Reading (List Char) :=
  match tail with
  | d :: _ =>
    if d.isDigit then do
      skip (1 + sign.length)
      return letter :: (sign ++ (← takeWhile Char.isDigit))
    else return []
  | [] => return []

theorem length_powerSign_le (text : List Char) : (powerSign text).length ≤ text.length := by
  unfold powerSign
  split <;> simp

theorem Surroundings.powerSign_append (w : Surroundings) (text : List Char) :
    powerSign (text ++ w.behind) = powerSign text := by
  refine w.ahead_append (fun a b r r' => ?_) (fun a d r _ => ?_) (fun d r blank => ?_) text
  · unfold powerSign
    split <;> simp_all
  · unfold powerSign
    split <;> simp_all
  · rcases isSpace_eq_true blank with rfl | rfl | rfl | rfl | rfl <;> rfl

namespace Stays

variable {c : Cursor} {n m : Nat}

/-- A look at the next character that fails at the end of the text. -/
theorem peek {move : β → δ} {f : Option Char → Reading β} {g : Option Char → Reading δ}
    (fails : ∀ b c', ¬ Gives (f Option.none) c b c')
    (rest : Stays w whole move (f c.rest.head?) (g c.rest.head?) c) :
    Stays w whole move (Grammar.current? >>= f) (Grammar.current? >>= g) c := by
  refine .current? (fun _ b c' h empty => fails b c' ?_) rest
  rw [empty] at h
  exact h

/-- A look at the next two characters, of which a blank is as good as the end of the text. -/
theorem glance {move : β → δ} {f : List Char → Reading β} {g : List Char → Reading δ}
    (far : ∀ a b r r', g (a :: b :: r) = g (a :: b :: r'))
    (one : ∀ a d r, isSpace d = true → g (a :: d :: r) = g [a]) (none : ∀ d r, isSpace d = true → g (d :: r) = g [])
    (rest : Stays w whole move (f c.rest) (g c.rest) c) :
    Stays w whole move (Grammar.rest >>= f) (Grammar.rest >>= g) c := by
  refine .rest ?_
  rw [w.ahead_append far one none]
  exact rest

theorem expect (d : Char) : Stays w whole id (Grammar.expect d) (Grammar.expect d) c := by
  refine .peek (fun _ _ => not_gives_failEnd) ?_
  cases here : c.rest.head? with
  | none => exact .failEnd
  | some found =>
    dsimp only
    split
    · exact .skip (f := Pure.pure) (g := Pure.pure) (fun _ => length_pos_of_head here) (.pure rfl)
    · exact .failHere

theorem readName : Stays w whole id readName readName c := by
  refine .peek (fun _ _ => not_gives_failEnd) ?_
  cases c.rest.head? with
  | none => exact .failEnd
  | some d =>
    dsimp only
    split
    · exact .bind (.takeWhile fun _ => isNameChar_of_isSpace) fun _ _ _ => .pure rfl
    · exact .failHere

theorem readUnicodeEscape : Stays w whole id readUnicodeEscape readUnicodeEscape c := by
  refine .rest ?_
  by_cases four : Text.byteLength (Text.takeBytes 4 c.rest) = 4
  · have all : c.rest = Text.takeBytes 4 c.rest ++ Text.dropBytes 4 c.rest := (Text.takeBytes_append_dropBytes ..).symm
    have same : Text.takeBytes 4 (c.rest ++ w.behind) = Text.takeBytes 4 c.rest := by
      have long := Text.takeBytes_append (Text.takeBytes 4 c.rest) (Text.dropBytes 4 c.rest ++ w.behind)
      rw [four, ← List.append_assoc, ← all] at long
      exact long
    have short : (Text.takeBytes 4 c.rest).length ≤ c.rest.length := by
      rw [congrArg List.length all, List.length_append]
      exact Nat.le_add_right ..
    rw [same]
    simp only [four, ne_eq, not_true, if_false]
    split
    · exact .failHere
    · refine .skip (fun _ => short) ?_
      split
      · exact .pure rfl
      · exact .failHere
  · refine .none fun a c' h => ?_
    simp only [four, ne_eq, not_false_eq_true, if_true] at h
    split at h <;> exact not_gives_failHere h

theorem readStringBody (quote : Char) (le : n ≤ m) :
    Stays w whole id (readStringBody quote n) (readStringBody quote m) c := by
  induction n generalizing m c with
  | zero => exact .failEnd
  | succ n ih =>
    cases m with
    | zero => cases le
    | succ m =>
      have more (value : Char) (c : Cursor) : Stays w whole id (do return value :: (← Grammar.readStringBody quote n))
          (do return value :: (← Grammar.readStringBody quote m)) c :=
        .bind (ih (Nat.le_of_succ_le_succ le)) fun _ _ _ => .pure rfl
      refine .peek (fun _ _ => not_gives_failEnd) ?_
      cases here : c.rest.head? with
      | none => exact .failEnd
      | some d =>
        refine .skip (fun _ => length_pos_of_head here) ?_
        split
        · exact .pure rfl
        · split
          · refine .peek (fun _ _ => not_gives_failEnd) ?_
            cases here : (c.skip 1).rest.head? with
            | none => exact .failEnd
            | some e =>
              refine .skip (fun _ => length_pos_of_head here) ?_
              dsimp only
              split
              · exact .bind .readUnicodeEscape fun value c _ => more value c
              · exact more _ _
          · split
            · exact .failHere
            · exact more d _

theorem readString (quote d : Char) (here : c.rest.head? = some d) :
    Stays w whole id (readString quote) (readString quote) c := by
  refine .skip (fun _ => length_pos_of_head here) (.rest ?_)
  refine .bind (.readStringBody quote ?_) fun _ _ _ => .pure rfl
  rw [List.length_append]
  omega

theorem digits : Stays w whole id (Grammar.takeWhile Char.isDigit) (Grammar.takeWhile Char.isDigit) c :=
  .takeWhile fun _ => isDigit_of_isSpace

theorem readHexLiteral (some : 2 ≤ c.rest.length) : Stays w whole id readHexLiteral readHexLiteral c := by
  have solid (d : Char) : isSpace d = true → (Number.hexValue? d).isSome = false :=
    not_of_isSpace (p := fun d => (Number.hexValue? d).isSome) (by decide)
  refine .skip (fun _ => some) (.bind (.takeWhile solid) fun digits _ _ => ?_)
  dsimp only [id]
  split
  · split
    · exact .pure rfl
    · exact .failHere
  · exact .failHere

theorem readPlaces : Stays w whole id readPlaces readPlaces c := by
  refine .glance (fun a b r r' => ?_) (fun a d r blank => ?_) (fun d r blank => ?_) ?_
  · by_cases dot : a = '.'
    · subst dot
      rfl
    · simp [dot]
  · by_cases dot : a = '.'
    · subst dot
      show (if d.isDigit = true then _ else if isNameStart d = true then _ else _) = _
      rw [isDigit_of_isSpace blank, isNameStart_of_isSpace blank]
      rfl
    · simp [dot]
  · rcases isSpace_eq_true blank with rfl | rfl | rfl | rfl | rfl <;> rfl
  · split
    · next here =>
      have some : 1 ≤ c.rest.length := by simp [here]
      split
      · exact .skip (fun _ => some) (.bind .digits fun _ _ _ => .pure rfl)
      · split
        · exact .pure rfl
        · exact .skip (fun _ => some) (.pure rfl)
    · next here => exact .skip (fun _ => by simp [here]) (.pure rfl)
    · exact .pure rfl

theorem readPower : Stays w whole id readPower readPower c := by
  refine .rest ?_
  cases here : c.rest with
  | nil =>
    rcases w.behind_eq with empty | ⟨d, r, there, blank⟩
    · rw [empty]
      exact .pure rfl
    · rw [there]
      rcases isSpace_eq_true blank with rfl | rfl | rfl | rfl | rfl <;> exact .pure rfl
  | cons e r =>
    by_cases letter : e = 'e' ∨ e = 'E'
    · have same : powerSign (r ++ w.behind) = powerSign r := w.powerSign_append r
      have dropped : (r ++ w.behind).drop (powerSign r).length = r.drop (powerSign r).length ++ w.behind :=
        List.drop_append_of_le_length (length_powerSign_le r)
      rw [List.cons_append]
      simp only [letter, if_true]
      show Stays w whole id (powerFrom e (powerSign r) (r.drop (powerSign r).length))
        (powerFrom e (powerSign (r ++ w.behind)) ((r ++ w.behind).drop (powerSign (r ++ w.behind)).length)) c
      rw [same, dropped]
      have far : 1 + (powerSign r).length ≤ c.rest.length := by
        have le := length_powerSign_le r
        rw [here, List.length_cons]
        omega
      cases r.drop (powerSign r).length with
      | nil =>
        rcases w.behind_eq with empty | ⟨d, _, there, blank⟩
        · rw [empty]
          exact .pure rfl
        · rw [there]
          show Stays w whole id (Pure.pure []) (if d.isDigit = true then _ else Pure.pure []) c
          rw [isDigit_of_isSpace blank]
          exact .pure rfl
      | cons d _ =>
        rw [List.cons_append]
        unfold powerFrom
        dsimp only
        split
        · exact .skip (fun _ => far) (.bind .digits fun _ _ _ => .pure rfl)
        · exact .pure rfl
    · rw [List.cons_append]
      simp only [letter, if_false]
      exact .pure rfl

theorem readNumber : Stays w whole id readNumber readNumber c := by
  refine .glance (fun a b r r' => ?_) (fun a d r blank => ?_) (fun d r blank => ?_) ?_
  · split <;> split <;> simp_all
  · rcases isSpace_eq_true blank with rfl | rfl | rfl | rfl | rfl <;> (split <;> simp_all)
  · rcases isSpace_eq_true blank with rfl | rfl | rfl | rfl | rfl <;> rfl
  · split
    · next here => exact .readHexLiteral (by simp [here])
    · next here => exact .readHexLiteral (by simp [here])
    · have solid (d : Char) : isSpace d = true → (d.isDigit || d == '_') = false :=
        not_of_isSpace (p := fun d => d.isDigit || d == '_') (by decide)
      refine .offset (.bind (.takeWhile solid) fun whole _ _ => .bind .readPlaces fun places _ _ => ?_)
      refine .bind .readPower fun power _ _ => ?_
      dsimp only [id]
      split
      · exact .pure rfl
      · exact .offset .failAt

end Stays
end Grammar
end PromptScript
