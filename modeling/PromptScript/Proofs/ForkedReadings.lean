import PromptScript.Proofs.Forks
import PromptScript.Proofs.Reprinted

/-! # Expressions of texts that fork

An expression before a closing brace is read in the same way whatever is behind the brace. What is read on the two
branches differs in spans alone. -/
namespace PromptScript

namespace Grammar

variable {α β γ δ : Type} {w : Fork}

/-- What the four bytes of a unicode escape are read into. -/
def escapeOf (four : List Char) : Reading Char := do
  let digits := match four with
    | '+' :: r => r
    | r => r
  match Number.readHex? digits with
  | none => failHere "Invalid unicode escape"
  | some code =>
    if Text.byteLength four ≠ 4 then failHere "Invalid unicode escape"
    else
      skip four.length
      if code < 0xD800 ∨ 0xE000 ≤ code then return Char.ofNat code
      else failHere "Invalid unicode escape"

/-- Reads an exponent, if the text starts with one. -/
def powerOf (text : List Char) : Reading (List Char) :=
  match text with
  | e :: r => if e = 'e' ∨ e = 'E' then powerFrom e (powerSign r) (r.drop (powerSign r).length) else return []
  | [] => return []

theorem Fork.blind_powerOf [w.Closes] : w.Blind powerOf := by
  refine blind_of_brace fun text r r' => ?_
  match text with
  | [] => rfl
  | [e] => rfl
  | e :: d :: t =>
    have sign (r : List Char) : powerSign (d :: (t ++ '\x7d' :: r)) = powerSign [d] := by
      unfold powerSign
      split <;> simp_all
    have next (r : List Char) (k : Nat) (le : k ≤ 1) :
        ((d :: (t ++ '\x7d' :: r)).drop k).head? = ((d :: (t ++ ['\x7d'])).drop k).head? := by
      match k with
      | 0 => rfl
      | 1 => cases t <;> rfl
    have le : (powerSign [d]).length ≤ 1 := length_powerSign_le [d]
    have told {sign text text' : List Char} (same : text.head? = text'.head?) :
        powerFrom e sign text = powerFrom e sign text' := by
      cases text <;> cases text' <;> cases same <;> rfl
    rw [List.cons_append, List.cons_append, List.cons_append, List.cons_append, powerOf, powerOf, sign, sign,
      told ((next r _ le).trans (next r' _ le).symm)]

namespace Parallel

variable {view : α → γ} {later : β → δ}

/-- A look at the text, where the branch does not change what is done. -/
theorem glance {f : List Char → Reading β} (blind : w.Blind f) (rest : ∀ text, Parallel w later (f text) (f text)) :
    Parallel w later (Grammar.rest >>= f) (Grammar.rest >>= f) := by
  refine .rest fun text text' sees => ?_
  rw [blind _ _ sees]
  exact rest text

/-- A reading with a bound that the text ahead gives, if the bound does not matter. -/
theorem bounded (read : Nat → Reading α) (bound : List Char → Nat) (each : ∀ n, Parallel w view (read n) (read n))
    (settled : ∀ c, Settled read c (bound c.rest)) :
    Parallel w view (Grammar.rest >>= fun text => read (bound text)) (Grammar.rest >>= fun text => read (bound text)) where
  ahead c := (each (bound c.rest)).ahead c
  both c d a c' at_ h within := by
    -- The texts ahead give different bounds, but with the greater of both the same is read on both branches.
    let n := max (bound c.rest) (bound d.rest)
    have more : Gives (read n) c a c' := (settled c n (Nat.le_max_left ..)).trans h
    obtain ⟨b, d', reads, same, at'⟩ := (each n).both c d a c' at_ more within
    exact ⟨b, d', (settled d n (Nat.le_max_right ..)).symm.trans reads, same, at'⟩

/-! ## Literals -/

theorem readUnicodeEscape : Parallel w id readUnicodeEscape readUnicodeEscape := by
  have each (four : List Char) : Parallel w id (escapeOf four) (escapeOf four) := by
    unfold escapeOf
    dsimp only
    split
    · exact failHere
    · exact ite failHere (skip (ite (pure rfl) failHere))
  refine ⟨fun c => (each (Text.takeBytes 4 c.rest)).ahead c, fun c d a c' at_ h within => ?_⟩
  -- The four bytes are there, and have been passed over.
  obtain ⟨four, past⟩ : Text.byteLength (Text.takeBytes 4 c.rest) = 4 ∧ c.skip (Text.takeBytes 4 c.rest).length = c' := by
    have h : Gives (escapeOf (Text.takeBytes 4 c.rest)) c a c' := h
    unfold escapeOf at h
    dsimp only at h
    split at h
    · exact (not_gives_failHere h).elim
    · split at h
      · exact (not_gives_failHere h).elim
      · next four =>
        obtain ⟨_, c₁, skips, h⟩ := gives_bind.mp h
        obtain rfl := gives_skip.mp skips
        split at h
        · exact ⟨Decidable.not_not.mp four, (gives_pure.mp h).2⟩
        · exact (not_gives_failHere h).elim
  have cut : c.rest = Text.takeBytes 4 c.rest ++ c'.rest := by
    have both := (Text.takeBytes_append_dropBytes 4 c.rest).symm
    rw [← past, Cursor.rest_skip]
    conv => rhs; rw [congrArg (List.drop _) both, List.drop_left]
    exact both
  obtain ⟨later, -, there⟩ := at_.onward cut within
  have same : Text.takeBytes 4 d.rest = Text.takeBytes 4 c.rest := by
    have long := Text.takeBytes_append (Text.takeBytes 4 c.rest) (later ++ w.behind')
    rwa [four, ← there] at long
  obtain ⟨b, d', reads, outcome⟩ := (each (Text.takeBytes 4 c.rest)).both c d a c' at_ h within
  rw [← same] at reads
  exact ⟨b, d', reads, outcome⟩

/-! ## Targets -/

theorem checkUpdateTarget {target target' : Expr} (same : target.unplaced = target'.unplaced) :
    Parallel w id (checkUpdateTarget target) (checkUpdateTarget target') where
  ahead c a c' h := Advances.checkUpdateTarget target c a c' h
  both c d a c' at_ h _ := by
    have may := makes_checkUpdateTarget c a c' h
    obtain rfl := (checkUpdateTarget_gives h).1
    exact ⟨(), d, gives_checkUpdateTarget ((isTarget_of_alike same.symm).trans may) d, rfl, at_⟩

theorem checkAssignTarget {target target' : Expr} (same : target.unplaced = target'.unplaced) :
    Parallel w id (checkAssignTarget target) (checkAssignTarget target') where
  ahead c a c' h := Advances.checkAssignTarget target c a c' h
  both c d a c' at_ h _ := by
    have may := makes_checkAssignTarget c a c' h
    have stays := gives_checkAssignTarget may c
    obtain ⟨-, rfl⟩ := Prod.mk.inj (Except.ok.inj (Eq.trans h.symm stays))
    exact ⟨(), d, gives_checkAssignTarget ((isTarget_of_alike same.symm).trans may) d, rfl, at_⟩

variable [w.Closes]

theorem expect (d : Char) : Parallel w id (Grammar.expect d) (Grammar.expect d) := by
  refine current? fun found => ?_
  cases found with
  | none => exact failEnd
  | some found => exact ite (skip (f := Pure.pure) (g := Pure.pure) (pure rfl)) failHere

theorem readName : Parallel w id readName readName := by
  refine current? fun found => ?_
  cases found with
  | none => exact failEnd
  | some d => exact ite (takeWhile (by decide) fun _ => pure rfl) failHere

theorem readStringBody (quote : Char) (n : Nat) : Parallel w id (readStringBody quote n) (readStringBody quote n) := by
  induction n with
  | zero => exact failEnd
  | succ n ih =>
    have more (value : Char) : Parallel w id (do return value :: (← Grammar.readStringBody quote n))
        (do return value :: (← Grammar.readStringBody quote n)) := ih.bind fun _ _ same => pure (congrArg (value :: ·) same)
    refine current? fun found => ?_
    cases found with
    | none => exact failEnd
    | some d =>
      refine skip (ite (pure rfl) (ite (current? fun found => ?_) (ite failHere (more d))))
      cases found with
      | none => exact failEnd
      | some e =>
        refine skip (ite (readUnicodeEscape.bind fun value _ same => ?_) (more _))
        obtain rfl := same
        exact more value

theorem readString (quote : Char) : Parallel w id (readString quote) (readString quote) := by
  refine skip (bounded (fun n => do return String.ofList (← Grammar.readStringBody quote n))
    (fun text => text.length + 1) (fun n => ?_) fun c => ?_)
  · exact (readStringBody quote n).bind fun _ _ same => pure (congrArg String.ofList same)
  · obtain ⟨source, on⟩ := c.exists_source
    intro n least
    show ((Grammar.readStringBody quote n).run c >>= _) = ((Grammar.readStringBody quote _).run c >>= _)
    rw [(unbounded source).strings on quote n least]

theorem readHexLiteral : Parallel w id readHexLiteral readHexLiteral := by
  refine skip (takeWhile (by decide) fun digits => ?_)
  split
  · exact ite (pure rfl) failHere
  · exact failHere

theorem readPlaces : Parallel w id readPlaces readPlaces := by
  refine glance (Fork.blind_of_two (fun a b r r' => ?_) fun _ _ => rfl) fun text => ?_
  · by_cases dot : a = '.'
    · subst dot
      rfl
    · simp [dot]
  · split
    · exact ite (skip (takeWhile (by decide) fun _ => pure rfl)) (ite (pure rfl) (skip (pure rfl)))
    · exact skip (pure rfl)
    · exact pure rfl

theorem readPower : Parallel w id readPower readPower := by
  refine glance (f := powerOf) Fork.blind_powerOf fun text => ?_
  unfold powerOf
  split
  · refine ite ?_ (pure rfl)
    unfold powerFrom
    split
    · exact ite (skip (takeWhile (by decide) fun _ => pure rfl)) (pure rfl)
    · exact pure rfl
  · exact pure rfl

theorem readNumber : Parallel w id readNumber readNumber := by
  refine glance (Fork.blind_of_two (fun a b r r' => ?_) fun _ _ => rfl) fun text => ?_
  · split <;> split <;> simp_all
  · split
    · exact readHexLiteral
    · exact readHexLiteral
    · refine offset fun _ _ => takeWhile (by decide) fun whole => readPlaces.bind fun places _ same => ?_
      obtain rfl := same
      refine readPower.bind fun power _ same => ?_
      obtain rfl := same
      dsimp only [id]
      split
      · exact pure rfl
      · exact offset fun _ _ => failAt

theorem readWord : Parallel w Expr.unplaced readWord readWord := by
  refine offset fun _ _ => readName.bind fun word _ same => offset fun _ _ => ?_
  obtain rfl := same
  dsimp only [id]
  split
  · exact pure rfl
  · exact ite failAt (pure rfl)

/-! ## Expressions -/

theorem readUpdate {argument argument' : Expr} (same : argument.unplaced = argument'.unplaced) :
    Parallel w Expr.unplaced (readUpdate argument) (readUpdate argument') := by
  refine rest fun text text' sees => ?_
  rw [Fork.blind_updateAt? _ _ sees]
  split
  · exact (checkUpdateTarget same).bind fun _ _ _ => skip (offset fun _ _ => pure (by rw [Expr.unplaced, same, Expr.unplaced]))
  · exact pure same

theorem separated {close : Char} {message : String} {f g : Reading β} (next : Parallel w later f g) :
    Parallel w later (separated close message f) (separated close message g) := by
  refine current? fun found => ?_
  cases found with
  | none => exact failEnd
  | some d =>
    refine ite (skip next) (ite (Parallel.none fun c b c' h => ?_) next)
    obtain ⟨_, _, fails, -⟩ := gives_bind.mp h
    exact not_gives_failHere fails

end Parallel

theorem Infix.unplaced_apply (op : Infix) {left right left' right' : Expr} (same : left.unplaced = left'.unplaced)
    (same' : right.unplaced = right'.unplaced) : (op.apply left right).unplaced = (op.apply left' right').unplaced := by
  cases op <;> simp only [Infix.apply, Expr.unplaced, same, same']

theorem unplaced_finish (optional : Bool) {e e' : Expr} (same : e.unplaced = e'.unplaced) :
    (readLinks.finish optional e).unplaced = (readLinks.finish optional e').unplaced := by
  unfold readLinks.finish
  split
  · rw [Expr.unplaced, same, Expr.unplaced]
  · exact same

/-- What is written of a key is what has been passed over, on both branches. -/
theorem Fork.At.consumed {c d c₁ d₁ : Cursor} (at_ : w.At c d) (at₁ : w.At c₁ d₁) (on : c.Ahead c₁) (on' : d.Ahead d₁) :
    Text.takeBytes (d₁.offset - d.offset) d.rest = Text.takeBytes (c₁.offset - c.offset) c.rest := by
  obtain ⟨text, here, here'⟩ := at₁
  obtain ⟨read, rest, offset⟩ := on
  obtain ⟨read', rest', offset'⟩ := on'
  obtain ⟨later, left, left'⟩ := at_.onward rest ⟨text, here.symm⟩
  obtain rfl : later = text := List.append_cancel_right (left.symm.trans here)
  obtain rfl : read' = read := by
    rw [here', left'] at rest'
    exact (List.append_cancel_right rest').symm
  rw [offset, offset', Nat.add_sub_cancel_left, Nat.add_sub_cancel_left, rest, rest', Text.takeBytes_append,
    Text.takeBytes_append]

/-- Whether a number starts where a text starts. -/
def numeralAt : List Char → Bool
  | [] => false
  | d :: r => d.isDigit || (d == '.' && r.head?.any Char.isDigit)

theorem Fork.blind_numeralAt [w.Closes] : w.Blind numeralAt := blind_of_two (fun _ _ _ _ => rfl) fun _ _ => rfl

/-- Reads what is left of the fields after a key, of which the text is given. -/
def restOfFields (n : Nat) (written : List Char) (span : Span) (key : Key) : Reading (List (Key × Expr)) := do
  skipSpaces
  let value ← fieldValue n written span key
  skipSpaces
  separated '\x7d' "Expected ',' or '\x7d' in object literal" do return (key, value) :: (← readFields n)

/-- Reads the fields of an object behind blanks. -/
def fieldsHere (n : Nat) : Reading (List (Key × Expr)) := do
  let start ← offset
  let text ← rest
  if text.head? = some '\x7d' then
    skip 1
    return []
  else
    let key ← readKey n
    let span := Span.mk start (← offset)
    restOfFields n (Text.takeBytes (span.stop - span.start) text) span key

open PromptScript.Expr (unplaced itemsUnplaced fieldsUnplaced keyUnplaced)

/-- The readings of expressions up to a bound on their depth. -/
structure Parallels (w : Fork) (n : Nat) : Prop where
  sequence : Parallel w unplaced (readSequence n) (readSequence n)
  more : Parallel w itemsUnplaced (readMore n) (readMore n)
  assignment : Parallel w unplaced (readAssignment n) (readAssignment n)
  conditional : Parallel w unplaced (readConditional n) (readConditional n)
  operation (least : Nat) : Parallel w unplaced (readOperation n least) (readOperation n least)
  operators (least : Nat) {left left' : Expr} (same : left.unplaced = left'.unplaced) :
    Parallel w unplaced (readOperators n least left) (readOperators n least left')
  unary : Parallel w unplaced (readUnary n) (readUnary n)
  postfixed : Parallel w unplaced (readPostfix n) (readPostfix n)
  links (start start' : Nat) (optional : Bool) {e e' : Expr} (same : e.unplaced = e'.unplaced) :
    Parallel w unplaced (readLinks n start optional e) (readLinks n start' optional e')
  computed : Parallel w unplaced (readComputed n) (readComputed n)
  arguments : Parallel w itemsUnplaced (readArguments n) (readArguments n)
  items (close : Char) (message : String) : Parallel w itemsUnplaced (readItems n close message) (readItems n close message)
  primary : Parallel w unplaced (readPrimary n) (readPrimary n)
  fields : Parallel w fieldsUnplaced (readFields n) (readFields n)
  key : Parallel w keyUnplaced (readKey n) (readKey n)

namespace Parallels

variable {n : Nat} [w.Closes] (ih : Parallels w n)

include ih

theorem readSequence : Parallel w unplaced (readSequence (n + 1)) (readSequence (n + 1)) := by
  refine .bind ih.assignment fun first first' same => .skipSpaces (.current? fun d => .ite ?_ (.pure same))
  exact .bind ih.more fun more more' later => .offset fun _ _ => .pure (by
    rw [unplaced, itemsUnplaced, same, later, unplaced, itemsUnplaced])

theorem readMore : Parallel w itemsUnplaced (readMore (n + 1)) (readMore (n + 1)) := by
  refine .current? fun d => .ite (.skip (.bind ih.assignment fun e e' same => .skipSpaces ?_)) (.pure rfl)
  exact .bind ih.more fun more more' later => .pure (by rw [itemsUnplaced, same, later, itemsUnplaced])

theorem readAssignment : Parallel w unplaced (readAssignment (n + 1)) (readAssignment (n + 1)) := by
  refine .bind ih.conditional fun target target' same => .skipSpaces (.rest fun text text' sees => ?_)
  rw [Fork.blind_assignAt? _ _ sees]
  split
  · exact .pure same
  · refine .skip (.bind (.checkAssignTarget same) fun _ _ _ => .bind ih.assignment fun value value' alike => .pure ?_)
    rw [unplaced, same, alike, unplaced]

theorem readConditional : Parallel w unplaced (readConditional (n + 1)) (readConditional (n + 1)) := by
  rw [readConditional_succ]
  refine .bind (ih.operation 0) fun test test' same => .skipSpaces (.rest fun text text' sees => ?_)
  rw [Fork.blind_choiceAt _ _ sees]
  refine .ite (.skip (.bind ih.assignment fun a a' first => .skipSpaces ?_)) (.pure same)
  refine .bind (.expect ':') fun _ _ _ => .bind ih.assignment fun b b' second => .pure ?_
  rw [unplaced, same, first, second, unplaced]

omit [w.Closes] in
theorem readOperation (least : Nat) :
    Parallel w unplaced (readOperation (n + 1) least) (readOperation (n + 1) least) :=
  .bind ih.unary fun _ _ same => ih.operators least same

theorem readOperators (least : Nat) {left left' : Expr} (same : left.unplaced = left'.unplaced) :
    Parallel w unplaced (readOperators (n + 1) least left) (readOperators (n + 1) least left') := by
  refine .skipSpaces (.rest fun text text' sees => ?_)
  rw [Fork.blind_infixAt? _ _ sees]
  split
  · exact .pure same
  · refine .ite (.pure same) (.skip (.bind (ih.operation _) fun right right' alike => ?_))
    exact ih.operators least (Infix.unplaced_apply _ same alike)

theorem readUnary : Parallel w unplaced (readUnary (n + 1)) (readUnary (n + 1)) := by
  refine .skipSpaces (.offset fun _ _ => .rest fun text text' sees => ?_)
  rw [Fork.blind_updateAt? _ _ sees, Fork.blind_unaryAt? _ _ sees]
  split
  · refine .skip (.bind ih.unary fun e e' same => .bind (.checkUpdateTarget same) fun _ _ _ => .pure ?_)
    rw [unplaced, same, unplaced]
  · split
    · exact .skip (.bind ih.unary fun e e' same => .pure (by rw [unplaced, same, unplaced]))
    · exact ih.postfixed

theorem readPostfix : Parallel w unplaced (readPostfix (n + 1)) (readPostfix (n + 1)) := by
  rw [readPostfix_succ]
  exact .bind ih.primary fun first first' same => .bind (ih.links _ _ false same) fun _ _ same => .readUpdate same

theorem readLink (start start' : Nat) {e e' : Expr} (same : e.unplaced = e'.unplaced) (l : LinkStart) :
    Parallel w unplaced (readLink n start e l) (readLink n start' e' l) := by
  have call (optional : Bool) : Parallel w unplaced
      (do let arguments ← Grammar.readArguments n; return .call ⟨start, ← Grammar.offset⟩ e arguments optional)
      (do let arguments ← Grammar.readArguments n; return .call ⟨start', ← Grammar.offset⟩ e' arguments optional) :=
    .bind ih.arguments fun _ _ alike => .offset fun _ _ => .pure (by rw [unplaced, same, alike, unplaced])
  have index (optional : Bool) : Parallel w unplaced
      (do let key ← Grammar.readComputed n; return .member ⟨start, ← Grammar.offset⟩ e (.computed key) optional)
      (do let key ← Grammar.readComputed n; return .member ⟨start', ← Grammar.offset⟩ e' (.computed key) optional) :=
    .bind ih.computed fun _ _ alike => .offset fun _ _ => .pure (by
      rw [unplaced, same, keyUnplaced, alike, unplaced, keyUnplaced])
  have name (optional : Bool) : Parallel w unplaced
      (do let name ← Grammar.readName; return .member ⟨start, ← Grammar.offset⟩ e (.named name) optional)
      (do let name ← Grammar.readName; return .member ⟨start', ← Grammar.offset⟩ e' (.named name) optional) :=
    .bind .readName fun _ _ alike => .offset fun _ _ => .pure (by
      obtain rfl := alike
      rw [unplaced, same, unplaced]
      rfl)
  cases l with
  | optional =>
    refine .skip (.skipSpaces (.current? fun d => ?_))
    split
    · exact call true
    · exact index true
    · exact name true
  | member => exact .skip (.skipSpaces (name false))
  | computed => exact index false
  | call => exact call false

theorem readLinks (start start' : Nat) (optional : Bool) {e e' : Expr} (same : e.unplaced = e'.unplaced) :
    Parallel w unplaced (readLinks (n + 1) start optional e) (readLinks (n + 1) start' optional e') := by
  rw [readLinks_succ, readLinks_succ]
  refine .skipSpaces (.rest fun text text' sees => ?_)
  rw [Fork.blind_linkAt? _ _ sees]
  split
  · exact .pure (unplaced_finish optional same)
  · exact .bind (ih.readLink start start' same _) fun _ _ same => ih.links _ _ _ same

theorem readComputed : Parallel w unplaced (readComputed (n + 1)) (readComputed (n + 1)) := by
  refine .bind (.expect '[') fun _ _ _ => .bind ih.sequence fun _ _ same => .skipSpaces ?_
  exact .bind (.expect ']') fun _ _ _ => .pure same

theorem readArguments : Parallel w itemsUnplaced (readArguments (n + 1)) (readArguments (n + 1)) :=
  .bind (.expect '(') fun _ _ _ => ih.items _ _

theorem readItems (close : Char) (message : String) :
    Parallel w itemsUnplaced (readItems (n + 1) close message) (readItems (n + 1) close message) := by
  refine .skipSpaces (.current? fun d => .ite (.skip (.pure rfl)) (.bind ih.assignment fun e e' same => .skipSpaces ?_))
  exact .separated (.bind (ih.items close message) fun _ _ later => .pure (by rw [itemsUnplaced, same, later, itemsUnplaced]))

theorem readPrimary : Parallel w unplaced (readPrimary (n + 1)) (readPrimary (n + 1)) := by
  refine .skipSpaces (.offset fun _ _ => .rest fun text text' sees => ?_)
  have head := Fork.blind_head _ _ sees
  have numeral := Fork.blind_numeralAt _ _ sees
  cases text with
  | nil => exact .failEnd
  | cons d r =>
    obtain ⟨r', rfl⟩ : ∃ r', text' = d :: r' := by
      cases text' <;> cases head
      exact ⟨_, rfl⟩
    simp only [numeralAt] at numeral
    simp only [numeral]
    refine .ite ?_ (.ite ?_ (.ite ?_ (.ite ?_ (.ite ?_ (.ite .readWord .failHere)))))
    · refine .bind .readNumber fun x _ same => .offset fun _ _ => .pure ?_
      obtain rfl := same
      rfl
    · refine .bind (.readString d) fun text _ same => .offset fun _ _ => .pure ?_
      obtain rfl := same
      rfl
    · exact .skip (.bind ih.sequence fun _ _ same => .skipSpaces (.bind (.expect ')') fun _ _ _ => .pure same))
    · exact .skip (.bind (ih.items _ _) fun _ _ same => .offset fun _ _ => .pure (by rw [unplaced, same, unplaced]))
    · exact .skip (.bind ih.fields fun _ _ same => .offset fun _ _ => .pure (by rw [unplaced, same, unplaced]))

theorem fieldValue (written : List Char) (span span' : Span) {key key' : Key} (same : keyUnplaced key = keyUnplaced key') :
    Parallel w unplaced (fieldValue n written span key) (fieldValue n written span' key') := by
  refine .current? fun d => .ite (.skip ih.assignment) ?_
  match key, key', same with
  | .named _, .named _, rfl => exact .ite (.pure rfl) .failHere
  | .computed _, .computed _, _ => exact .failHere

theorem restOfFields (written : List Char) (span span' : Span) {key key' : Key} (same : keyUnplaced key = keyUnplaced key') :
    Parallel w fieldsUnplaced (restOfFields n written span key) (restOfFields n written span' key') := by
  refine .skipSpaces (.bind (ih.fieldValue written span span' same) fun _ _ alike => .skipSpaces (.separated ?_))
  exact .bind ih.fields fun _ _ later => .pure (by rw [fieldsUnplaced, same, alike, later, fieldsUnplaced])

theorem fieldsHere : Parallel w fieldsUnplaced (fieldsHere n) (fieldsHere n) := by
  have closed : Parallel w fieldsUnplaced (do skip 1; return []) (do skip 1; return []) := .skip (.pure rfl)
  refine ⟨fun c fields c' h => ?_, fun c d fields c' at_ h within => ?_⟩
  · change Gives (if c.rest.head? = some '\x7d' then _ else _) c fields c' at h
    split at h
    · exact closed.ahead _ _ _ h
    · obtain ⟨key, c₁, reads, h⟩ := gives_bind.mp h
      exact (ih.key.ahead _ _ _ reads).trans ((ih.restOfFields _ _ ⟨0, 0⟩ rfl).ahead _ _ _ h)
  · have head : d.rest.head? = c.rest.head? := Fork.blind_head _ _ (.inl at_)
    change Gives (if c.rest.head? = some '\x7d' then _ else _) c fields c' at h
    show ∃ b d', Gives (if d.rest.head? = some '\x7d' then _ else _) d b d' ∧ _
    rw [head]
    split at h
    · next close =>
      rw [if_pos close]
      exact closed.both c d fields c' at_ h within
    · next more =>
      rw [if_neg more]
      obtain ⟨key, c₁, reads, h⟩ := gives_bind.mp h
      have left := ((ih.restOfFields _ _ ⟨0, 0⟩ rfl).ahead _ _ _ h).within within
      obtain ⟨key', d₁, reads', same, at₁⟩ := ih.key.both c d key c₁ at_ reads left
      obtain ⟨fields', d', later, alike, at'⟩ :=
        (ih.restOfFields _ ⟨c.offset, c₁.offset⟩ ⟨d.offset, d₁.offset⟩ same).both c₁ d₁ fields c' at₁ h within
      -- The text of the key is the same, too.
      rw [← at_.consumed at₁ (ih.key.ahead _ _ _ reads) ((Advances.expressions n).key _ _ _ reads')] at later
      exact ⟨fields', d', .bind reads' (.offset later), alike, at'⟩

theorem readFields : Parallel w fieldsUnplaced (readFields (n + 1)) (readFields (n + 1)) := .skipSpaces ih.fieldsHere

theorem readKey : Parallel w keyUnplaced (readKey (n + 1)) (readKey (n + 1)) := by
  refine .current? fun found => ?_
  cases found with
  | none => exact .failEnd
  | some d =>
    refine .ite (.skip (.bind ih.assignment fun _ _ same => .skipSpaces ?_)) (.ite ?_ (.ite ?_ ?_))
    · exact .bind (.expect ']') fun _ _ _ => .pure (by rw [keyUnplaced, same, keyUnplaced])
    · exact .bind (.readString d) fun _ _ same => .pure (congrArg Key.named same)
    · exact .bind .readNumber fun _ _ same => .pure (congrArg (Key.named ∘ Number.format) same)
    · exact .bind .readName fun _ _ same => .pure (congrArg Key.named same)

theorem succ : Parallels w (n + 1) where
  sequence := ih.readSequence
  more := ih.readMore
  assignment := ih.readAssignment
  conditional := ih.readConditional
  operation := ih.readOperation
  operators := ih.readOperators
  unary := ih.readUnary
  postfixed := ih.readPostfix
  links := ih.readLinks
  computed := ih.readComputed
  arguments := ih.readArguments
  items := ih.readItems
  primary := ih.readPrimary
  fields := ih.readFields
  key := ih.readKey

end Parallels

theorem parallels (w : Fork) [w.Closes] (n : Nat) : Parallels w n := by
  induction n with
  | zero => constructor <;> intros <;> exact .failEnd
  | succ n ih => exact ih.succ

/-- **What is read of an expression does not depend on what is behind a closing brace**, but for its places. -/
theorem Parallel.readExpr [w.Closes] : Parallel w Expr.unplaced readExpr readExpr := by
  refine .bounded _ _ (fun n => (parallels w n).sequence) fun c => ?_
  obtain ⟨source, on⟩ := c.exists_source
  exact (unbounded source).expressions on

end Grammar
end PromptScript
