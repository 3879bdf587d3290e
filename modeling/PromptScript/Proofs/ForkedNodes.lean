import PromptScript.Proofs.Derived
import PromptScript.Proofs.ForkedReadings
import PromptScript.Proofs.Unstopped

/-! # Nodes of texts that fork

What is read of the nodes in a stretch that two texts have in common is the same in both, but for its places. Whatever goes
on behind the stretch, interpolations, heads and comments end with a mark of their own; texts and the leads of nodes need
the branches to be alike (`Fork.Level`). -/
namespace PromptScript

def Binding.unplaced (b : Binding) : Binding := { b with span := ⟨0, 0⟩ }

namespace Node

mutual

/-- A node without its spans. -/
def unplaced : Node → Node
  | text _ data p => text ⟨0, 0⟩ data p
  | comment _ data p => comment ⟨0, 0⟩ data p
  | config _ data p => config ⟨0, 0⟩ data p
  | interpolation _ e p => interpolation ⟨0, 0⟩ e.unplaced p
  | group _ body p => group ⟨0, 0⟩ (unplacedAll body) p
  | choice _ test body none p => choice ⟨0, 0⟩ test.unplaced (unplacedAll body) none p
  | choice _ test body (some other) p => choice ⟨0, 0⟩ test.unplaced (unplacedAll body) (some (unplacedAll other)) p
  | loop _ items item index body none p =>
    loop ⟨0, 0⟩ items.unplaced item.unplaced (index.map .unplaced) (unplacedAll body) none p
  | loop _ items item index body (some other) p =>
    loop ⟨0, 0⟩ items.unplaced item.unplaced (index.map .unplaced) (unplacedAll body) (some (unplacedAll other)) p
  | element _ tag attributes body p => element ⟨0, 0⟩ tag (attributesUnplaced attributes) (unplacedAll body) p

def unplacedAll : List Node → List Node
  | [] => []
  | n :: r => unplaced n :: unplacedAll r

def attributesUnplaced : List Attribute → List Attribute
  | [] => []
  | .mk _ name .flag :: r => .mk ⟨0, 0⟩ name .flag :: attributesUnplaced r
  | .mk _ name (.nodes parts) :: r => .mk ⟨0, 0⟩ name (.nodes (unplacedAll parts)) :: attributesUnplaced r

end

theorem unplacedAll_append (a b : List Node) : unplacedAll (a ++ b) = unplacedAll a ++ unplacedAll b := by
  induction a with
  | nil => rfl
  | cons n r ih => exact congrArg (n.unplaced :: ·) ih

theorem unplaced_choice (span : Span) (test : Expr) (body : List Node) (otherwise : Option (List Node)) (p : Option Progress) :
    (choice span test body otherwise p).unplaced =
      choice ⟨0, 0⟩ test.unplaced (unplacedAll body) (otherwise.map unplacedAll) p := by
  cases otherwise with
  | none => rw [unplaced, Option.map_none]
  | some other => rw [unplaced, Option.map_some]

theorem unplaced_loop (span : Span) (items : Expr) (item : Binding) (index : Option Binding) (body : List Node)
    (otherwise : Option (List Node)) (p : Option Progress) : (loop span items item index body otherwise p).unplaced =
      loop ⟨0, 0⟩ items.unplaced item.unplaced (index.map .unplaced) (unplacedAll body) (otherwise.map unplacedAll) p := by
  cases otherwise with
  | none => rw [unplaced, Option.map_none]
  | some other => rw [unplaced, Option.map_some]

theorem taggedAll_append (a b : List Node) : taggedAll (a ++ b) = (taggedAll a || taggedAll b) := by
  induction a with
  | nil => rfl
  | cons n r ih => rw [List.cons_append, taggedAll, taggedAll, ih, Bool.or_assoc]

end Node

/-- An attribute without its spans. -/
def Attribute.unplaced : Attribute → Attribute
  | mk _ name .flag => mk ⟨0, 0⟩ name .flag
  | mk _ name (.nodes parts) => mk ⟨0, 0⟩ name (.nodes (Node.unplacedAll parts))

theorem Attribute.name_unplaced : ∀ a : Attribute, a.unplaced.name = a.name
  | mk _ _ .flag | mk _ _ (.nodes _) => rfl

theorem Node.attributesUnplaced_eq_map (attributes : List Attribute) :
    attributesUnplaced attributes = attributes.map .unplaced := by
  induction attributes with
  | nil => rfl
  | cons a r ih => rcases a with ⟨_, _, _ | _⟩ <;> exact congrArg (_ :: ·) ih

namespace Grammar

variable {α β γ δ : Type} {w : Fork} {c c₁ c' d m : Cursor}

/-- Two texts that end where the stretch in common does. -/
def Fork.ends : Fork := ⟨[], [], id⟩

instance : Fork.ends.Closes := ⟨.inl rfl⟩

theorem Fork.at_ends : Fork.ends.At c d ↔ c.rest = d.rest := by
  constructor
  · rintro ⟨text, here, there⟩
    exact here.trans there.symm
  · intro same
    exact ⟨c.rest, (List.append_nil _).symm, same.symm.trans (List.append_nil _).symm⟩

/-! ## Closing marks -/

/-- The fork from some place of the stretch in common on. -/
def Fork.before (w : Fork) (later : List Char) : Fork where
  behind := later ++ w.behind
  behind' := later ++ w.behind'
  ended empty := by
    obtain ⟨rfl, none⟩ := List.append_eq_nil_iff.mp empty
    exact w.ended none

instance {t : List Char} : (w.before ('\x7d' :: t)).Closes := ⟨.inr ⟨_, _, rfl, rfl⟩⟩

/-- From a place on that is still to come. -/
theorem Fork.At.before (at_ : w.At c d) (on : c.Ahead m) {later : List Char} (here : m.rest = later ++ w.behind) :
    (w.before later).At c d := by
  obtain ⟨read, rest, -⟩ := on
  obtain ⟨later', left, there⟩ := at_.onward rest ⟨later, here.symm⟩
  obtain rfl : later' = later := List.append_cancel_right (left.symm.trans here)
  exact ⟨read, by rw [rest, here]; rfl, there⟩

theorem Fork.At.of_before {later : List Char} (at_ : (w.before later).At c d) : w.At c d := by
  obtain ⟨text, left, right⟩ := at_
  exact ⟨text ++ later, left.trans (List.append_assoc ..).symm, right.trans (List.append_assoc ..).symm⟩

/-- Where the stretch goes on to the fork, the other text has its other branch. -/
theorem Fork.At.rest_eq {later : List Char} (at_ : (w.before later).At c d) (here : c.rest = later ++ w.behind) :
    d.rest = later ++ w.behind' := by
  obtain ⟨text, left, there⟩ := at_
  obtain rfl : text = [] := List.append_left_eq_self.mp (left.symm.trans here)
  exact there

theorem expectClose_gives {u : Unit} (h : Gives expectClose c u c') :
    (c.skipWhile isSpace).rest = '\x7d' :: '\x7d' :: c'.rest ∧ (c.skipWhile isSpace).skip 2 = c' := by
  obtain ⟨_, c₁, skips, h⟩ := gives_bind.mp h
  obtain rfl := gives_skipSpaces.mp skips
  obtain ⟨_, c₁, look, h⟩ := gives_bind.mp h
  obtain ⟨rfl, rfl⟩ := gives_rest.mp look
  split at h
  · exact (not_gives_failEnd h).elim
  · next r here =>
    obtain rfl := gives_skip.mp h
    rw [Cursor.rest_skip, here]
    exact ⟨rfl, rfl⟩
  · exact (not_gives_failHere h).elim

theorem gives_expectClose {r : List Char} (here : (c.skipWhile isSpace).rest = '\x7d' :: '\x7d' :: r) :
    Gives expectClose c () ((c.skipWhile isSpace).skip 2) := by
  refine .skipSpaces rfl (.rest ?_)
  rw [here]
  exact gives_skip.mpr rfl

/-- What is before two closing braces is read in the same way whatever is behind them. -/
theorem Parallel.closed {view : α → γ} {later : β → δ} {x y : Reading α} {f g : α → Reading β}
    (first : ∀ (w : Fork) [w.Closes], Parallel w view x y) (rest : ∀ a b, view a = view b → Parallel w later (f a) (g b)) :
    Parallel w later (x >>= fun a => Grammar.expectClose >>= fun _ => f a)
      (y >>= fun b => Grammar.expectClose >>= fun _ => g b) where
  ahead c r c' h := by
    obtain ⟨a, c₁, hx, h⟩ := gives_bind.mp h
    obtain ⟨_, c₂, closes, h⟩ := gives_bind.mp h
    have before := (first (w.before ['\x7d'])).ahead _ _ _ hx
    exact (before.trans (Advances.expectClose _ _ _ closes)).trans ((rest a a rfl).ahead _ _ _ h)
  both c d r c' at_ h within := by
    obtain ⟨a, c₁, hx, h⟩ := gives_bind.mp h
    obtain ⟨_, c₂, closes, h⟩ := gives_bind.mp h
    obtain ⟨braces, rfl⟩ := expectClose_gives closes
    obtain ⟨t, left⟩ := ((rest a a rfl).ahead _ _ _ h).within within
    rw [← left] at braces
    -- Up to the braces, the texts fork at them.
    let v := w.before ('\x7d' :: '\x7d' :: t)
    have here : (c₁.skipWhile isSpace).rest = ('\x7d' :: '\x7d' :: t) ++ w.behind := braces
    have on : c.Ahead (c₁.skipWhile isSpace) := ((first v).ahead _ _ _ hx).trans (c₁.ahead_skipWhile _)
    obtain ⟨b, d₁, hy, same, at₁⟩ := (first v).both c d a c₁ (at_.before on here) hx
      ((c₁.ahead_skipWhile isSpace).within (here ▸ List.suffix_refl _))
    obtain ⟨_, m, skips, -, atm⟩ := (Parallel.blanks (w := v)).both c₁ d₁ () _ at₁ (gives_skipSpaces.mpr rfl)
      (here ▸ List.suffix_refl _)
    obtain rfl := gives_skipSpaces.mp skips
    have there := atm.rest_eq here
    obtain ⟨r', d', hg, outcome⟩ := (rest a b same).both _ ((d₁.skipWhile isSpace).skip 2) r c'
      ⟨t, left.symm, by rw [Cursor.rest_skip, there]; rfl⟩ h within
    exact ⟨r', d', .bind hy (.bind (gives_expectClose there) hg), outcome⟩

/-! ## Leaves and heads -/

/-- Reads an expression behind blanks. -/
def readInner : Reading Expr := do
  skipSpaces
  readExpr

theorem readInterpolation_eq (start : Nat) : readInterpolation start = (do
    let e ← readInner
    expectClose
    return .interpolation ⟨start, ← offset⟩ e none) := (bind_assoc ..).symm

theorem readChoiceHead_eq : readChoiceHead = (do
    let e ← readInner
    expectClose
    return e) := (bind_assoc ..).symm

theorem Parallel.readInner [w.Closes] : Parallel w Expr.unplaced readInner readInner := .skipSpaces .readExpr

theorem Parallel.readInterpolation (start start' : Nat) :
    Parallel w Node.unplaced (readInterpolation start) (readInterpolation start') := by
  rw [readInterpolation_eq, readInterpolation_eq]
  exact .closed (fun _ _ => .readInner) fun e e' same => .offset fun _ _ => .pure (by rw [Node.unplaced, same, Node.unplaced])

theorem Parallel.readChoiceHead : Parallel w Expr.unplaced readChoiceHead readChoiceHead := by
  rw [readChoiceHead_eq]
  exact .closed (fun _ _ => .readInner) fun _ _ same => .pure same

/-- The head of a loop without its spans. -/
def LoopHead.unplaced (head : LoopHead) : LoopHead :=
  ⟨head.item.unplaced, head.index.map .unplaced, head.items.unplaced⟩

/-- Reads what names a second variable in the head of a loop, if there is one. -/
def readIndex : Reading (Option Binding) := do
  if (← current?) = some ',' then
    skip 1
    skipSpaces
    return some (← readBinding)
  else return none

/-- Reads the head of a loop up to its closing braces. -/
def readLoopParts : Reading LoopHead := do
  skipSpaces
  let item ← readBinding
  skipSpaces
  let index ← readIndex
  skipSpaces
  if ← lookingAtWord "in" then
    skip 2
    skipSpaces
    return ⟨item, index, ← readExpr⟩
  else failHere "Expected 'in' in for block"

theorem readLoopHead_eq : readLoopHead = (do
    let head ← readLoopParts
    expectClose
    return head) := by
  unfold readLoopHead readLoopParts readIndex
  simp only [bind_assoc]
  refine congrArg (skipSpaces >>= ·) (funext fun _ => congrArg (readBinding >>= ·) (funext fun item => ?_))
  refine congrArg (skipSpaces >>= ·) (funext fun _ => congrArg (current? >>= ·) (funext fun d => ?_))
  refine congrArg (_ >>= ·) (funext fun index => congrArg (skipSpaces >>= ·) (funext fun _ => ?_))
  refine congrArg (lookingAtWord "in" >>= ·) (funext fun there => ?_)
  split
  · simp only [bind_assoc, pure_bind]
  · rfl

theorem Parallel.lookingAtWord [w.Closes] {later : β → δ} {word : String} (plain : word.toList.all (· != '\x7d') = true)
    {f g : Bool → Reading β} (rest : ∀ there, Parallel w later (f there) (g there)) :
    Parallel w later (lookingAtWord word >>= f) (lookingAtWord word >>= g) where
  ahead c := (rest (startsWithWord word c.rest)).ahead c
  both c d b c' at_ h within := by
    have same : startsWithWord word d.rest = startsWithWord word c.rest := Fork.blind_startsWithWord plain _ _ (.inl at_)
    have both := (rest (startsWithWord word c.rest)).both c d b c' at_ h within
    rw [← same] at both
    exact both

theorem Parallel.readBinding [w.Closes] : Parallel w Binding.unplaced readBinding readBinding := by
  refine .offset fun _ _ => .current? fun found => ?_
  cases found with
  | none => exact .failHere
  | some d =>
    refine .ite (.bind (Parallel.readName (w := w)) fun name name' same => .offset fun _ _ => .pure ?_) .failHere
    obtain rfl := same
    rfl

theorem Parallel.readIndex [w.Closes] : Parallel w (Option.map Binding.unplaced) readIndex readIndex :=
  .current? fun _ => .ite (.skip (.skipSpaces (.bind .readBinding fun _ _ same => .pure (congrArg some same)))) (.pure rfl)

theorem Parallel.readLoopParts [w.Closes] : Parallel w LoopHead.unplaced readLoopParts readLoopParts := by
  refine .skipSpaces (.bind .readBinding fun item item' same => .skipSpaces (.bind .readIndex fun index index' same' => ?_))
  refine .skipSpaces (.lookingAtWord (by decide) fun there => ?_)
  refine .ite (.skip (.skipSpaces (.bind .readExpr fun e e' alike => .pure ?_))) .failHere
  rw [LoopHead.unplaced, same, same', alike, LoopHead.unplaced]

theorem Parallel.readLoopHead : Parallel w LoopHead.unplaced readLoopHead readLoopHead := by
  rw [readLoopHead_eq]
  exact .closed (fun _ _ => .readLoopParts) fun _ _ same => .pure same

/-! ### Comments -/

/-- A lead is not looked for behind as many characters as it has. -/
theorem startsWith_far {lead text : List Char} (room : lead.length ≤ text.length) (r r' : List Char) :
    Text.startsWith lead (text ++ r) = Text.startsWith lead (text ++ r') := by
  induction lead generalizing text with
  | nil => rfl
  | cons a lead ih =>
    cases text with
    | nil => cases room
    | cons b text =>
      show (if a = b then _ else none : Option _).isSome = (if a = b then _ else none : Option _).isSome
      split
      · exact ih (Nat.le_of_succ_le_succ room)
      · rfl

theorem before?_far {mark data r : List Char} (h : before? mark (data ++ (mark ++ r)) = some data) (r' : List Char) :
    before? mark (data ++ (mark ++ r')) = some data := by
  induction data with
  | nil =>
    cases mark with
    | nil => cases r' <;> rfl
    | cons a mark =>
      refine if_pos ?_
      show (Text.dropLead? (a :: mark) ((a :: mark) ++ r')).isSome = true
      rw [Text.dropLead?_eq_some.mpr rfl]
      rfl
  | cons a data ih =>
    have room : mark.length ≤ (a :: (data ++ mark)).length := by
      rw [List.length_cons, List.length_append]
      omega
    have same := startsWith_far room r r'
    simp only [List.cons_append, List.append_assoc] at same h ⊢
    rw [before?] at h ⊢
    rw [← same]
    split at h
    · cases h
    · next apart =>
      rw [if_neg apart]
      obtain ⟨data', found, same⟩ := Option.map_eq_some_iff.mp h
      cases same
      rw [ih found]
      rfl

theorem Parallel.readComment (opening closing : List Char) :
    Parallel w Node.unplaced (readComment opening closing) (readComment opening closing) := by
  refine .offset fun start start' => .sourceEnd fun last last' => .skip ⟨fun c n c' h => ?_, fun c d n c' at_ h within => ?_⟩
  · exact (Advances.bind .rest fun text => by
      split
      · exact .failAt _ _
      · exact .bind (.skip _) fun _ => .bind .offset fun _ => .pure _ : Advances _) c n c' h
  · obtain ⟨_, c₁, look, h⟩ := gives_bind.mp h
    obtain ⟨rfl, rfl⟩ := gives_rest.mp look
    split at h
    · exact (not_gives_failAt h).elim
    · next data found =>
      obtain ⟨_, c₁, skips, h⟩ := gives_bind.mp h
      obtain rfl := gives_skip.mp skips
      obtain ⟨_, c₁, look, h⟩ := gives_bind.mp h
      obtain ⟨rfl, rfl⟩ := gives_offset.mp look
      obtain ⟨rfl, rfl⟩ := gives_pure.mp h
      obtain ⟨r, whole⟩ := before?_eq found
      have length : (data ++ closing).length = data.length + closing.length := List.length_append
      have past : (c.skip (data.length + closing.length)).rest = r := by
        rw [Cursor.rest_skip, whole, ← length, List.drop_left]
      rw [past] at within
      obtain ⟨later, left, there⟩ := at_.onward whole within
      have found' : before? closing d.rest = some data := by
        rw [there, List.append_assoc]
        rw [whole, List.append_assoc] at found
        exact before?_far found _
      refine ⟨.comment ⟨start', (d.skip (data.length + closing.length)).offset⟩ (String.ofList data) Option.none,
        d.skip (data.length + closing.length), .rest ?_, rfl, later, past.trans left, ?_⟩
      · rw [found']
        exact .skip (.offset (gives_pure.mpr ⟨rfl, rfl⟩))
      · rw [Cursor.rest_skip, there, ← length, List.drop_left]

/-! ### What opens after two braces -/

/-- Reads what opens after two braces, and how many characters say so. -/
def readOpening : Reading (Opening × Nat) := do
  skip 2
  skipSpaces
  let found := openingAt (← rest)
  skip found.2
  return found

theorem Fork.blind_openingAt [w.Closes] : w.Blind openingAt := by
  intro text text' sees
  unfold openingAt
  have same (word : String) (plain : word.toList.all (· != '\x7d') = true) :
      startsWithWord word text' = startsWithWord word text := Fork.blind_startsWithWord plain _ _ sees
  simp only [same "else" (by decide), same "endif" (by decide), same "endfor" (by decide), same "if" (by decide),
    same "for" (by decide)]

theorem Parallel.readOpening [w.Closes] : Parallel w id readOpening readOpening := by
  refine .skip (.skipSpaces (.rest fun text text' sees => ?_))
  rw [Fork.blind_openingAt _ _ sees]
  exact .skip (.pure rfl)

theorem readOpening_gives {found : Opening × Nat} : Gives readOpening c found c' ↔
    openingAt (afterBraces c).rest = found ∧ (afterBraces c).skip found.2 = c' := by
  constructor
  · intro h
    obtain ⟨_, c₁, skips, h⟩ := gives_bind.mp h
    obtain rfl := gives_skip.mp skips
    obtain ⟨_, c₁, skips, h⟩ := gives_bind.mp h
    obtain rfl := gives_skipSpaces.mp skips
    obtain ⟨_, c₁, look, h⟩ := gives_bind.mp h
    obtain ⟨rfl, rfl⟩ := gives_rest.mp look
    obtain ⟨_, c₁, skips, h⟩ := gives_bind.mp h
    obtain rfl := gives_skip.mp skips
    obtain ⟨rfl, rfl⟩ := gives_pure.mp h
    exact ⟨rfl, rfl⟩
  · rintro ⟨rfl, rfl⟩
    exact .skip (.skipSpaces rfl (.rest (.skip (gives_pure.mpr ⟨rfl, rfl⟩))))

/-- There is a closing brace ahead, and something is left behind it. -/
def Brace (behind : List Char) (c : Cursor) : Prop := ∃ m r, c.Ahead m ∧ m.rest = '\x7d' :: r ∧ behind <:+ r

/-- Before a closing brace the same opens on both branches. -/
theorem opening_beside {found : Opening} {length : Nat} (at_ : w.At c d) (opens : openingAt (afterBraces c).rest = (found, length))
    (brace : Brace w.behind ((afterBraces c).skip length)) :
    openingAt (afterBraces d).rest = (found, length) ∧ w.At ((afterBraces c).skip length) ((afterBraces d).skip length) := by
  obtain ⟨m, r, on, here, t, left⟩ := brace
  let v := w.before ('\x7d' :: t)
  have there : m.rest = ('\x7d' :: t) ++ w.behind := by rw [here, ← left]; rfl
  have at' : v.At c d := at_.before ((ahead_afterBraces c length).trans on) there
  obtain ⟨found', d', reads, same, at''⟩ := (Parallel.readOpening (w := v)).both c d (found, length) _ at'
    (readOpening_gives.mpr ⟨opens, rfl⟩) (on.within (there ▸ List.suffix_refl _))
  obtain rfl := same
  obtain ⟨opens', rfl⟩ := readOpening_gives.mp reads
  exact ⟨opens', at''.of_before⟩

theorem Brace.of_expectClose {u : Unit} {behind : List Char} (h : Gives expectClose c u c') (within : behind <:+ c'.rest) :
    Brace behind c := by
  obtain ⟨braces, -⟩ := expectClose_gives h
  exact ⟨_, _, c.ahead_skipWhile isSpace, braces, within.trans (List.suffix_cons ..)⟩

theorem Brace.before {behind : List Char} (h : Brace behind c') (on : c.Ahead c') : Brace behind c := by
  obtain ⟨m, r, on', here, left⟩ := h
  exact ⟨m, r, on.trans on', here, left⟩

/-- A reading that ends with two closing braces. -/
theorem Brace.of_closed {x : Reading α} {f : α → Reading β} (hx : ∀ c a c', Gives x c a c' → c.Ahead c')
    (hf : ∀ a, Advances (f a)) {b : β} {behind : List Char}
    (h : Gives (x >>= fun a => expectClose >>= fun _ => f a) c b c') (within : behind <:+ c'.rest) : Brace behind c := by
  obtain ⟨a, c₁, first, h⟩ := gives_bind.mp h
  obtain ⟨_, c₂, closes, h⟩ := gives_bind.mp h
  exact (of_expectClose closes (((hf a) _ _ _ h).within within)).before (hx _ _ _ first)

theorem Brace.of_interpolation {start : Nat} {n : Node} {behind : List Char} (h : Gives (readInterpolation start) c n c')
    (within : behind <:+ c'.rest) : Brace behind c := by
  rw [readInterpolation_eq] at h
  exact of_closed (Parallel.readInner (w := Fork.ends)).ahead (fun _ => .bind .offset fun _ => .pure _) h within

theorem Brace.of_choiceHead {e : Expr} {behind : List Char} (h : Gives readChoiceHead c e c')
    (within : behind <:+ c'.rest) : Brace behind c := by
  rw [readChoiceHead_eq] at h
  exact of_closed (Parallel.readInner (w := Fork.ends)).ahead (fun _ => .pure _) h within

theorem Brace.of_loopHead {head : LoopHead} {behind : List Char} (h : Gives readLoopHead c head c')
    (within : behind <:+ c'.rest) : Brace behind c := by
  rw [readLoopHead_eq] at h
  exact of_closed (Parallel.readLoopParts (w := Fork.ends)).ahead (fun _ => .pure _) h within

/-! ### Tags -/

/-- Blanks before a character that is none are passed over on both branches. -/
theorem skipWhile_beside {x : Char} {r : List Char} (at_ : w.At c d) (solid : isSpace x = false)
    (here : (c.skipWhile isSpace).rest = x :: r) (within : w.behind <:+ r) :
    (d.skipWhile isSpace).rest.head? = some x ∧ w.At ((c.skipWhile isSpace).skip 1) ((d.skipWhile isSpace).skip 1) := by
  obtain ⟨t, left⟩ := within
  have blanks : c.rest = c.rest.takeWhile isSpace ++ (x :: r) := by
    rw [← here, Cursor.skipWhile_eq]
    exact (List.takeWhile_append_dropWhile ..).symm
  obtain ⟨later, split, there⟩ := at_.onward blanks ⟨x :: t, congrArg (x :: ·) left⟩
  obtain rfl : later = x :: t := List.append_cancel_right (split.symm.trans (congrArg (x :: ·) left.symm))
  have past : (d.skipWhile isSpace).rest = x :: (t ++ w.behind') := by
    rw [Cursor.skipWhile_eq, there, List.dropWhile_append_of_pos (List.all_eq_true.mp List.all_takeWhile)]
    exact List.dropWhile_cons_of_neg (by rw [solid]; exact Bool.false_ne_true)
  refine ⟨by rw [past]; rfl, t, ?_, ?_⟩
  · rw [Cursor.rest_skip, here, ← left]
    rfl
  · rw [Cursor.rest_skip, past]
    rfl

theorem Parallel.readClosing (tag : Tag) : Parallel w (fun _ => ()) (readClosing tag) (readClosing tag) := by
  refine .offset fun start start' => .skip ⟨fun c span c' h => ?_, fun c d span c' at_ h within => ?_⟩
  · exact (Advances.bind .skipSpaces fun _ => .bind .current? fun d => by
      split
      · exact .bind .offset fun _ => .failAt _ _
      · exact .bind (.skip 1) fun _ => .bind .offset fun _ => .pure _
      · exact .failHere _ : Advances _) c span c' h
  · obtain ⟨_, c₁, skips, h⟩ := gives_bind.mp h
    obtain rfl := gives_skipSpaces.mp skips
    obtain ⟨_, c₁, look, h⟩ := gives_bind.mp h
    obtain ⟨rfl, rfl⟩ := gives_current?.mp look
    split at h
    · obtain ⟨_, _, _, h⟩ := gives_bind.mp h
      exact (not_gives_failAt h).elim
    · next here =>
      obtain ⟨_, c₁, skips, h⟩ := gives_bind.mp h
      obtain rfl := gives_skip.mp skips
      obtain ⟨_, c₁, look, h⟩ := gives_bind.mp h
      obtain ⟨rfl, rfl⟩ := gives_offset.mp look
      obtain ⟨rfl, rfl⟩ := gives_pure.mp h
      obtain ⟨r, here⟩ : ∃ r, (c.skipWhile isSpace).rest = '>' :: r := by
        cases rest : (c.skipWhile isSpace).rest <;> rw [rest] at here <;> cases here
        exact ⟨_, rfl⟩
      rw [Cursor.rest_skip, here] at within
      obtain ⟨there, at'⟩ := skipWhile_beside at_ rfl here within
      refine ⟨⟨start', ((d.skipWhile isSpace).skip 1).offset⟩, _, .skipSpaces rfl (.current? ?_), rfl, at'⟩
      rw [there]
      exact .skip (.offset (gives_pure.mpr ⟨rfl, rfl⟩))
    · exact (not_gives_failHere h).elim

/-! ### Attributes -/

theorem Fork.Sees.ends {text text' : List Char} (sees : Fork.ends.Sees text text') : text' = text := by
  rcases sees with ⟨t, rfl, rfl⟩ | rfl <;> rfl

theorem Parallel.glimpse {later : β → δ} {f g : List Char → Reading β}
    (rest : ∀ text, Parallel Fork.ends later (f text) (g text)) :
    Parallel Fork.ends later (Grammar.rest >>= f) (Grammar.rest >>= g) := by
  refine .rest fun text text' sees => ?_
  obtain rfl := sees.ends
  exact rest _

theorem unplacedAll_attributeText (start start' stop stop' : Nat) (data : List Char) :
    Node.unplacedAll (attributeText start stop data) = Node.unplacedAll (attributeText start' stop' data) := by
  unfold attributeText
  split <;> rfl

theorem Parallel.readQuoted (opening opening' : Nat) (quote : Char) (fuel start start' : Nat) (data : List Char) :
    Parallel Fork.ends Node.unplacedAll (readQuoted opening quote fuel start data)
      (readQuoted opening' quote fuel start' data) := by
  induction fuel generalizing start start' data with
  | zero => exact .failEnd
  | succ fuel ih =>
    refine .glimpse fun text => ?_
    split
    · exact .fails fun _ _ _ _ => not_gives_failAt
    · refine .ite (.offset fun _ _ => .pure (unplacedAll_attributeText ..)) (.ite ?_ (.ite ?_ (.skip (ih ..))))
      · split
        · exact .skip (ih ..)
        · exact .skip (ih ..)
      · refine .offset fun _ _ => .skip (.bind (.readInterpolation ..) fun value value' same => .offset fun _ _ => ?_)
        refine .bind (ih ..) fun more more' later => .pure ?_
        rw [Node.unplacedAll_append, Node.unplacedAll_append, Node.unplacedAll, same, later, Node.unplacedAll,
          unplacedAll_attributeText]

theorem Parallel.readQuotedValue (quote : Char) :
    Parallel Fork.ends Node.unplacedAll (readQuotedValue quote) (readQuotedValue quote) := by
  refine .offset fun _ _ => .skip (.offset fun _ _ => .glimpse fun text => .bind (.readQuoted ..) fun parts parts' same => ?_)
  refine .offset fun _ _ => .skip (.pure ?_)
  match parts, parts', same with
  | [], [], _ => rfl
  | _ :: _, _ :: _, same => exact same

/-- Reads what follows the equals sign of an attribute that starts at an offset. -/
def readAttributeValue (start : Nat) : Reading (List Node) := do
  match ← rest with
  | [] => failAt .unexpectedEnd ⟨start, ← offset⟩
  | '"' :: _ => readQuotedValue '"'
  | '\'' :: _ => readQuotedValue '\''
  | '\x7b' :: '\x7b' :: _ =>
    let here ← offset
    skip 2
    return [← readInterpolation here]
  | _ => failHere "Expected attribute value"

theorem readAttribute_eq : readAttribute = (do
    let start ← offset
    let name ← takeWhile isAttributeChar
    if name = [] then
      failHere ("Unexpected character '" ++ String.ofList [((← current?).getD ' ')] ++ "' in tag")
    else
      if ((← rest).dropWhile isSpace).head? ≠ some '=' then
        return .mk ⟨start, ← offset⟩ (String.ofList name) .flag
      else
        skipSpaces
        skip 1
        skipSpaces
        let parts ← readAttributeValue start
        return .mk ⟨start, ← offset⟩ (String.ofList name) (.nodes parts)) := by
  unfold readAttribute
  refine congrArg (offset >>= ·) (funext fun start => congrArg (takeWhile isAttributeChar >>= ·) (funext fun name => ?_))
  split
  · rfl
  · funext c
    have blanks : (c.skipWhile isSpace).rest = c.rest.dropWhile isSpace := by rw [Cursor.skipWhile_eq]
    show (if (c.skipWhile isSpace).rest.head? ≠ some '=' then _ else _ : Reading _) (c.skipWhile isSpace) =
      (if (c.rest.dropWhile isSpace).head? ≠ some '=' then _ else _ : Reading _) c
    rw [blanks]
    split
    · rfl
    · rfl

theorem Parallel.readAttributeValue (start start' : Nat) :
    Parallel Fork.ends Node.unplacedAll (readAttributeValue start) (readAttributeValue start') := by
  refine .glimpse fun text => ?_
  split
  · exact .fails fun _ _ _ _ => not_gives_failAt
  · exact .readQuotedValue _
  · exact .readQuotedValue _
  · exact .offset fun _ _ => .skip (.bind (.readInterpolation ..) fun n n' same => .pure (by
      rw [Node.unplacedAll, same]
      rfl))
  · exact .failHere

theorem Parallel.readAttribute : Parallel Fork.ends Attribute.unplaced readAttribute readAttribute := by
  rw [readAttribute_eq]
  refine .offset fun _ _ => .takeWhile (by decide) fun name => .ite (.fails fun _ _ _ _ => not_gives_failHere) ?_
  refine .glimpse fun text => .ite (.offset fun _ _ => .pure rfl) (.skipSpaces (.skip (.skipSpaces ?_)))
  refine .bind (.readAttributeValue ..) fun parts parts' same => .offset fun _ _ => .pure ?_
  rw [Attribute.unplaced, same, Attribute.unplaced]

theorem Parallel.readAttributes (start start' fuel : Nat) {found found' : List Attribute}
    (same : Node.attributesUnplaced found = Node.attributesUnplaced found') :
    Parallel Fork.ends (fun a => (Node.attributesUnplaced a.1, a.2)) (readAttributes start fuel found)
      (readAttributes start' fuel found') := by
  induction fuel generalizing found found' with
  | zero => exact .failEnd
  | succ fuel ih =>
    refine .skipSpaces (.glimpse fun text => ?_)
    split
    · exact .fails fun _ _ _ _ => not_gives_failAt
    · exact .skip (.pure (by rw [same]))
    · exact .skip (.pure (by rw [same]))
    · refine .bind .readAttribute fun next next' alike => ?_
      have names (a : List Attribute) (name : String) :
          a.any (·.name == name) = (Node.attributesUnplaced a).any (·.name == name) := by
        rw [Node.attributesUnplaced_eq_map, List.any_map]
        exact congrArg a.any (funext fun x => congrArg (· == name) x.name_unplaced.symm)
      have name : next.name = next'.name := by rw [← next.name_unplaced, alike, next'.name_unplaced]
      rw [names found, names found', same, name]
      refine .ite .failAt (ih ?_)
      rw [Node.attributesUnplaced_eq_map, Node.attributesUnplaced_eq_map] at same ⊢
      rw [List.map_append, List.map_append, same, List.map_singleton, List.map_singleton, alike]

theorem HasAttributes.beside {tag : Tag} {attributes : List Attribute} {alone : Bool} (h : HasAttributes tag c attributes alone c')
    (at_ : Fork.ends.At c d) : ∃ attributes' d', HasAttributes tag d attributes' alone d' ∧
      Node.attributesUnplaced attributes' = Node.attributesUnplaced attributes ∧ Fork.ends.At c' d' := by
  have same : (afterName tag d).rest = (afterName tag c).rest := by
    rw [afterName, afterName, Cursor.rest_skip, Cursor.rest_skip, Fork.at_ends.mp at_]
  obtain ⟨⟨attributes', alone'⟩, d', reads, alike, at'⟩ :=
    (@Parallel.readAttributes c.offset d.offset ((afterName tag c).rest.length + 1) [] [] rfl).both
      (afterName tag c) (afterName tag d) _ c' (Fork.at_ends.mpr same.symm) h (List.nil_suffix)
  obtain ⟨alike, rfl⟩ := Prod.mk.inj alike
  rw [← same] at reads
  exact ⟨attributes', d', reads, alike.symm, at'⟩

end Grammar
end PromptScript
