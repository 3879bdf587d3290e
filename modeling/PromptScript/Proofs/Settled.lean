import PromptScript.Proofs.Lossless

/-! # Readings that end by themselves

The readings of nested parts and the loops take a bound, and end with a fault when it is used up. None of them ever
does: each turn of a loop moves the cursor on, and a part in another starts behind it or is of a lower rank. So a
reading with a bound that fits the text ahead does what every reading with a greater bound does, whether it succeeds
or fails. -/
namespace PromptScript
namespace Grammar

variable {α β : Type} {source : List Char}

/-- Two readings do the same at a cursor. -/
def Same (x y : Reading α) (c : Cursor) : Prop := y.run c = x.run c

namespace Same

variable {x y : Reading α} {k l : α → Reading β} {c : Cursor}

theorem refl : Same x x c := rfl

theorem bind (first : Same x y c) (later : ∀ a c', Gives x c a c' → Same (k a) (l a) c') :
    Same (x >>= k) (y >>= l) c := by
  show (y.run c >>= fun p => (l p.1).run p.2) = (x.run c >>= fun p => (k p.1).run p.2)
  rw [first]
  cases here : x.run c with
  | error fault => rfl
  | ok p => exact later p.1 p.2 here

theorem offset {k l : Nat → Reading β} (later : Same (k c.offset) (l c.offset) c) :
    Same (Grammar.offset >>= k) (Grammar.offset >>= l) c := later

theorem rest {k l : List Char → Reading β} (later : Same (k c.rest) (l c.rest) c) :
    Same (Grammar.rest >>= k) (Grammar.rest >>= l) c := later

theorem current? {k l : Option Char → Reading β} (later : Same (k c.rest.head?) (l c.rest.head?) c) :
    Same (Grammar.current? >>= k) (Grammar.current? >>= l) c := later

theorem skip {k l : Unit → Reading β} {n : Nat} (later : Same (k ()) (l ()) (c.skip n)) :
    Same (Grammar.skip n >>= k) (Grammar.skip n >>= l) c := later

theorem skipSpaces {k l : Unit → Reading β} (later : Same (k ()) (l ()) (c.skipWhile isSpace)) :
    Same (Grammar.skipSpaces >>= k) (Grammar.skipSpaces >>= l) c := later

end Same

/-- A bound suffices for the text ahead of a cursor of the source, for a part of some rank: a unit for each character,
and the rank. -/
structure Room (source : List Char) (unit : Nat) (c : Cursor) (rank bound : Nat) : Prop where
  on : (Cursor.start source).Ahead c
  fits : unit * c.rest.length + rank ≤ bound

namespace Room

variable {c c' : Cursor} {unit rank lower n : Nat}

/-- What is read within a part is of a lower rank. -/
theorem within (room : Room source unit c rank (n + 1)) (ahead : c.Ahead c') (less : lower < rank) :
    Room source unit c' lower n := by
  have short := Nat.mul_le_mul_left unit ahead.length_le
  have fits := room.fits
  exact ⟨room.on.trans ahead, by omega⟩

/-- What is read further on may be of a higher rank: a character makes room for a unit. -/
theorem further (room : Room source unit c rank (n + 1)) (ahead : c.Ahead c') (moves : c.offset < c'.offset)
    (low : lower < unit + rank) : Room source unit c' lower n := by
  have short := Nat.mul_le_mul_left unit (ahead.length_lt moves)
  have fits := room.fits
  rw [Nat.mul_succ] at short
  exact ⟨room.on.trans ahead, by omega⟩

/-- So may what is read after characters that have been skipped. -/
theorem past {d : Cursor} {k : Nat} (room : Room source unit c rank (n + 1)) (ahead : c.Ahead d) (here : d.rest ≠ [])
    (skips : 0 < k) (later : (d.skip k).Ahead c') (low : lower < unit + rank) : Room source unit c' lower n :=
  room.further (ahead.trans ((d.ahead_skip k).trans later))
    (Nat.lt_of_le_of_lt ahead.offset_le (Nat.lt_of_lt_of_le (Cursor.offset_lt_skip here skips) later.offset_le)) low

end Room

/-! ## Expressions -/

theorem symbolAt?_length {table : List (String × α)} (named : ∀ entry ∈ table, 0 < entry.1.length)
    {text : List Char} {found : String × α} (h : symbolAt? table text = some found) : 0 < found.1.length ∧ text ≠ [] := by
  have some := named _ (List.mem_of_find?_eq_some h)
  refine ⟨some, ?_⟩
  rintro rfl
  have starts := List.find?_some h
  rw [← String.length_toList] at some
  cases symbol : found.1.toList with
  | nil => rw [symbol] at some; cases some
  | cons => rw [symbol] at starts; cases starts

theorem assignAt?_length {text : List Char} {symbol : String} {op : AssignOp} (h : assignAt? text = some (symbol, op)) :
    0 < symbol.length ∧ text ≠ [] := by
  have lengths : ∀ entry ∈ assignSymbols, 0 < entry.1.length := by decide
  unfold assignAt? at h
  split at h
  · next found => cases h; exact symbolAt?_length lengths found
  · split at h <;> cases h
    exact ⟨by decide, List.cons_ne_nil _ _⟩

theorem unaryAt?_length {text : List Char} {symbol : String} {op : UnaryOp} (h : unaryAt? text = some (symbol, op)) :
    0 < symbol.length ∧ text ≠ [] := by
  have apart : unaryAt? [] = none := by decide
  refine ⟨?_, ?_⟩
  · unfold unaryAt? at h
    repeat' split at h
    all_goals cases h
    all_goals decide
  · rintro rfl
    rw [apart] at h
    cases h

theorem updateAt?_length {text : List Char} {op : UpdateOp} (h : updateAt? text = some op) : text ≠ [] := by
  rintro rfl
  cases h

theorem expect_lt {d : Char} {c c' : Cursor} {u : Unit} (h : Gives (expect d) c u c') : c.offset < c'.offset := by
  obtain ⟨here, rfl⟩ := expect_gives h
  exact Cursor.offset_lt_skip (rest_ne_nil_of_head here) (by decide)

theorem readComputed_lt {n : Nat} {c c' : Cursor} {e : Expr} (h : Gives (readComputed n) c e c') :
    c.offset < c'.offset := by
  cases n with
  | zero => exact (not_gives_failEnd h).elim
  | succ n =>
    obtain ⟨_, c₁, opens, h⟩ := gives_bind.mp h
    have later := Advances.bind (Advances.expressions n).sequence
      (fun key => .bind .skipSpaces fun _ => .bind (.expect ']') fun _ => .pure key) _ _ _ h
    exact Nat.lt_of_lt_of_le (expect_lt opens) later.offset_le

theorem readArguments_lt {n : Nat} {c c' : Cursor} {es : List Expr} (h : Gives (readArguments n) c es c') :
    c.offset < c'.offset := by
  cases n with
  | zero => exact (not_gives_failEnd h).elim
  | succ n =>
    obtain ⟨_, c₁, opens, h⟩ := gives_bind.mp h
    exact Nat.lt_of_lt_of_le (expect_lt opens) ((Advances.expressions n).items _ _ _ _ _ h).offset_le

/-- With a bound that suffices, one more makes no difference to the readings of expressions. -/
structure Settles (source : List Char) (n : Nat) : Prop where
  sequence {c} (room : Room source 16 c 8 n) : Same (readSequence n) (readSequence (n + 1)) c
  more {c} (room : Room source 16 c 1 n) : Same (readMore n) (readMore (n + 1)) c
  assignment {c} (room : Room source 16 c 7 n) : Same (readAssignment n) (readAssignment (n + 1)) c
  conditional {c} (room : Room source 16 c 6 n) : Same (readConditional n) (readConditional (n + 1)) c
  operation {c least} (room : Room source 16 c 5 n) : Same (readOperation n least) (readOperation (n + 1) least) c
  operators {c least left} (room : Room source 16 c 1 n) :
    Same (readOperators n least left) (readOperators (n + 1) least left) c
  unary {c} (room : Room source 16 c 4 n) : Same (readUnary n) (readUnary (n + 1)) c
  postfixed {c} (room : Room source 16 c 3 n) : Same (readPostfix n) (readPostfix (n + 1)) c
  links {c start optional e} (room : Room source 16 c 2 n) :
    Same (readLinks n start optional e) (readLinks (n + 1) start optional e) c
  computed {c} (room : Room source 16 c 1 n) : Same (readComputed n) (readComputed (n + 1)) c
  arguments {c} (room : Room source 16 c 1 n) : Same (readArguments n) (readArguments (n + 1)) c
  items {c close message} (room : Room source 16 c 8 n) :
    Same (readItems n close message) (readItems (n + 1) close message) c
  primary {c} (room : Room source 16 c 1 n) : Same (readPrimary n) (readPrimary (n + 1)) c
  fields {c} (room : Room source 16 c 2 n) : Same (readFields n) (readFields (n + 1)) c
  key {c} (room : Room source 16 c 1 n) : Same (readKey n) (readKey (n + 1)) c

namespace Settles

variable {n : Nat} (ih : Settles source n) {c : Cursor}

include ih

theorem readSequence (room : Room source 16 c 8 (n + 1)) :
    Same (Grammar.readSequence (n + 1)) (Grammar.readSequence (n + 2)) c := by
  refine .bind (ih.assignment (room.within (.refl c) (by decide))) fun first c₁ reads => .skipSpaces (.current? ?_)
  have on := ((Advances.expressions n).assignment _ _ _ reads).trans (c₁.ahead_skipWhile isSpace)
  split
  · exact .bind (ih.more (room.within on (by decide))) fun _ _ _ => .refl
  · exact .refl

theorem readMore (room : Room source 16 c 1 (n + 1)) :
    Same (Grammar.readMore (n + 1)) (Grammar.readMore (n + 2)) c := by
  refine .current? ?_
  split
  · next comma =>
    have here := rest_ne_nil_of_head comma
    have next (c') (on : (c.skip 1).Ahead c') (lower : Nat) (low : lower < 17) : Room source 16 c' lower n :=
      room.past (.refl c) here (by decide) on low
    refine .skip (.bind (ih.assignment (next _ (.refl _) _ (by decide))) fun e c₁ reads => .skipSpaces ?_)
    have on := ((Advances.expressions n).assignment _ _ _ reads).trans (c₁.ahead_skipWhile isSpace)
    exact .bind (ih.more (next _ on _ (by decide))) fun _ _ _ => .refl
  · exact .refl

theorem readAssignment (room : Room source 16 c 7 (n + 1)) :
    Same (Grammar.readAssignment (n + 1)) (Grammar.readAssignment (n + 2)) c := by
  refine .bind (ih.conditional (room.within (.refl c) (by decide))) fun target c₁ reads => .skipSpaces (.rest ?_)
  have on := ((Advances.expressions n).conditional _ _ _ reads).trans (c₁.ahead_skipWhile isSpace)
  split
  · exact .refl
  · next symbol op found =>
    obtain ⟨some, here⟩ := assignAt?_length found
    refine .skip (.bind .refl fun _ c₂ checks => .bind (ih.assignment ?_) fun _ _ _ => .refl)
    exact room.past on here some (Advances.checkAssignTarget _ _ _ _ checks) (by decide)

theorem readConditional (room : Room source 16 c 6 (n + 1)) :
    Same (Grammar.readConditional (n + 1)) (Grammar.readConditional (n + 2)) c := by
  refine .bind (ih.operation (room.within (.refl c) (by decide))) fun test c₁ reads => .skipSpaces (.rest ?_)
  have on := ((Advances.expressions n).operation _ _ _ _ reads).trans (c₁.ahead_skipWhile isSpace)
  generalize c₁.skipWhile isSpace = c₁ at on ⊢
  split
  · exact .refl
  · exact .refl
  · next mark =>
    have here : c₁.rest ≠ [] := by rw [mark]; exact List.cons_ne_nil _ _
    have next (c') (on' : (c₁.skip 1).Ahead c') : Room source 16 c' 7 n :=
      room.past on here (by decide) on' (by decide)
    refine .skip (.bind (ih.assignment (next _ (.refl _))) fun _ c₂ reads => .skipSpaces ?_)
    have on₂ := ((Advances.expressions n).assignment _ _ _ reads).trans (c₂.ahead_skipWhile isSpace)
    refine .bind .refl fun _ c₃ colon => .bind (ih.assignment ?_) fun _ _ _ => .refl
    exact next _ (on₂.trans (Advances.expect _ _ _ _ colon))
  · exact .refl

theorem readOperation {least : Nat} (room : Room source 16 c 5 (n + 1)) :
    Same (Grammar.readOperation (n + 1) least) (Grammar.readOperation (n + 2) least) c :=
  .bind (ih.unary (room.within (.refl c) (by decide))) fun _ _ reads =>
    ih.operators (room.within ((Advances.expressions n).unary _ _ _ reads) (by decide))

theorem readOperators {least : Nat} {left : Expr} (room : Room source 16 c 1 (n + 1)) :
    Same (Grammar.readOperators (n + 1) least left) (Grammar.readOperators (n + 2) least left) c := by
  refine .skipSpaces (.rest ?_)
  have on := c.ahead_skipWhile isSpace
  split
  · exact .refl
  · next symbol op found =>
    obtain ⟨some, here⟩ := infixAt?_length found
    split
    · exact .refl
    · have next (c') (on' : ((c.skipWhile isSpace).skip symbol.length).Ahead c') (lower : Nat) (low : lower < 17) :
          Room source 16 c' lower n := room.past on here some on' low
      exact .skip (.bind (ih.operation (next _ (.refl _) _ (by decide))) fun _ _ reads =>
        ih.operators (next _ ((Advances.expressions n).operation _ _ _ _ reads) _ (by decide)))

theorem readUnary (room : Room source 16 c 4 (n + 1)) :
    Same (Grammar.readUnary (n + 1)) (Grammar.readUnary (n + 2)) c := by
  refine .skipSpaces (.offset (.rest ?_))
  have on := c.ahead_skipWhile isSpace
  have next (k : Nat) (some : 0 < k) (here : (c.skipWhile isSpace).rest ≠ []) :
      Room source 16 ((c.skipWhile isSpace).skip k) 4 n :=
    room.past on here some (.refl _) (by decide)
  split
  · next op found =>
    exact .skip (.bind (ih.unary (next 2 (by decide) (updateAt?_length found))) fun _ _ _ => .refl)
  · split
    · next symbol op found =>
      obtain ⟨some, here⟩ := unaryAt?_length found
      exact .skip (.bind (ih.unary (next _ some here)) fun _ _ _ => .refl)
    · exact ih.postfixed (room.within on (by decide))

theorem readPostfix (room : Room source 16 c 3 (n + 1)) :
    Same (Grammar.readPostfix (n + 1)) (Grammar.readPostfix (n + 2)) c := by
  refine .bind (ih.primary (room.within (.refl c) (by decide))) fun first c₁ reads => ?_
  have on := (Advances.expressions n).primary _ _ _ reads
  refine .bind (ih.links (room.within on (by decide))) fun _ _ _ => .refl

theorem readLinks {start : Nat} {optional : Bool} {e : Expr} (room : Room source 16 c 2 (n + 1)) :
    Same (Grammar.readLinks (n + 1) start optional e) (Grammar.readLinks (n + 2) start optional e) c := by
  have further {c₁ c₂ : Cursor} (on : c.Ahead c₁) (ahead : c₁.Ahead c₂) (moves : c₁.offset < c₂.offset) :
      Room source 16 c₂ 2 n :=
    room.further (on.trans ahead) (Nat.lt_of_le_of_lt on.offset_le moves) (by decide)
  have call {c₁ : Cursor} (on : c.Ahead c₁) (optional mark : Bool) : Same (do
      let arguments ← Grammar.readArguments n
      Grammar.readLinks n start optional (.call ⟨start, ← offset⟩ e arguments mark)) (do
      let arguments ← Grammar.readArguments (n + 1)
      Grammar.readLinks (n + 1) start optional (.call ⟨start, ← offset⟩ e arguments mark)) c₁ :=
    .bind (ih.arguments (room.within on (by decide))) fun _ _ reads =>
      .offset (ih.links (further on ((Advances.expressions n).arguments _ _ _ reads) (readArguments_lt reads)))
  have index {c₁ : Cursor} (on : c.Ahead c₁) (optional mark : Bool) : Same (do
      let key ← Grammar.readComputed n
      Grammar.readLinks n start optional (.member ⟨start, ← offset⟩ e (.computed key) mark)) (do
      let key ← Grammar.readComputed (n + 1)
      Grammar.readLinks (n + 1) start optional (.member ⟨start, ← offset⟩ e (.computed key) mark)) c₁ :=
    .bind (ih.computed (room.within on (by decide))) fun _ _ reads =>
      .offset (ih.links (further on ((Advances.expressions n).computed _ _ _ reads) (readComputed_lt reads)))
  have name {c₁ : Cursor} (on : c.Ahead c₁) (optional mark : Bool) : Same (do
      let name ← readName
      Grammar.readLinks n start optional (.member ⟨start, ← offset⟩ e (.named name) mark)) (do
      let name ← readName
      Grammar.readLinks (n + 1) start optional (.member ⟨start, ← offset⟩ e (.named name) mark)) c₁ :=
    .bind .refl fun _ _ reads => .offset (ih.links (further on (Advances.readName _ _ _ reads) (readName_lt reads)))
  refine .skipSpaces (.rest ?_)
  have on := c.ahead_skipWhile isSpace
  generalize c.skipWhile isSpace = c₁ at on ⊢
  have behind (k : Nat) : c.Ahead ((c₁.skip k).skipWhile isSpace) :=
    on.trans ((c₁.ahead_skip k).trans (Cursor.ahead_skipWhile ..))
  split
  · refine .skip (.skipSpaces (.current? ?_))
    split
    · exact call (behind 2) true true
    · exact index (behind 2) true true
    · exact name (behind 2) true true
  · split
    · exact .refl
    · exact .skip (.skipSpaces (name (behind 1) optional false))
    · exact index on optional false
    · exact call on optional false
    · exact .refl

theorem readComputed (room : Room source 16 c 1 (n + 1)) :
    Same (Grammar.readComputed (n + 1)) (Grammar.readComputed (n + 2)) c :=
  .bind .refl fun _ _ opens => .bind (ih.sequence (room.further (Advances.expect _ _ _ _ opens) (expect_lt opens)
    (by decide))) fun _ _ _ => .refl

theorem readArguments (room : Room source 16 c 1 (n + 1)) :
    Same (Grammar.readArguments (n + 1)) (Grammar.readArguments (n + 2)) c :=
  .bind .refl fun _ _ opens =>
    ih.items (room.further (Advances.expect _ _ _ _ opens) (expect_lt opens) (by decide))

theorem readItems {close : Char} {message : String} (room : Room source 16 c 8 (n + 1)) :
    Same (Grammar.readItems (n + 1) close message) (Grammar.readItems (n + 2) close message) c := by
  refine .skipSpaces (.current? ?_)
  have on := c.ahead_skipWhile isSpace
  generalize c.skipWhile isSpace = c₁ at on ⊢
  split
  · exact .refl
  · refine .bind (ih.assignment (room.within on (by decide))) fun e c₂ reads => .skipSpaces (.current? ?_)
    have on₂ := (Advances.expressions n).assignment _ _ _ reads
    have moves := ((places source n).assignment (room.on.trans on) reads).within
    have rest (c₃) (ahead : c₂.Ahead c₃) : Same (do return e :: (← Grammar.readItems n close message))
        (do return e :: (← Grammar.readItems (n + 1) close message)) c₃ := by
      refine .bind (ih.items (room.further (on.trans (on₂.trans ahead)) ?_ (by decide))) fun _ _ _ => .refl
      have before := on.offset_le
      have after := ahead.offset_le
      have start := moves.start
      have forward := moves.forward
      have stop := moves.stop
      omega
    have spaces := c₂.ahead_skipWhile isSpace
    split
    · exact .refl
    · split
      · exact .skip (rest _ (spaces.trans (Cursor.ahead_skip ..)))
      · split
        · exact .bind .refl fun _ _ fails => (not_gives_failHere fails).elim
        · exact rest _ spaces

theorem readPrimary (room : Room source 16 c 1 (n + 1)) :
    Same (Grammar.readPrimary (n + 1)) (Grammar.readPrimary (n + 2)) c := by
  refine .skipSpaces (.offset (.rest ?_))
  have on := c.ahead_skipWhile isSpace
  generalize c.skipWhile isSpace = c₁ at on ⊢
  split
  · exact .refl
  · next d r here =>
    have next (lower : Nat) (low : lower < 17) : Room source 16 (c₁.skip 1) lower n :=
      room.past on (by rw [here]; exact List.cons_ne_nil _ _) (by decide) (.refl _) low
    iterate 2 (split; exact .refl)
    split
    · exact .skip (.bind (ih.sequence (next _ (by decide))) fun _ _ _ => .refl)
    · split
      · exact .skip (.bind (ih.items (next _ (by decide))) fun _ _ _ => .refl)
      · split
        · exact .skip (.bind (ih.fields (next _ (by decide))) fun _ _ _ => .refl)
        · exact .refl

theorem readFields (room : Room source 16 c 2 (n + 1)) :
    Same (Grammar.readFields (n + 1)) (Grammar.readFields (n + 2)) c := by
  refine .skipSpaces (.offset (.rest ?_))
  have on := c.ahead_skipWhile isSpace
  generalize c.skipWhile isSpace = c₁ at on ⊢
  split
  · exact .refl
  · refine .bind (ih.key (room.within on (by decide))) fun key c₂ reads => .offset (.skipSpaces ?_)
    have on₂ := (Advances.expressions n).key _ _ _ reads
    have moves := ((places source n).key (room.on.trans on) reads).2
    have spaces := c₂.ahead_skipWhile isSpace
    have further (c₃) (ahead : c₂.Ahead c₃) (lower : Nat) (low : lower < 18) : Room source 16 c₃ lower n := by
      refine room.further (on.trans (on₂.trans ahead)) ?_ low
      have before := on.offset_le
      have after := ahead.offset_le
      omega
    refine .bind (.current? ?_) fun value c₃ reads => .skipSpaces (.current? ?_)
    · split
      · next colon =>
        refine .skip (ih.assignment ?_)
        exact further _ (spaces.trans (Cursor.ahead_skip ..)) _ (by decide)
      · exact .refl
    · have ahead : (c₂.skipWhile isSpace).Ahead c₃ := by
        refine Advances.bind .current? (fun _ => .ite (.bind (.skip 1) fun _ => (Advances.expressions n).assignment) ?_)
          _ _ _ reads
        split
        · exact .ite (.pure _) (.failHere _)
        · exact .failHere _
      have behind := (spaces.trans ahead).trans (c₃.ahead_skipWhile isSpace)
      have rest (c₄) (ahead : c₂.Ahead c₄) : Same (do return (key, value) :: (← Grammar.readFields n))
          (do return (key, value) :: (← Grammar.readFields (n + 1))) c₄ :=
        .bind (ih.fields (further _ ahead _ (by decide))) fun _ _ _ => .refl
      split
      · exact .refl
      · split
        · exact .skip (rest _ (behind.trans (Cursor.ahead_skip ..)))
        · split
          · exact .bind .refl fun _ _ fails => (not_gives_failHere fails).elim
          · exact rest _ behind

theorem readKey (room : Room source 16 c 1 (n + 1)) :
    Same (Grammar.readKey (n + 1)) (Grammar.readKey (n + 2)) c := by
  refine .current? ?_
  split
  · exact .refl
  · next d here =>
    split
    · refine .skip (.bind (ih.assignment ?_) fun _ _ _ => .refl)
      exact room.past (.refl c) (rest_ne_nil_of_head here) (by decide) (.refl _) (by decide)
    · exact .refl

theorem succ : Settles source (n + 1) where
  sequence := ih.readSequence
  more := ih.readMore
  assignment := ih.readAssignment
  conditional := ih.readConditional
  operation := ih.readOperation
  operators := ih.readOperators
  unary := ih.readUnary
  postfixed := ih.readPostfix
  links := ih.readLinks
  computed := ih.readComputed
  arguments := ih.readArguments
  items := ih.readItems
  primary := ih.readPrimary
  fields := ih.readFields
  key := ih.readKey

end Settles

theorem settles (source : List Char) (n : Nat) : Settles source n := by
  induction n with
  | zero =>
    constructor
    all_goals
      intros
      rename_i room
      have fits := room.fits
      omega
  | succ n ih => exact ih.succ

/-! ## Loops -/

theorem same_readStringBody (quote : Char) {n : Nat} {c : Cursor} (room : Room source 1 c 1 n) :
    Same (readStringBody quote n) (readStringBody quote (n + 1)) c := by
  induction n generalizing c with
  | zero => exact absurd room.fits (by omega)
  | succ n ih =>
    refine .current? ?_
    split
    · exact .refl
    · next d here =>
      have next (c') (on : (c.skip 1).Ahead c') : Room source 1 c' 1 n :=
        room.past (.refl c) (rest_ne_nil_of_head here) (by decide) on (by decide)
      refine .skip ?_
      split
      · exact .refl
      · split
        · refine .current? ?_
          split
          · exact .refl
          · have rest (value : Char) (c') (on : ((c.skip 1).skip 1).Ahead c') :
                Same (do return value :: (← readStringBody quote n))
                  (do return value :: (← readStringBody quote (n + 1))) c' :=
              .bind (ih (next _ ((Cursor.ahead_skip ..).trans on))) fun _ _ _ => .refl
            refine .skip ?_
            dsimp only
            split
            · exact .bind .refl fun value c₂ reads => rest value c₂ (Advances.readUnicodeEscape _ _ _ reads)
            · exact rest _ _ (.refl _)
        · split
          · exact .refl
          · exact .bind (ih (next _ (.refl _))) fun _ _ _ => .refl

theorem same_readQuoted (opening : Nat) (quote : Char) {n start : Nat} {data : List Char} {c : Cursor}
    (room : Room source 1 c 1 n) :
    Same (readQuoted opening quote n start data) (readQuoted opening quote (n + 1) start data) c := by
  induction n generalizing c start data with
  | zero => exact absurd room.fits (by omega)
  | succ n ih =>
    refine .rest ?_
    split
    · exact .refl
    · next d r here =>
      have next (k : Nat) (some : 0 < k) (c') (on : (c.skip k).Ahead c') : Room source 1 c' 1 n :=
        room.past (.refl c) (by rw [here]; exact List.cons_ne_nil _ _) some on (by decide)
      split
      · exact .refl
      · split
        · split
          · exact .skip (ih (next 1 (by decide) _ (.refl _)))
          · exact .skip (ih (next 2 (by decide) _ (.refl _)))
        · split
          · refine .offset (.skip (.bind .refl fun value c₂ reads => .offset ?_))
            exact .bind (ih (next 2 (by decide) _ (Advances.readInterpolation _ _ _ _ reads))) fun _ _ _ => .refl
          · exact .skip (ih (next 1 (by decide) _ (.refl _)))

theorem readAttribute_lt {c c' : Cursor} {a : Attribute} (on : (Cursor.start source).Ahead c)
    (h : Gives readAttribute c a c') : c.offset < c'.offset := by
  have within : a.span.Within source c.offset c'.offset := by
    have placed := readAttribute_faithful on h
    obtain ⟨span, name, _ | parts⟩ := a <;> exact placed.1
  exact Nat.lt_of_le_of_lt within.start (Nat.lt_of_lt_of_le within.forward within.stop)

theorem same_readAttributes (start : Nat) {n : Nat} {found : List Attribute} {c : Cursor}
    (room : Room source 1 c 1 n) : Same (readAttributes start n found) (readAttributes start (n + 1) found) c := by
  induction n generalizing c found with
  | zero => exact absurd room.fits (by omega)
  | succ n ih =>
    refine .skipSpaces (.rest ?_)
    split
    · exact .refl
    · exact .refl
    · exact .refl
    · refine .bind .refl fun next c₁ reads => ?_
      split
      · exact .refl
      · have on := c.ahead_skipWhile isSpace
        refine ih (room.further (on.trans (Advances.readAttribute _ _ _ reads)) ?_ (by decide))
        exact Nat.lt_of_le_of_lt on.offset_le (readAttribute_lt (room.on.trans on) reads)

/-! ## Nodes -/

/-- With a bound that suffices, one more makes no difference to the readings of nodes. -/
structure SettlesNodes (source : List Char) (n : Nat) : Prop where
  nodes {c root seen} (room : Room source 4 c 3 n) : Same (readNodes n root seen) (readNodes (n + 1) root seen) c
  next {c root seen} (room : Room source 4 c 2 n) : Same (readNext n root seen) (readNext (n + 1) root seen) c
  block {c b start seen} (room : Room source 4 c 5 n) :
    Same (readBlock n b start seen) (readBlock (n + 1) b start seen) c
  branches {c b start seen} (room : Room source 4 c 4 n) :
    Same (readBranches n b start seen) (readBranches (n + 1) b start seen) c
  element {c tag seen} (some : c.rest ≠ []) (room : Room source 4 c 1 n) :
    Same (readElement n tag seen) (readElement (n + 1) tag seen) c

namespace SettlesNodes

variable {n : Nat} (ih : SettlesNodes source n) {c : Cursor}

include ih

theorem readNodes {root : Bool} {seen : Seen} (room : Room source 4 c 3 (n + 1)) :
    Same (Grammar.readNodes (n + 1) root seen) (Grammar.readNodes (n + 2) root seen) c := by
  refine .bind (ih.next (room.within (.refl c) (by decide))) fun next c₁ reads => ?_
  cases next with
  | ending => exact .refl
  | node node seen₁ =>
    have first := (derives n).next reads
    have moves : c.offset < c₁.offset := (first.laid room.on).2.1
    exact .bind (ih.nodes (room.further first.ahead moves (by decide))) fun _ _ _ => .refl

theorem readNext {root : Bool} {seen : Seen} (room : Room source 4 c 2 (n + 1)) :
    Same (Grammar.readNext (n + 1) root seen) (Grammar.readNext (n + 2) root seen) c := by
  refine .offset (.rest ?_)
  split
  · exact .refl
  · next braces =>
    have here := rest_ne_nil (show leadOf root seen c.rest ≠ .nothing by rw [braces]; rintro ⟨⟩)
    refine .skip (.skipSpaces (.rest ?_))
    dsimp only
    refine .skip ?_
    split
    · exact .refl
    · refine .bind (ih.block (room.past (k := 2) (.refl c) here (by decide) ?_ (by decide))) fun _ _ _ => .refl
      exact (Cursor.ahead_skipWhile ..).trans (Cursor.ahead_skip ..)
    · exact .refl
  · exact .refl
  · exact .refl
  · next lead =>
    have here := rest_ne_nil (show leadOf root seen c.rest ≠ .nothing by rw [lead]; rintro ⟨⟩)
    exact .bind (ih.element here (room.within (.refl c) (by decide))) fun _ _ _ => .refl
  · exact .refl
  · exact .refl
  · exact .refl

theorem readBlock {b : Block} {start : Nat} {seen : Seen} (room : Room source 4 c 5 (n + 1)) :
    Same (Grammar.readBlock (n + 1) b start seen) (Grammar.readBlock (n + 2) b start seen) c := by
  cases b with
  | choice =>
    refine .bind .refl fun _ _ reads => .bind (ih.branches (room.within ?_ (by decide))) fun _ _ _ => .refl
    exact Advances.readChoiceHead _ _ _ reads
  | loop =>
    refine .bind .refl fun _ _ reads => .bind (ih.branches (room.within ?_ (by decide))) fun _ _ _ => .refl
    exact Advances.readLoopHead _ _ _ reads

theorem readBranches {b : Block} {start : Nat} {seen : Seen} (room : Room source 4 c 4 (n + 1)) :
    Same (Grammar.readBranches (n + 1) b start seen) (Grammar.readBranches (n + 2) b start seen) c := by
  refine .bind (ih.nodes (room.within (.refl c) (by decide))) fun r c₁ reads => ?_
  obtain ⟨body, ending, seen₁⟩ := r
  have on := ((derives n).nodes reads).ahead
  cases ending with
  | elseMark => exact .bind (ih.nodes (room.within on (by decide))) fun _ _ _ => .refl
  | _ => exact .refl

theorem readElement {tag : Tag} {seen : Seen} (here : c.rest ≠ []) (room : Room source 4 c 1 (n + 1)) :
    Same (Grammar.readElement (n + 1) tag seen) (Grammar.readElement (n + 2) tag seen) c := by
  refine .offset (.skip (.rest (.bind .refl fun r c₁ reads => ?_)))
  obtain ⟨attributes, alone⟩ := r
  have on := Advances.readAttributes _ _ _ _ _ _ reads
  cases alone with
  | true => exact .refl
  | false => exact .bind (ih.nodes (room.past (.refl c) here (by omega) on (by decide))) fun _ _ _ => .refl

theorem succ : SettlesNodes source (n + 1) :=
  ⟨ih.readNodes, ih.readNext, ih.readBlock, ih.readBranches, ih.readElement⟩

end SettlesNodes

theorem settlesNodes (source : List Char) (n : Nat) : SettlesNodes source n := by
  induction n with
  | zero =>
    constructor
    all_goals
      intros
      rename_i room
      have fits := room.fits
      omega
  | succ n ih => exact ih.succ

/-! ## No bound is reached -/

/-- From a bound on, all larger ones make a reading do the same. -/
def Settled (read : Nat → Reading α) (c : Cursor) (bound : Nat) : Prop :=
  ∀ n, bound ≤ n → (read n).run c = (read bound).run c

theorem settled_of_same {read : Nat → Reading α} {c : Cursor} {bound : Nat}
    (more : ∀ n, bound ≤ n → Same (read n) (read (n + 1)) c) : Settled read c bound := by
  intro n least
  obtain ⟨k, rfl⟩ := Nat.exists_eq_add_of_le least
  clear least
  induction k with
  | zero => rfl
  | succ k ih => exact Eq.trans (more (bound + k) (Nat.le_add_right ..)) ih

/-- Each turn of a loop that goes on moves the cursor: it has read a node, an attribute, an item, the key of a field, an
operator, or a link. -/
structure Proceeds (source : List Char) : Prop where
  node {n root seen node seen'} {c c' : Cursor} (on : (Cursor.start source).Ahead c)
    (h : Gives (readNext n root seen) c (.node node seen') c') : c.offset < c'.offset
  setting {a} {c c' : Cursor} (on : (Cursor.start source).Ahead c) (h : Gives readAttribute c a c') :
    c.offset < c'.offset
  item {n e} {c c' : Cursor} (on : (Cursor.start source).Ahead c) (h : Gives (readAssignment n) c e c') :
    c.offset < c'.offset
  key {n key} {c c' : Cursor} (on : (Cursor.start source).Ahead c) (h : Gives (readKey n) c key c') :
    c.offset < c'.offset
  operator {text symbol op} (h : infixAt? text = some (symbol, op)) : 0 < symbol.length ∧ text ≠ []
  index {n e} {c c' : Cursor} (h : Gives (readComputed n) c e c') : c.offset < c'.offset
  call {n es} {c c' : Cursor} (h : Gives (readArguments n) c es c') : c.offset < c'.offset
  name {name} {c c' : Cursor} (h : Gives readName c name c') : c.offset < c'.offset

theorem proceeds (source : List Char) : Proceeds source where
  node on h := (((derives _).next h).laid on).2.1
  setting on h := readAttribute_lt on h
  item on h := by
    have placed := ((places source _).assignment on h).within
    exact Nat.lt_of_le_of_lt placed.start (Nat.lt_of_lt_of_le placed.forward placed.stop)
  key on h := ((places source _).key on h).2
  operator := infixAt?_length
  index := readComputed_lt
  call := readArguments_lt
  name := readName_lt

/-- No reading of a source is cut short by the bounds that it is given: those of expressions, of strings, of quoted
values, of attributes, and of the nodes of a document. -/
structure Unbounded (source : List Char) : Prop where
  expressions {c : Cursor} (on : (Cursor.start source).Ahead c) : Settled readSequence c (boundFor c.rest)
  strings {c : Cursor} (on : (Cursor.start source).Ahead c) (quote : Char) :
    Settled (readStringBody quote) c (c.rest.length + 1)
  quoted {c : Cursor} (on : (Cursor.start source).Ahead c) (opening start : Nat) (quote : Char) :
    Settled (readQuoted opening quote · start []) c (c.rest.length + 1)
  attributes {c : Cursor} (on : (Cursor.start source).Ahead c) (start : Nat) :
    Settled (readAttributes start · []) c (c.rest.length + 1)
  nodes : Settled (readNodes · true ⟨false, false⟩) (.start source) (4 * (source.length + 1))

/-- **No bound is reached**, whether the reading succeeds or fails. -/
theorem unbounded (source : List Char) : Unbounded source where
  expressions on :=
    settled_of_same fun n least => (settles source n).sequence ⟨on, by unfold boundFor at least; omega⟩
  strings on quote := settled_of_same fun n least => same_readStringBody quote ⟨on, by omega⟩
  quoted on opening start quote := settled_of_same fun n least => same_readQuoted opening quote ⟨on, by omega⟩
  attributes on start := settled_of_same fun n least => same_readAttributes start ⟨on, by omega⟩
  nodes := settled_of_same fun n least =>
    (settlesNodes source n).nodes ⟨.refl _, by show 4 * source.length + 3 ≤ n; omega⟩

end Grammar

/-! ## Sources -/

theorem Text.boundary_floorOffset (text : List Char) (n : Nat) : Boundary text (floorOffset text n) :=
  ⟨takeBytes n text, dropBytes n text, (takeBytes_append_dropBytes n text).symm, rfl⟩

theorem Text.floorOffset_mono (text : List Char) {m n : Nat} (le : m ≤ n) :
    floorOffset text m ≤ floorOffset text n := by
  unfold floorOffset
  induction text generalizing m n with
  | nil => exact Nat.le_refl _
  | cons c r ih =>
    unfold takeBytes
    split
    · next fits =>
      rw [if_pos (Nat.le_trans fits le)]
      exact Nat.add_le_add_left (ih (Nat.sub_le_sub_right le _)) _
    · exact Nat.zero_le _

/-- A defect is shown between two characters of its source. -/
theorem Diagnostic.of_within (source : List Char) (fault : Fault) :
    Text.Boundary source (of source fault).span.start ∧ Text.Boundary source (of source fault).span.stop ∧
      (of source fault).span.start ≤ (of source fault).span.stop :=
  ⟨Text.boundary_floorOffset .., Text.boundary_floorOffset .., Text.floorOffset_mono source (Nat.le_max_right ..)⟩

/-- **Every source is read to its end or to a defect in it, and nothing of it is lost.** No bound cuts the reading
short, and each turn of a loop moves on. The nodes of a document tile its source, at every depth they lie one after the
other within what they are part of, and each says what its span covers. A defect is shown between two characters. -/
theorem Document.parse_exhaustive (source : List Char) :
    Grammar.Unbounded source ∧ Grammar.Proceeds source ∧
      match parse source with
      | .ok d => d.span = ⟨0, Text.byteLength source⟩ ∧ Node.LaidAll source 0 d.body (Text.byteLength source) ∧
          Node.FaithfulAll source d.body
      | .error shown => Text.Boundary source shown.span.start ∧ Text.Boundary source shown.span.stop ∧
          shown.span.start ≤ shown.span.stop := by
  refine ⟨Grammar.unbounded source, Grammar.proceeds source, ?_⟩
  cases parsed : parse source with
  | ok d =>
    obtain ⟨span, laid⟩ := Grammar.laidAll_of_parse parsed
    exact ⟨span, laid, Grammar.faithfulAll_of_parse parsed⟩
  | error shown =>
    unfold parse at parsed
    split at parsed
    · cases parsed
    · cases parsed
      exact Diagnostic.of_within ..

end PromptScript
