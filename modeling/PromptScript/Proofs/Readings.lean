import PromptScript.Grammar.Template

/-! # Readings

What a reading does is told by `Gives`: the value it has and the cursor it leaves, for every reading that does not
end with a fault. A reading of several parts is taken apart by `gives_bind`. All readings of the grammar go forward, and
blame nothing but the text: `Advances` is closed under the ways in which they are put together. -/
namespace PromptScript

variable {α β : Type}

/-- A cursor further on in the same text. -/
def Cursor.Ahead (c c' : Cursor) : Prop :=
  ∃ read, c.rest = read ++ c'.rest ∧ c'.offset = c.offset + Text.byteLength read

namespace Cursor.Ahead

variable {c c' c'' : Cursor}

theorem refl (c : Cursor) : c.Ahead c := ⟨[], rfl, rfl⟩

theorem trans (h : c.Ahead c') (h' : c'.Ahead c'') : c.Ahead c'' := by
  obtain ⟨read, rest, offset⟩ := h
  obtain ⟨read', rest', offset'⟩ := h'
  refine ⟨read ++ read', by rw [rest, rest', List.append_assoc], ?_⟩
  rw [offset', offset, Text.byteLength_append, Nat.add_assoc]

theorem offset_le (h : c.Ahead c') : c.offset ≤ c'.offset := by
  obtain ⟨read, -, offset⟩ := h
  omega

end Cursor.Ahead

namespace Cursor

theorem ahead_skip (n : Nat) (c : Cursor) : c.Ahead (c.skip n) := by
  induction n generalizing c with
  | zero => exact .refl c
  | succ n ih =>
    obtain ⟨offset, _ | ⟨d, r⟩⟩ := c
    · exact .refl _
    · exact .trans ⟨[d], rfl, rfl⟩ (ih ⟨offset + d.utf8Size, r⟩)

/-- Over characters that are there the cursor moves by just those. -/
theorem skip_append (read rest : List Char) (offset : Nat) :
    (⟨offset, read ++ rest⟩ : Cursor).skip read.length = ⟨offset + Text.byteLength read, rest⟩ := by
  induction read generalizing offset with
  | nil => rfl
  | cons d r ih =>
    show (⟨offset + d.utf8Size, r ++ rest⟩ : Cursor).skip r.length = _
    rw [ih, Text.byteLength, Nat.add_assoc]

theorem skipWhile_eq (p : Char → Bool) (c : Cursor) :
    c.skipWhile p = ⟨c.offset + Text.byteLength (c.rest.takeWhile p), c.rest.dropWhile p⟩ := by
  obtain ⟨offset, rest⟩ := c
  show skipWhile.go p offset rest = _
  induction rest generalizing offset with
  | nil => rfl
  | cons d r ih =>
    unfold skipWhile.go
    split
    · next h => simp only [ih, List.takeWhile_cons, List.dropWhile_cons, h, ↓reduceIte, Text.byteLength, Nat.add_assoc]
    · next h => simp [h, Text.byteLength]

theorem ahead_skipWhile (p : Char → Bool) (c : Cursor) : c.Ahead (c.skipWhile p) := by
  rw [skipWhile_eq]
  exact ⟨c.rest.takeWhile p, (List.takeWhile_append_dropWhile ..).symm, rfl⟩

end Cursor

/-- A reading has a value, and moves the cursor from one place to another. -/
def Gives (r : Reading α) (c : Cursor) (a : α) (c' : Cursor) : Prop := r.run c = .ok (a, c')

section Gives

variable {c c' : Cursor} {a b : α}

theorem gives_pure : Gives (pure a : Reading α) c b c' ↔ a = b ∧ c = c' := by
  show (Except.ok (a, c) : Except Fault _) = .ok (b, c') ↔ _
  rw [Except.ok.injEq, Prod.mk.injEq]

theorem gives_bind {x : Reading α} {f : α → Reading β} {b : β} :
    Gives (x >>= f) c b c' ↔ ∃ a c₁, Gives x c a c₁ ∧ Gives (f a) c₁ b c' := by
  show ((x.run c >>= fun p => (f p.1).run p.2) = .ok (b, c')) ↔ ∃ a c₁, x.run c = .ok (a, c₁) ∧ _
  cases h : x.run c with
  | error fault => exact ⟨nofun, nofun⟩
  | ok p =>
    refine ⟨fun g => ⟨p.1, p.2, rfl, g⟩, ?_⟩
    rintro ⟨a, c₁, same, g⟩
    obtain rfl := Except.ok.inj same
    exact g

theorem gives_get {d : Cursor} : Gives (get : Reading Cursor) c d c' ↔ c = d ∧ c = c' := gives_pure

theorem gives_set {d : Cursor} {u : PUnit} : Gives (set d : Reading PUnit) c u c' ↔ d = c' := by
  show (Except.ok (⟨⟩, d) : Except Fault _) = .ok (u, c') ↔ _
  rw [Except.ok.injEq, Prod.mk.injEq]
  exact ⟨And.right, fun h => ⟨rfl, h⟩⟩

theorem gives_modify {f : Cursor → Cursor} {u : Unit} : Gives (modify f : Reading Unit) c u c' ↔ f c = c' := by
  show (Except.ok ((), f c) : Except Fault _) = .ok (u, c') ↔ _
  rw [Except.ok.injEq, Prod.mk.injEq]
  exact ⟨And.right, fun h => ⟨rfl, h⟩⟩

theorem not_gives_throw {fault : Fault} : ¬ Gives (throw fault : Reading α) c a c' := nofun

namespace Grammar

theorem gives_offset {o : Nat} : Gives offset c o c' ↔ c.offset = o ∧ c = c' := gives_pure

theorem gives_rest {text : List Char} : Gives rest c text c' ↔ c.rest = text ∧ c = c' := gives_pure

theorem gives_current? {d : Option Char} : Gives current? c d c' ↔ c.rest.head? = d ∧ c = c' := gives_pure

theorem gives_skip {n : Nat} {u : Unit} : Gives (skip n) c u c' ↔ c.skip n = c' := gives_modify

theorem gives_skipSpaces {u : Unit} : Gives skipSpaces c u c' ↔ c.skipWhile isSpace = c' := gives_modify

theorem gives_takeWhile {p : Char → Bool} {text : List Char} :
    Gives (takeWhile p) c text c' ↔ c.rest.takeWhile p = text ∧ c.skipWhile p = c' := gives_pure

theorem gives_sourceEnd {o : Nat} :
    Gives sourceEnd c o c' ↔ c.offset + Text.byteLength c.rest = o ∧ c = c' := gives_pure

/-- The scan of a text at a cursor. -/
def scanned (content : Bool) (c : Cursor) : List Char × Cursor := scanText content .first true c.offset c.rest

theorem gives_readText {content : Bool} {read : Node × Bool} : Gives (readText content) c read c' ↔
    (.text ⟨c.offset, (scanned content c).2.offset⟩ (String.ofList (scanned content c).1) none,
      content || !Text.allBlank (scanned content c).1) = read ∧ (scanned content c).2 = c' := gives_pure

theorem not_gives_failAt {defect : Defect} {span : Span} : ¬ Gives (failAt defect span : Reading α) c a c' :=
  not_gives_throw

theorem not_gives_failHere {message : String} : ¬ Gives (failHere message : Reading α) c a c' := nofun

theorem not_gives_failEnd : ¬ Gives (failEnd : Reading α) c a c' := nofun

end Grammar

/-! ### Readings put together -/

namespace Gives

variable {c₁ : Cursor} {b : β}

theorem bind {x : Reading α} {f : α → Reading β} (first : Gives x c a c₁) (later : Gives (f a) c₁ b c') :
    Gives (x >>= f) c b c' := gives_bind.mpr ⟨a, c₁, first, later⟩

theorem offset {f : Nat → Reading β} (later : Gives (f c.offset) c b c') : Gives (Grammar.offset >>= f) c b c' := later

theorem rest {f : List Char → Reading β} (later : Gives (f c.rest) c b c') : Gives (Grammar.rest >>= f) c b c' := later

theorem current? {f : Option Char → Reading β} (later : Gives (f c.rest.head?) c b c') :
    Gives (Grammar.current? >>= f) c b c' := later

theorem skip {n : Nat} {f : Unit → Reading β} (later : Gives (f ()) (c.skip n) b c') :
    Gives (Grammar.skip n >>= f) c b c' := later

theorem skipTo {n : Nat} {f : Unit → Reading β} (past : c.skip n = c₁) (later : Gives (f ()) c₁ b c') :
    Gives (Grammar.skip n >>= f) c b c' := bind (Grammar.gives_skip.mpr past) later

theorem skipSpaces {f : Unit → Reading β} (past : c.skipWhile Grammar.isSpace = c₁) (later : Gives (f ()) c₁ b c') :
    Gives (Grammar.skipSpaces >>= f) c b c' := bind (Grammar.gives_skipSpaces.mpr past) later

end Gives
end Gives

/-! ## Going forward -/

/-- Whether a defect is one that a document has by itself, and not through those it refers to. -/
def Defect.isLocal : Defect → Bool
  | circularReference | referenceFailed _ | inReference _ => false
  | _ => true

/-- A reading that never moves the cursor back, and blames nothing but the text. -/
structure Advances (r : Reading α) : Prop where
  ahead : ∀ c a c', Gives r c a c' → c.Ahead c'
  blames : ∀ c fault, r.run c = .error fault → fault.defect.isLocal = true

instance (r : Reading α) : CoeFun (Advances r) fun _ => ∀ c a c', Gives r c a c' → c.Ahead c' := ⟨Advances.ahead⟩

namespace Advances

open Grammar

/-- A reading without faults. -/
theorem of_total {r : Reading α} (ahead : ∀ c a c', Gives r c a c' → c.Ahead c') (total : ∀ c, (r.run c).isOk = true) :
    Advances r := by
  refine ⟨ahead, fun c fault fails => ?_⟩
  have done := total c
  rw [fails] at done
  cases done

theorem pure (a : α) : Advances (Pure.pure a : Reading α) := by
  refine .of_total (fun c b c' h => ?_) fun _ => rfl
  obtain ⟨-, rfl⟩ := gives_pure.mp h
  exact .refl c

theorem bind {x : Reading α} {f : α → Reading β} (hx : Advances x) (hf : ∀ a, Advances (f a)) :
    Advances (x >>= f) where
  ahead c b c' h := by
    obtain ⟨a, c₁, first, second⟩ := gives_bind.mp h
    exact (hx _ _ _ first).trans (hf a _ _ _ second)
  blames c fault fails := by
    replace fails : (x.run c >>= fun p => (f p.1).run p.2) = .error fault := fails
    cases h : x.run c with
    | error other =>
      rw [h] at fails
      exact Except.error.inj fails ▸ hx.blames c other h
    | ok p =>
      rw [h] at fails
      exact (hf p.1).blames p.2 fault fails

theorem ite {p : Prop} [Decidable p] {x y : Reading α} (hx : Advances x) (hy : Advances y) :
    Advances (if p then x else y) := by
  split
  · exact hx
  · exact hy

theorem throw (fault : Fault) (h : fault.defect.isLocal = true) : Advances (MonadExcept.throw fault : Reading α) where
  ahead _ _ _ gives := (not_gives_throw gives).elim
  blames _ _ fails := Except.error.inj fails ▸ h

theorem failAt (defect : Defect) (span : Span) (h : defect.isLocal = true := by rfl) :
    Advances (Grammar.failAt defect span : Reading α) :=
  .throw _ h

theorem offset : Advances Grammar.offset := .of_total (fun c _ _ h => (gives_offset.mp h).2 ▸ .refl c) fun _ => rfl

theorem failHere (message : String) : Advances (Grammar.failHere message : Reading α) :=
  .bind .offset fun _ => .failAt _ _

theorem failEnd : Advances (Grammar.failEnd : Reading α) := .bind .offset fun _ => .failAt _ _

theorem get : Advances (MonadState.get : Reading Cursor) :=
  .of_total (fun c _ _ h => (gives_get.mp h).2 ▸ .refl c) fun _ => rfl

theorem rest : Advances Grammar.rest := .of_total (fun c _ _ h => (gives_rest.mp h).2 ▸ .refl c) fun _ => rfl

theorem current? : Advances Grammar.current? :=
  .of_total (fun c _ _ h => (gives_current?.mp h).2 ▸ .refl c) fun _ => rfl

theorem lookingAtWord (word : String) : Advances (Grammar.lookingAtWord word) := .bind .get fun _ => .pure _

theorem sourceEnd : Advances Grammar.sourceEnd := .bind .get fun _ => .pure _

theorem skip (n : Nat) : Advances (Grammar.skip n) :=
  .of_total (fun c _ _ h => gives_skip.mp h ▸ c.ahead_skip n) fun _ => rfl

theorem skipSpaces : Advances Grammar.skipSpaces :=
  .of_total (fun c _ _ h => gives_skipSpaces.mp h ▸ c.ahead_skipWhile _) fun _ => rfl

theorem takeWhile (p : Char → Bool) : Advances (Grammar.takeWhile p) :=
  .of_total (fun c _ _ h => (gives_takeWhile.mp h).2 ▸ c.ahead_skipWhile p) fun _ => rfl

theorem expect (d : Char) : Advances (Grammar.expect d) := by
  refine .bind .current? fun found => ?_
  cases found with
  | none => exact .failEnd
  | some found => exact .ite (.skip 1) (.failHere _)

theorem readName : Advances Grammar.readName := by
  refine .bind .current? fun found => ?_
  cases found with
  | none => exact .failEnd
  | some found => exact .ite (.bind (.takeWhile _) fun _ => .pure _) (.failHere _)

end Advances
end PromptScript

/-! ## The grammar goes forward

No reading of an expression, of a tag or of the nodes of a document moves the cursor back, and none blames another
document. -/
namespace PromptScript.Advances

open Grammar

/-! ### Literals -/

theorem readUnicodeEscape : Advances readUnicodeEscape := by
  refine .bind .rest fun text => ?_
  dsimp only
  split
  · exact .failHere _
  · refine .ite (.failHere _) (.bind (.skip _) fun _ => .ite (.pure _) (.failHere _))

theorem readStringBody (quote : Char) (fuel : Nat) : Advances (readStringBody quote fuel) := by
  induction fuel with
  | zero => exact .failEnd
  | succ fuel ih =>
    refine .bind .current? fun c => ?_
    cases c with
    | none => exact .failEnd
    | some c =>
      refine .bind (.skip 1) fun _ => .ite (.pure _) (.ite ?_ (.ite (.failHere _) (.bind ih fun _ => .pure _)))
      refine .bind .current? fun e => ?_
      cases e with
      | none => exact .failEnd
      | some e =>
        have more (value : Char) : Advances (do return value :: (← Grammar.readStringBody quote fuel)) :=
          .bind ih fun _ => .pure _
        exact .bind (.skip 1) fun _ => .ite (.bind .readUnicodeEscape more) (.bind (.pure _) more)

theorem readString (quote : Char) : Advances (readString quote) :=
  .bind (.skip 1) fun _ => .bind .rest fun _ => .bind (.readStringBody _ _) fun _ => .pure _

theorem readHexLiteral : Advances readHexLiteral := by
  refine .bind (.skip 2) fun _ => .bind (.takeWhile _) fun digits => ?_
  split
  · exact .ite (.pure _) (.failHere _)
  · exact .failHere _

theorem readPlaces : Advances readPlaces := by
  refine .bind .rest fun text => ?_
  split
  · exact .ite (.bind (.skip 1) fun _ => .bind (.takeWhile _) fun _ => .pure _)
      (.ite (.pure _) (.bind (.skip 1) fun _ => .pure _))
  · exact .bind (.skip 1) fun _ => .pure _
  · exact .pure _

theorem readPower : Advances readPower := by
  refine .bind .rest fun text => ?_
  split
  · refine .ite ?_ (.pure _)
    dsimp only
    split
    · exact .ite (.bind (.skip _) fun _ => .bind (.takeWhile _) fun _ => .pure _) (.pure _)
    · exact .pure _
  · exact .pure _

theorem readNumber : Advances readNumber := by
  refine .bind .rest fun text => ?_
  split
  · exact .readHexLiteral
  · exact .readHexLiteral
  · refine .bind .offset fun _ => .bind (.takeWhile _) fun _ => .bind .readPlaces fun _ => .bind .readPower fun _ => ?_
    split
    · exact .pure _
    · exact .bind .offset fun _ => .failAt _ _

theorem readWord : Advances readWord := by
  refine .bind .offset fun _ => .bind .readName fun word => .bind .offset fun _ => ?_
  dsimp only
  split
  · exact .pure _
  · exact .ite (.failAt _ _) (.pure _)

theorem checkUpdateTarget (target : Expr) : Advances (checkUpdateTarget target) := by
  unfold Grammar.checkUpdateTarget
  split
  · exact .pure _
  · exact .pure _
  · exact .failAt _ _

theorem checkAssignTarget (target : Expr) : Advances (checkAssignTarget target) := by
  unfold Grammar.checkAssignTarget
  split
  · exact .pure _
  · exact .pure _
  · exact .failAt _ _
  · exact .failAt _ _

/-! ### Expressions -/

/-- The readings of expressions up to a bound on their depth. -/
structure Expressions (fuel : Nat) : Prop where
  sequence : Advances (readSequence fuel)
  more : Advances (readMore fuel)
  assignment : Advances (readAssignment fuel)
  conditional : Advances (readConditional fuel)
  operation (least : Nat) : Advances (readOperation fuel least)
  operators (least : Nat) (left : Expr) : Advances (readOperators fuel least left)
  unary : Advances (readUnary fuel)
  postfixed : Advances (readPostfix fuel)
  links (start : Nat) (optional : Bool) (e : Expr) : Advances (readLinks fuel start optional e)
  computed : Advances (readComputed fuel)
  arguments : Advances (readArguments fuel)
  items (close : Char) (message : String) : Advances (readItems fuel close message)
  primary : Advances (readPrimary fuel)
  fields : Advances (readFields fuel)
  key : Advances (readKey fuel)

namespace Expressions

variable {fuel : Nat} (h : Expressions fuel)

include h

theorem readSequence : Advances (Grammar.readSequence (fuel + 1)) := by
  refine .bind h.assignment fun _ => .bind .skipSpaces fun _ => .bind .current? fun _ => .ite ?_ (.pure _)
  exact .bind h.more fun _ => .bind .offset fun _ => .pure _

theorem readMore : Advances (Grammar.readMore (fuel + 1)) := by
  refine .bind .current? fun _ => .ite ?_ (.pure _)
  exact .bind (.skip 1) fun _ => .bind h.assignment fun _ => .bind .skipSpaces fun _ => .bind h.more fun _ => .pure _

theorem readAssignment : Advances (Grammar.readAssignment (fuel + 1)) := by
  refine .bind h.conditional fun target => .bind .skipSpaces fun _ => .bind .rest fun text => ?_
  split
  · exact .pure _
  · exact .bind (.skip _) fun _ => .bind (.checkAssignTarget _) fun _ => .bind h.assignment fun _ => .pure _

theorem readConditional : Advances (Grammar.readConditional (fuel + 1)) := by
  refine .bind (h.operation 0) fun test => .bind .skipSpaces fun _ => .bind .rest fun text => ?_
  split
  · exact .pure _
  · exact .pure _
  · exact .bind (.skip 1) fun _ => .bind h.assignment fun _ => .bind .skipSpaces fun _ =>
      .bind (.expect _) fun _ => .bind h.assignment fun _ => .pure _
  · exact .pure _

theorem readOperation (least : Nat) : Advances (Grammar.readOperation (fuel + 1) least) :=
  .bind h.unary fun _ => h.operators _ _

theorem readOperators (least : Nat) (left : Expr) : Advances (Grammar.readOperators (fuel + 1) least left) := by
  refine .bind .skipSpaces fun _ => .bind .rest fun text => ?_
  split
  · exact .pure _
  · exact .ite (.pure _) (.bind (.skip _) fun _ => .bind (h.operation _) fun _ => h.operators _ _)

theorem readUnary : Advances (Grammar.readUnary (fuel + 1)) := by
  refine .bind .skipSpaces fun _ => .bind .offset fun _ => .bind .rest fun text => ?_
  split
  · exact .bind (.skip 2) fun _ => .bind h.unary fun _ => .bind (.checkUpdateTarget _) fun _ => .pure _
  · split
    · exact .bind (.skip _) fun _ => .bind h.unary fun _ => .pure _
    · exact h.postfixed

theorem readPostfix : Advances (Grammar.readPostfix (fuel + 1)) := by
  refine .bind h.primary fun _ => .bind (h.links _ _ _) fun _ => .bind .rest fun text => ?_
  split
  · exact .bind (.checkUpdateTarget _) fun _ => .bind (.skip 2) fun _ => .bind .offset fun _ => .pure _
  · exact .pure _

theorem readLinks (start : Nat) (optional : Bool) (e : Expr) :
    Advances (Grammar.readLinks (fuel + 1) start optional e) := by
  refine .bind .skipSpaces fun _ => .bind .rest fun text => .ite ?_ ?_
  · refine .bind (.skip 2) fun _ => .bind .skipSpaces fun _ => .bind .current? fun c => ?_
    split
    · exact .bind h.arguments fun _ => .bind .offset fun _ => h.links _ _ _
    · exact .bind h.computed fun _ => .bind .offset fun _ => h.links _ _ _
    · exact .bind .readName fun _ => .bind .offset fun _ => h.links _ _ _
  · split
    · exact .pure _
    · exact .bind (.skip 1) fun _ => .bind .skipSpaces fun _ => .bind .readName fun _ =>
        .bind .offset fun _ => h.links _ _ _
    · exact .bind h.computed fun _ => .bind .offset fun _ => h.links _ _ _
    · exact .bind h.arguments fun _ => .bind .offset fun _ => h.links _ _ _
    · exact .pure _

theorem readComputed : Advances (Grammar.readComputed (fuel + 1)) :=
  .bind (.expect _) fun _ => .bind h.sequence fun _ => .bind .skipSpaces fun _ => .bind (.expect _) fun _ => .pure _

theorem readArguments : Advances (Grammar.readArguments (fuel + 1)) := .bind (.expect _) fun _ => h.items _ _

theorem readItems (close : Char) (message : String) : Advances (Grammar.readItems (fuel + 1) close message) := by
  refine .bind .skipSpaces fun _ => .bind .current? fun _ => .ite (.bind (.skip 1) fun _ => .pure _) ?_
  refine .bind h.assignment fun _ => .bind .skipSpaces fun _ => .bind .current? fun c => ?_
  have rest (e : Expr) : Advances (do return e :: (← Grammar.readItems fuel close message)) :=
    .bind (h.items _ _) fun _ => .pure _
  split
  · exact .failEnd
  · exact .ite (.bind (.skip 1) fun _ => rest _) (.ite (.bind (.failHere _) fun _ => rest _) (rest _))

theorem readPrimary : Advances (Grammar.readPrimary (fuel + 1)) := by
  refine .bind .skipSpaces fun _ => .bind .offset fun _ => .bind .rest fun text => ?_
  split
  · exact .failEnd
  · refine .ite ?_ (.ite ?_ (.ite ?_ (.ite ?_ (.ite ?_ (.ite .readWord (.failHere _))))))
    · exact .bind .readNumber fun _ => .bind .offset fun _ => .pure _
    · exact .bind (.readString _) fun _ => .bind .offset fun _ => .pure _
    · exact .bind (.skip 1) fun _ => .bind h.sequence fun _ => .bind .skipSpaces fun _ =>
        .bind (.expect _) fun _ => .pure _
    · exact .bind (.skip 1) fun _ => .bind (h.items _ _) fun _ => .bind .offset fun _ => .pure _
    · exact .bind (.skip 1) fun _ => .bind h.fields fun _ => .bind .offset fun _ => .pure _

theorem readFields : Advances (Grammar.readFields (fuel + 1)) := by
  refine .bind .skipSpaces fun _ => .bind .offset fun _ => .bind .rest fun text => .ite ?_ ?_
  · exact .bind (.skip 1) fun _ => .pure _
  · refine .bind h.key fun key => .bind .offset fun _ => .bind .skipSpaces fun _ => .bind ?_ fun value => ?_
    · refine .bind .current? fun _ => .ite (.bind (.skip 1) fun _ => h.assignment) ?_
      split
      · exact .ite (.pure _) (.failHere _)
      · exact .failHere _
    · have rest : Advances (do return (key, value) :: (← Grammar.readFields fuel)) :=
        .bind h.fields fun _ => .pure _
      refine .bind .skipSpaces fun _ => .bind .current? fun c => ?_
      split
      · exact .failEnd
      · exact .ite (.bind (.skip 1) fun _ => rest) (.ite (.bind (.failHere _) fun _ => rest) rest)

theorem readKey : Advances (Grammar.readKey (fuel + 1)) := by
  refine .bind .current? fun c => ?_
  split
  · exact .failEnd
  · refine .ite ?_ (.ite ?_ (.ite ?_ ?_))
    · exact .bind (.skip 1) fun _ => .bind h.assignment fun _ => .bind .skipSpaces fun _ =>
        .bind (.expect _) fun _ => .pure _
    · exact .bind (.readString _) fun _ => .pure _
    · exact .bind .readNumber fun _ => .pure _
    · exact .bind .readName fun _ => .pure _

theorem succ : Expressions (fuel + 1) where
  sequence := h.readSequence
  more := h.readMore
  assignment := h.readAssignment
  conditional := h.readConditional
  operation := h.readOperation
  operators := h.readOperators
  unary := h.readUnary
  postfixed := h.readPostfix
  links := h.readLinks
  computed := h.readComputed
  arguments := h.readArguments
  items := h.readItems
  primary := h.readPrimary
  fields := h.readFields
  key := h.readKey

end Expressions

theorem expressions (fuel : Nat) : Expressions fuel := by
  induction fuel with
  | zero => constructor <;> intros <;> exact .failEnd
  | succ fuel ih => exact ih.succ

theorem readExpr : Advances readExpr := .bind .rest fun _ => (expressions _).sequence

/-! ### Leaves of a document -/

theorem ahead_scanText (content : Bool) (state : TextState) (blank : Bool) (o : Nat) (text : List Char) :
    (⟨o, text⟩ : Cursor).Ahead (scanText content state blank o text).2 := by
  induction text generalizing state blank o with
  | nil => cases state <;> exact .refl _
  | cons d r ih =>
    have past (state : TextState) (blank : Bool) :
        (⟨o, d :: r⟩ : Cursor).Ahead (scanText content state blank (o + d.utf8Size) r).2 :=
      .trans ⟨[d], rfl, rfl⟩ (ih ..)
    cases state with
    | escaped => exact past _ _
    | _ =>
      unfold scanText
      dsimp only
      repeat' split
      all_goals first
        | exact .refl _
        | exact past _ _

theorem readText (content : Bool) : Advances (readText content) := by
  refine .of_total (fun c r c' h => ?_) fun _ => rfl
  obtain ⟨_, c₁, here, h⟩ := gives_bind.mp h
  obtain ⟨rfl, rfl⟩ := gives_get.mp here
  obtain ⟨_, c₁, stops, h⟩ := gives_bind.mp h
  obtain rfl := gives_set.mp stops
  obtain ⟨-, rfl⟩ := gives_pure.mp h
  exact ahead_scanText ..

theorem readComment (opening closing : List Char) : Advances (readComment opening closing) := by
  refine .bind .offset fun _ => .bind .sourceEnd fun _ => .bind (.skip _) fun _ => .bind .rest fun text => ?_
  split
  · exact .failAt _ _
  · exact .bind (.skip _) fun _ => .bind .offset fun _ => .pure _

theorem readHeader : Advances readHeader := by
  refine .bind .offset fun _ => .bind .sourceEnd fun _ => .bind (.skip _) fun _ => .bind .rest fun text => ?_
  split
  · exact .failAt _ _
  · exact .bind (.skip _) fun _ => .bind .offset fun _ => .pure _

theorem expectClose : Advances expectClose := by
  refine .bind .skipSpaces fun _ => .bind .rest fun text => ?_
  split
  · exact .failEnd
  · exact .skip 2
  · exact .failHere _

theorem readInterpolation (start : Nat) : Advances (readInterpolation start) :=
  .bind .skipSpaces fun _ => .bind .readExpr fun _ => .bind .expectClose fun _ => .bind .offset fun _ => .pure _

theorem readBinding : Advances readBinding := by
  refine .bind .offset fun _ => .bind .current? fun c => ?_
  split
  · exact .failHere _
  · exact .ite (.bind .readName fun _ => .bind .offset fun _ => .pure _) (.failHere _)

theorem readChoiceHead : Advances readChoiceHead :=
  .bind .skipSpaces fun _ => .bind .readExpr fun _ => .bind .expectClose fun _ => .pure _

theorem readLoopHead : Advances readLoopHead := by
  refine .bind .skipSpaces fun _ => .bind .readBinding fun _ => .bind .skipSpaces fun _ => .bind ?_ fun index => ?_
  · refine .bind .current? fun _ => .ite ?_ (.pure _)
    exact .bind (.skip 1) fun _ => .bind .skipSpaces fun _ => .bind .readBinding fun _ => .pure _
  · refine .bind .skipSpaces fun _ => .bind (.lookingAtWord _) fun _ => .ite ?_ (.failHere _)
    exact .bind (.skip 2) fun _ => .bind .skipSpaces fun _ => .bind .readExpr fun _ => .bind .expectClose fun _ => .pure _

/-! ### Tags -/

theorem readClosing (tag : Tag) : Advances (readClosing tag) := by
  refine .bind .offset fun _ => .bind (.skip _) fun _ => .bind .skipSpaces fun _ => .bind .current? fun c => ?_
  split
  · exact .bind .offset fun _ => .failAt _ _
  · exact .bind (.skip 1) fun _ => .bind .offset fun _ => .pure _
  · exact .failHere _

theorem readQuoted (opening : Nat) (quote : Char) (fuel start : Nat) (data : List Char) :
    Advances (readQuoted opening quote fuel start data) := by
  induction fuel generalizing start data with
  | zero => exact .failEnd
  | succ fuel ih =>
    refine .bind .rest fun text => ?_
    split
    · exact .bind .offset fun _ => .failAt _ _
    · refine .ite (.bind .offset fun _ => .pure _) (.ite ?_ (.ite ?_ (.bind (.skip 1) fun _ => ih _ _)))
      · split
        · exact .bind (.skip 1) fun _ => ih _ _
        · exact .bind (.skip 2) fun _ => ih _ _
      · exact .bind .offset fun _ => .bind (.skip 2) fun _ => .bind (.readInterpolation _) fun _ =>
          .bind .offset fun _ => .bind (ih _ _) fun _ => .pure _

theorem readQuotedValue (quote : Char) : Advances (readQuotedValue quote) :=
  .bind .offset fun _ => .bind (.skip 1) fun _ => .bind .offset fun _ => .bind .rest fun _ =>
    .bind (.readQuoted _ _ _ _ _) fun _ => .bind .offset fun _ => .bind (.skip 1) fun _ => .pure _

/-- A reading may look past blanks and go back to where they start. -/
theorem lookPast {α : Type} (p : Option Char → Prop) [DecidablePred p] {a : Cursor → α} {r : Cursor → Reading α}
    (h : ∀ bare, Advances (r bare)) : Advances (do
      let bare ← MonadState.get
      Grammar.skipSpaces
      if p (← Grammar.current?) then
        set bare
        return a bare
      else r bare) where
  ahead c b c' gives := by
    obtain ⟨bare, c₁, here, gives⟩ := gives_bind.mp gives
    obtain ⟨rfl, rfl⟩ := gives_get.mp here
    obtain ⟨_, c₁, skips, gives⟩ := gives_bind.mp gives
    obtain ⟨_, c₂, here, gives⟩ := gives_bind.mp gives
    obtain ⟨rfl, rfl⟩ := gives_current?.mp here
    split at gives
    · obtain ⟨_, c₂, back, gives⟩ := gives_bind.mp gives
      obtain rfl := gives_set.mp back
      obtain ⟨-, rfl⟩ := gives_pure.mp gives
      exact .refl _
    · exact (skipSpaces _ _ _ skips).trans (h _ _ _ _ gives)
  blames c fault fails := by
    replace fails : (if p (c.skipWhile isSpace).rest.head? then (do set c; return a c : Reading α) else r c).run
      (c.skipWhile isSpace) = .error fault := fails
    split at fails
    · cases fails
    · exact (h c).blames _ _ fails

/-- An attribute without a value ends before the blanks that have been looked at. -/
theorem readAttribute : Advances readAttribute := by
  refine .bind .offset fun start => .bind (.takeWhile _) fun name => .ite (.bind .current? fun _ => .failHere _) ?_
  refine lookPast (· ≠ some '=') fun _ => .bind (.skip 1) fun _ => .bind .skipSpaces fun _ => .bind ?_ fun _ =>
    .bind .offset fun _ => .pure _
  refine .bind .rest fun text => ?_
  split
  · exact .bind .offset fun _ => .failAt _ _
  · exact .readQuotedValue _
  · exact .readQuotedValue _
  · exact .bind .offset fun _ => .bind (.skip 2) fun _ => .bind (.readInterpolation _) fun _ => .pure _
  · exact .failHere _

theorem readAttributes (start fuel : Nat) (found : List Attribute) : Advances (readAttributes start fuel found) := by
  induction fuel generalizing found with
  | zero => exact .failEnd
  | succ fuel ih =>
    refine .bind .skipSpaces fun _ => .bind .rest fun text => ?_
    split
    · exact .bind .offset fun _ => .failAt _ _
    · exact .bind (.skip 1) fun _ => .pure _
    · exact .bind (.skip 2) fun _ => .pure _
    · exact .bind .readAttribute fun next => .ite (.failAt _ _) (ih _)

/-! ### Documents -/

theorem failEnding {α : Type} (name : String) (start : Nat) (ending : Ending) :
    Advances (failEnding name start ending : Reading α) := by
  cases ending with
  | source => exact .bind .sourceEnd fun _ => .failAt _ _
  | _ => exact .failAt _ _

/-- The readings of nodes up to a bound on their depth. -/
structure Nodes (fuel : Nat) : Prop where
  nodes (root : Bool) (seen : Seen) : Advances (readNodes fuel root seen)
  next (root : Bool) (seen : Seen) : Advances (readNext fuel root seen)
  block (block : Block) (start : Nat) (seen : Seen) : Advances (readBlock fuel block start seen)
  branches (block : Block) (start : Nat) (seen : Seen) : Advances (readBranches fuel block start seen)
  element (tag : Tag) (seen : Seen) : Advances (readElement fuel tag seen)

namespace Nodes

variable {fuel : Nat} (h : Nodes fuel)

include h

theorem readNodes (root : Bool) (seen : Seen) : Advances (Grammar.readNodes (fuel + 1) root seen) := by
  refine .bind (h.next root seen) fun next => ?_
  cases next with
  | ending => exact .pure _
  | node => exact .bind (h.nodes _ _) fun _ => .pure _

theorem readNext (root : Bool) (seen : Seen) : Advances (Grammar.readNext (fuel + 1) root seen) := by
  refine .bind .offset fun start => .bind .rest fun text => ?_
  dsimp only
  split
  · exact .pure _
  · refine .bind (.skip 2) fun _ => .bind .skipSpaces fun _ => .bind .rest fun text => .bind (.skip _) fun _ => ?_
    split
    · exact .bind .expectClose fun _ => .bind .offset fun _ => .pure _
    · exact .bind (h.block _ _ _) fun _ => .pure _
    · exact .bind (.readInterpolation _) fun _ => .pure _
  · exact .bind (.readComment _ _) fun _ => .pure _
  · exact .bind (.readClosing _) fun _ => .pure _
  · exact .bind (h.element _ _) fun _ => .pure _
  · exact .failAt _ _
  · exact .bind .readHeader fun _ => .pure _
  · exact .bind (.readText _) fun _ => .pure _

theorem readBlock (block : Block) (start : Nat) (seen : Seen) :
    Advances (Grammar.readBlock (fuel + 1) block start seen) := by
  cases block with
  | choice => exact .bind .readChoiceHead fun _ => .bind (h.branches _ _ _) fun _ => .bind .offset fun _ => .pure _
  | loop => exact .bind .readLoopHead fun _ => .bind (h.branches _ _ _) fun _ => .bind .offset fun _ => .pure _

theorem readBranches (block : Block) (start : Nat) (seen : Seen) :
    Advances (Grammar.readBranches (fuel + 1) block start seen) := by
  refine .bind (h.nodes _ _) fun ⟨body, ending, seen⟩ => ?_
  dsimp only
  split
  · refine .bind (h.nodes _ _) fun ⟨other, ending, seen⟩ => ?_
    exact .ite (.pure _) (.bind .offset fun _ => .failEnding _ _ _)
  · exact .ite (.pure _) (.failEnding _ _ _)

theorem readElement (tag : Tag) (seen : Seen) : Advances (Grammar.readElement (fuel + 1) tag seen) := by
  refine .bind .offset fun start => .bind (.skip _) fun _ => .bind .rest fun text => ?_
  refine .bind (.readAttributes _ _ _) fun ⟨attributes, alone⟩ => .ite (.bind .offset fun _ => .pure _) ?_
  refine .bind (h.nodes _ _) fun ⟨body, ending, seen⟩ => ?_
  dsimp only
  split
  · exact .ite (.bind .offset fun _ => .pure _) (.failEnding _ _ _)
  · exact .failEnding _ _ _

end Nodes

theorem nodes (fuel : Nat) : Nodes fuel := by
  induction fuel with
  | zero => constructor <;> intros <;> exact .failEnd
  | succ fuel ih => exact ⟨ih.readNodes, ih.readNext, ih.readBlock, ih.readBranches, ih.readElement⟩

theorem readDocument : Advances readDocument := by
  refine .bind .rest fun text => .bind ((nodes _).nodes _ _) fun ⟨body, ending, _⟩ => ?_
  dsimp only
  split
  · exact .bind .offset fun _ => .pure _
  · exact .failEnding _ _ _

end PromptScript.Advances
