import PromptScript.Proofs.Embedded

/-! # Texts further on

What is read does not depend on how far from the start of a source it stands. `Onward` compares a reading with its like at a
cursor further on, with the same text ahead: it gives the same, with all spans further on. -/
namespace PromptScript

def Binding.shifted (k : Nat) (b : Binding) : Binding := { b with span := b.span.shifted k }

namespace Node

mutual

/-- A node further on. -/
def shifted (k : Nat) : Node → Node
  | text span data p => text (span.shifted k) data p
  | comment span data p => comment (span.shifted k) data p
  | config span data p => config (span.shifted k) data p
  | interpolation span e p => interpolation (span.shifted k) (e.shifted k) p
  | group span body p => group (span.shifted k) (shiftedAll k body) p
  | choice span test body none p => choice (span.shifted k) (test.shifted k) (shiftedAll k body) none p
  | choice span test body (some other) p =>
    choice (span.shifted k) (test.shifted k) (shiftedAll k body) (some (shiftedAll k other)) p
  | loop span items item index body none p =>
    loop (span.shifted k) (items.shifted k) (item.shifted k) (index.map (.shifted k)) (shiftedAll k body) none p
  | loop span items item index body (some other) p =>
    loop (span.shifted k) (items.shifted k) (item.shifted k) (index.map (.shifted k)) (shiftedAll k body)
      (some (shiftedAll k other)) p
  | element span tag attributes body p =>
    element (span.shifted k) tag (shiftedAttributes k attributes) (shiftedAll k body) p

def shiftedAll (k : Nat) : List Node → List Node
  | [] => []
  | n :: r => shifted k n :: shiftedAll k r

def shiftedAttributes (k : Nat) : List Attribute → List Attribute
  | [] => []
  | .mk span name .flag :: r => .mk (span.shifted k) name .flag :: shiftedAttributes k r
  | .mk span name (.nodes parts) :: r => .mk (span.shifted k) name (.nodes (shiftedAll k parts)) :: shiftedAttributes k r

end

theorem shiftedAll_append (k : Nat) (a b : List Node) : shiftedAll k (a ++ b) = shiftedAll k a ++ shiftedAll k b := by
  induction a with
  | nil => rfl
  | cons n r ih => exact congrArg (n.shifted k :: ·) ih

end Node

/-- An attribute further on. -/
def Attribute.shifted (k : Nat) : Attribute → Attribute
  | mk span name .flag => .mk (span.shifted k) name .flag
  | mk span name (.nodes parts) => .mk (span.shifted k) name (.nodes (Node.shiftedAll k parts))

theorem Attribute.name_shifted (k : Nat) : ∀ a : Attribute, (a.shifted k).name = a.name
  | mk _ _ .flag | mk _ _ (.nodes _) => rfl

theorem Node.shiftedAttributes_eq_map (k : Nat) (attributes : List Attribute) :
    shiftedAttributes k attributes = attributes.map (.shifted k) := by
  induction attributes with
  | nil => rfl
  | cons a r ih => rcases a with ⟨_, _, _ | _⟩ <;> exact congrArg (_ :: ·) ih

/-- The place of a cursor further on, with the same text ahead. -/
def Cursor.onward (k : Nat) (c : Cursor) : Cursor := ⟨c.offset + k, c.rest⟩

theorem Cursor.amid_ahead (k : Nat) (c : Cursor) : c.amid (.ahead k) = c.onward k := by
  unfold amid
  rw [show c.rest ++ (Grammar.Surroundings.ahead k).behind = c.rest from List.append_nil _]
  rfl

theorem Cursor.skip_onward (n k : Nat) (c : Cursor) : (c.onward k).skip n = (c.skip n).onward k := by
  rw [← amid_ahead, ← amid_ahead]
  exact skip_amid (.inl rfl)

theorem Cursor.skipWhile_onward (p : Char → Bool) (k : Nat) (c : Cursor) :
    (c.onward k).skipWhile p = (c.skipWhile p).onward k := by
  rw [skipWhile_eq, skipWhile_eq]
  exact congrArg (Cursor.mk · _) (Nat.add_right_comm ..)

namespace Grammar

variable {α β γ δ : Type} {k : Nat}

/-- What one reading gives, the other gives further on. -/
def Onward (k : Nat) (move : α → β) (x : Reading α) (y : Reading β) : Prop :=
  ∀ c a c', Gives x c a c' → Gives y (c.onward k) (move a) (c'.onward k)

namespace Onward

variable {move : α → γ} {later : β → δ} {x x' : Reading α} {y y' : Reading γ} {f : α → Reading β} {g : γ → Reading δ}

theorem none (fails : ∀ c a c', ¬ Gives x c a c') : Onward k move x y := fun c a c' h => (fails c a c' h).elim

theorem failHere {message : String} : Onward k move (Grammar.failHere message) y := none fun _ _ _ => not_gives_failHere

theorem failEnd : Onward k move Grammar.failEnd y := none fun _ _ _ => not_gives_failEnd

theorem failAt {defect : Defect} {span : Span} : Onward k move (Grammar.failAt defect span) y :=
  none fun _ _ _ => not_gives_failAt

/-- What fails after something else. -/
theorem fails {z : Reading δ} (fails : ∀ a c b c', ¬ Gives (f a) c b c') : Onward k later (x >>= f) z := by
  refine none fun c b c' h => ?_
  obtain ⟨a, c₁, -, h⟩ := gives_bind.mp h
  exact fails a c₁ b c' h

theorem pure {a : α} {b : γ} (same : move a = b) : Onward k move (Pure.pure a) (Pure.pure b) := by
  intro c a' c' h
  obtain ⟨rfl, rfl⟩ := gives_pure.mp h
  exact gives_pure.mpr ⟨same.symm, rfl⟩

theorem bind (first : Onward k move x y) (rest : ∀ a, Onward k later (f a) (g (move a))) :
    Onward k later (x >>= f) (y >>= g) := by
  intro c b c' h
  obtain ⟨a, c₁, hx, hf⟩ := gives_bind.mp h
  exact .bind (first c a c₁ hx) (rest a c₁ b c' hf)

theorem ite {p : Prop} [Decidable p] (hx : Onward k move x y) (hx' : Onward k move x' y') :
    Onward k move (if p then x else x') (if p then y else y') := by
  split
  · exact hx
  · exact hx'

theorem offset {f : Nat → Reading β} {g : Nat → Reading δ} (rest : ∀ o, Onward k later (f o) (g (o + k))) :
    Onward k later (Grammar.offset >>= f) (Grammar.offset >>= g) := fun c => rest c.offset c

theorem rest {f : List Char → Reading β} {g : List Char → Reading δ} (rest : ∀ text, Onward k later (f text) (g text)) :
    Onward k later (Grammar.rest >>= f) (Grammar.rest >>= g) := fun c => rest c.rest c

theorem current? {f : Option Char → Reading β} {g : Option Char → Reading δ} (rest : ∀ d, Onward k later (f d) (g d)) :
    Onward k later (Grammar.current? >>= f) (Grammar.current? >>= g) := fun c => rest c.rest.head? c

theorem get {f : Cursor → Reading β} {g : Cursor → Reading δ} (rest : ∀ d, Onward k later (f d) (g (d.onward k))) :
    Onward k later (MonadState.get >>= f) (MonadState.get >>= g) := fun c => rest c c

theorem set {d : Cursor} {f : Unit → Reading β} {g : Unit → Reading δ} (rest : Onward k later (f ()) (g ())) :
    Onward k later (MonadStateOf.set d >>= f) (MonadStateOf.set (d.onward k) >>= g) := fun _ => rest d

/-- An offset that only defects show. -/
theorem sourceEnd {f : Nat → Reading β} {g : Nat → Reading δ} (rest : ∀ o o', Onward k later (f o) (g o')) :
    Onward k later (Grammar.sourceEnd >>= f) (Grammar.sourceEnd >>= g) := fun c => rest _ _ c

theorem skip {f : Unit → Reading β} {g : Unit → Reading δ} {n : Nat} (rest : Onward k later (f ()) (g ())) :
    Onward k later (Grammar.skip n >>= f) (Grammar.skip n >>= g) := by
  have skips : Onward k id (Grammar.skip n) (Grammar.skip n) := fun c a c' h =>
    gives_skip.mpr (gives_skip.mp h ▸ Cursor.skip_onward ..)
  exact skips.bind fun _ => rest

theorem takeWhile {p : Char → Bool} {f : List Char → Reading β} {g : List Char → Reading δ}
    (rest : ∀ text, Onward k later (f text) (g text)) :
    Onward k later (Grammar.takeWhile p >>= f) (Grammar.takeWhile p >>= g) := by
  have takes : Onward k id (Grammar.takeWhile p) (Grammar.takeWhile p) := by
    intro c a c' h
    obtain ⟨rfl, rfl⟩ := gives_takeWhile.mp h
    exact gives_takeWhile.mpr ⟨rfl, Cursor.skipWhile_onward ..⟩
  exact takes.bind rest

theorem skipSpaces {f : Unit → Reading β} {g : Unit → Reading δ} (rest : Onward k later (f ()) (g ())) :
    Onward k later (Grammar.skipSpaces >>= f) (Grammar.skipSpaces >>= g) := by
  have skips : Onward k id Grammar.skipSpaces Grammar.skipSpaces := fun c a c' h =>
    gives_skipSpaces.mpr (gives_skipSpaces.mp h ▸ Cursor.skipWhile_onward ..)
  exact skips.bind fun _ => rest

theorem readExpr : Onward k (Expr.shifted k) readExpr readExpr := by
  -- Surroundings with nothing behind do nothing but move a text on.
  refine rest fun text c e c' h => ?_
  have moved := ((embeds (.ahead k) (Nat.le_refl (boundFor text))).sequence c e c' h).2 fun _ => .inl rfl
  rw [Cursor.amid_ahead, Cursor.amid_ahead] at moved
  exact moved

theorem expectClose : Onward k id expectClose expectClose := by
  refine skipSpaces (rest fun text => ?_)
  split
  · exact failEnd
  · exact fun c a c' h => gives_skip.mpr (gives_skip.mp h ▸ Cursor.skip_onward ..)
  · exact failHere

theorem readName : Onward k id readName readName := by
  refine current? fun d => ?_
  split
  · exact failEnd
  · exact ite (takeWhile fun _ => pure rfl) failHere

theorem readBinding : Onward k (.shifted k) readBinding readBinding := by
  refine offset fun start => current? fun d => ?_
  split
  · exact failHere
  · exact ite (bind readName fun _ => offset fun _ => pure rfl) failHere

/-! ### Leaves and heads -/

theorem readInterpolation (start : Nat) : Onward k (.shifted k) (readInterpolation start) (readInterpolation (start + k)) :=
  skipSpaces (bind readExpr fun _ => bind expectClose fun _ => offset fun _ => pure rfl)

theorem readComment (opening closing : List Char) :
    Onward k (.shifted k) (readComment opening closing) (readComment opening closing) := by
  refine offset fun start => sourceEnd fun _ _ => skip (rest fun text => ?_)
  split
  · exact failAt
  · exact skip (offset fun _ => pure rfl)

theorem readClosing (tag : Tag) : Onward k (.shifted k) (readClosing tag) (readClosing tag) := by
  refine offset fun start => skip (skipSpaces (current? fun d => ?_))
  split
  · exact fails fun _ _ _ _ => not_gives_failAt
  · exact skip (offset fun _ => pure rfl)
  · exact failHere

theorem readChoiceHead : Onward k (.shifted k) readChoiceHead readChoiceHead :=
  skipSpaces (bind readExpr fun _ => bind expectClose fun _ => pure rfl)

end Onward

/-- The head of a loop further on. -/
def LoopHead.shifted (k : Nat) (head : LoopHead) : LoopHead :=
  ⟨head.item.shifted k, head.index.map (.shifted k), head.items.shifted k⟩

namespace Onward

theorem readLoopHead : Onward k (.shifted k) readLoopHead readLoopHead := by
  refine skipSpaces (bind readBinding fun item => skipSpaces (bind (?_ : Onward k (Option.map (.shifted k)) _ _) fun index => ?_))
  · refine current? fun d => ite (skip (skipSpaces (bind readBinding fun _ => pure rfl))) (pure rfl)
  · refine skipSpaces (bind (?_ : Onward k id _ _) fun there => ite (skip (skipSpaces ?_)) failHere)
    · exact fun c a c' h => by
        obtain ⟨same, rfl⟩ := gives_pure.mp h
        exact gives_pure.mpr ⟨same, rfl⟩
    · exact bind readExpr fun _ => bind expectClose fun _ => pure rfl

/-! ### Attributes -/

theorem attributeText (start stop : Nat) (data : List Char) :
    Node.shiftedAll k (attributeText start stop data) = attributeText (start + k) (stop + k) data := by
  unfold Grammar.attributeText
  split <;> rfl

theorem readQuoted (opening : Nat) (quote : Char) (fuel start : Nat) (data : List Char) :
    Onward k (Node.shiftedAll k) (readQuoted opening quote fuel start data)
      (readQuoted (opening + k) quote fuel (start + k) data) := by
  induction fuel generalizing start data with
  | zero => exact failEnd
  | succ fuel ih =>
    refine rest fun text => ?_
    split
    · exact fails fun _ _ _ _ => not_gives_failAt
    · next c r =>
      refine ite (offset fun stop => pure (attributeText ..)) (ite ?_ (ite ?_ ?_))
      · split
        · exact skip (ih start data)
        · exact skip (ih start _)
      · refine offset fun here => skip (bind (readInterpolation here) fun value => offset fun next => ?_)
        refine bind (ih next []) fun more => pure ?_
        rw [Node.shiftedAll_append, attributeText]
        rfl
      · exact skip (ih start _)

theorem readQuotedValue (quote : Char) : Onward k (Node.shiftedAll k) (readQuotedValue quote) (readQuotedValue quote) := by
  refine offset fun opening => skip (offset fun start => rest fun text => ?_)
  refine bind (readQuoted opening quote _ start []) fun parts => offset fun stop => skip (pure ?_)
  cases parts with
  | nil => rfl
  | cons n r => rfl

theorem readAttribute : Onward k (.shifted k) readAttribute readAttribute := by
  refine offset fun start => takeWhile fun name => ite ?_ ?_
  · exact fails fun _ _ _ _ => not_gives_failHere
  · refine get fun bare => skipSpaces (current? fun d => ite (set (pure rfl)) ?_)
    refine skip (skipSpaces (bind (?_ : Onward k (Node.shiftedAll k) _ _) fun parts => offset fun stop => pure rfl))
    refine rest fun text => ?_
    split
    · exact fails fun _ _ _ _ => not_gives_failAt
    · exact readQuotedValue _
    · exact readQuotedValue _
    · exact offset fun here => skip (bind (readInterpolation here) fun _ => pure rfl)
    · exact failHere

theorem readAttributes (start fuel : Nat) (found : List Attribute) :
    Onward k (fun a => (Node.shiftedAttributes k a.1, a.2)) (readAttributes start fuel found)
      (readAttributes (start + k) fuel (Node.shiftedAttributes k found)) := by
  induction fuel generalizing found with
  | zero => exact failEnd
  | succ fuel ih =>
    refine skipSpaces (rest fun text => ?_)
    split
    · exact fails fun _ _ _ _ => not_gives_failAt
    · exact skip (pure rfl)
    · exact skip (pure rfl)
    · refine bind readAttribute fun next => ?_
      have same : (Node.shiftedAttributes k found).any (·.name == (next.shifted k).name) = found.any (·.name == next.name) := by
        rw [Node.shiftedAttributes_eq_map, List.any_map, Attribute.name_shifted]
        exact congrArg found.any (funext fun a => congrArg (· == next.name) (a.name_shifted k))
      rw [same]
      refine ite failAt ?_
      have further := ih (found ++ [next])
      rw [Node.shiftedAttributes_eq_map, List.map_append, ← Node.shiftedAttributes_eq_map] at further
      exact further

/-! ### Texts -/

/-- Where the scan of a text ends, and with which data, does not depend on where it starts. -/
theorem scanText_onward (content : Bool) (state : TextState) (blank : Bool) (o : Nat) (text : List Char) :
    scanText content state blank (o + k) text =
      ((scanText content state blank o text).1, (scanText content state blank o text).2.onward k) := by
  induction text generalizing state blank o with
  | nil => cases state <;> rfl
  | cons c r ih =>
    have step (state : TextState) (blank : Bool) : scanText content state blank (o + k + c.utf8Size) r =
        ((scanText content state blank (o + c.utf8Size) r).1, (scanText content state blank (o + c.utf8Size) r).2.onward k) := by
      rw [Nat.add_right_comm]
      exact ih state blank _
    cases state with
    | escaped =>
      unfold scanText
      rw [step]
    | first | dashes | inside =>
      unfold scanText
      split
      · exact step _ _
      · split
        · rfl
        · split
          · rfl
          · dsimp only
            rw [step]

theorem readText (content : Bool) : Onward k (fun a => (a.1.shifted k, a.2)) (readText content) (readText content) := by
  refine get fun start => ?_
  have scan := scanText_onward (k := k) content .first true start.offset start.rest
  unfold Cursor.onward at scan ⊢
  dsimp only
  rw [scan]
  exact set (pure rfl)

end Onward
end Grammar
end PromptScript
