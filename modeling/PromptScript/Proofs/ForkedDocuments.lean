import PromptScript.Proofs.ForkedNodes

/-! # Documents of texts that fork

A derivation of what stands in the stretch that two texts have in common is one for both of them, if the texts and leads
there are the same on both branches: when nothing is behind the stretch, and when a mark of a header is behind it on both. -/
namespace PromptScript

namespace Grammar

variable {w : Fork} {c c' d : Cursor}

/-! ## Branches that are alike -/

/-- A text node and the content that has been met, without the span. -/
def textView (read : Node × Bool) : Node × Bool := (read.1.unplaced, read.2)

/-- The branches are alike in what may follow a node. -/
structure Fork.Level (w : Fork) : Prop where
  lead (root : Bool) (seen : Seen) : w.Blind (leadOf root seen)
  text (content : Bool) : Parallel w textView (readText content) (readText content)

/-- A text is read in the same way where it is scanned in the same way. -/
theorem Parallel.readText {content : Bool} (scan : ∀ c d, w.At c d → w.behind <:+ (scanned content c).2.rest →
    (scanned content c).1 = (scanned content d).1 ∧ w.At (scanned content c).2 (scanned content d).2) :
    Parallel w textView (readText content) (readText content) := by
  refine ⟨fun c a c' h => Advances.readText content c a c' h, fun c d a c' at_ h within => ?_⟩
  obtain ⟨rfl, rfl⟩ := gives_readText.mp h
  obtain ⟨data, at'⟩ := scan c d at_ within
  refine ⟨_, _, gives_readText.mpr ⟨rfl, rfl⟩, ?_, at'⟩
  rw [data]
  rfl

/-- Where a text ends, and its data, does not depend on where it stands. -/
theorem scanText_places (content : Bool) (state : TextState) (blank : Bool) (o o' : Nat) (text : List Char) :
    (scanText content state blank o text).1 = (scanText content state blank o' text).1 ∧
      (scanText content state blank o text).2.rest = (scanText content state blank o' text).2.rest := by
  have from_start (k : Nat) : (scanText content state blank k text).1 = (scanText content state blank 0 text).1 ∧
      (scanText content state blank k text).2.rest = (scanText content state blank 0 text).2.rest := by
    have further := Onward.scanText_onward (k := k) content state blank 0 text
    rw [Nat.zero_add] at further
    rw [further]
    exact ⟨rfl, rfl⟩
  exact ⟨(from_start o).1.trans (from_start o').1.symm, (from_start o).2.trans (from_start o').2.symm⟩

theorem Fork.level_ends : Fork.ends.Level where
  lead _ _ _ _ sees := by rw [sees.ends]
  text content := by
    refine .readText fun c d at_ _ => ?_
    have places := scanText_places content .first true c.offset d.offset c.rest
    rw [Fork.at_ends, scanned, scanned, ← Fork.at_ends.mp at_]
    exact places

/-! ## Marks of headers -/

/-- On both branches a mark of a header comes next. -/
structure Fork.Marked (w : Fork) : Prop where
  mark : ∃ r r', w.behind = '-' :: '-' :: '-' :: r ∧ w.behind' = '-' :: '-' :: '-' :: r'
  here : atHeaderMark w.behind = true
  there : atHeaderMark w.behind' = true

namespace Fork

variable (marked : w.Marked)

include marked

theorem Marked.blind {f : List Char → α} (h : ∀ text r r', atHeaderMark ('-' :: '-' :: '-' :: r) = true →
    atHeaderMark ('-' :: '-' :: '-' :: r') = true → f (text ++ '-' :: '-' :: '-' :: r) = f (text ++ '-' :: '-' :: '-' :: r')) :
    w.Blind f := by
  obtain ⟨⟨r, r', left, right⟩, here, there⟩ := marked
  rintro text text' (⟨t, rfl, rfl⟩ | rfl)
  · rw [left] at here ⊢
    rw [right] at there ⊢
    exact h t r' r there here
  · rfl

theorem Marked.blind_startsWith {lead : List Char} (short : lead.length ≤ 4) (plain : lead.head? ≠ some '-') :
    w.Blind (Text.startsWith lead) := by
  refine marked.blind fun text r r' _ _ => ?_
  cases text with
  | nil =>
    cases lead with
    | nil => rfl
    | cons a lead =>
      have apart : a ≠ '-' := fun same => plain (congrArg some same)
      show (if a = '-' then _ else none : Option _).isSome = (if a = '-' then _ else none : Option _).isSome
      rw [if_neg apart, if_neg apart]
  | cons a text =>
    have room : lead.length ≤ (a :: text ++ ['-', '-', '-']).length := by simp; omega
    have far := startsWith_far room r r'
    simpa using far

omit marked in
/-- No dash of a text is followed by another one, or at its end. -/
def single : List Char → Bool
  | [] => true
  | a :: r => (a != '-' || r.head?.any (· != '-')) && single r

omit marked in
/-- A lead with single dashes does not reach behind two of them. -/
theorem dropLead?_dashes {lead : List Char} (alone : single lead = true) (text r : List Char) :
    Text.dropLead? lead (text ++ '-' :: '-' :: r) = (Text.dropLead? lead text).map (· ++ '-' :: '-' :: r) := by
  induction lead generalizing text with
  | nil => rfl
  | cons a lead ih =>
    obtain ⟨first, later⟩ := Bool.and_eq_true_iff.mp alone
    cases text with
    | nil =>
      show (if a = '-' then Text.dropLead? lead ('-' :: r) else none) = none
      split
      · next dash =>
        subst dash
        cases lead with
        | nil => cases first
        | cons b lead =>
          have apart : b ≠ '-' := by simpa using first
          exact if_neg apart
      · rfl
    | cons c text =>
      show (if a = c then Text.dropLead? lead (text ++ '-' :: '-' :: r) else none) = (if a = c then _ else _ : Option _).map _
      split
      · exact ih later text
      · rfl

omit marked in
theorem tagAt?_dashes (text r r' : List Char) : tagAt? (text ++ '-' :: '-' :: r) = tagAt? (text ++ '-' :: '-' :: r') := by
  have alone : ∀ tag : Tag, single tag.name.toList = true := by
    rintro (role | kind | _ | _ | _)
    · rcases role with _ | role
      · decide
      · cases role <;> decide
    · rcases kind with _ | kind
      · decide
      · cases kind <;> decide
    all_goals decide
  unfold tagAt?
  refine congrArg (Tag.all.find? ·) (funext fun tag => ?_)
  rw [dropLead?_dashes (alone tag), dropLead?_dashes (alone tag)]
  cases Text.dropLead? tag.name.toList text with
  | none => rfl
  | some left => cases left <;> rfl

theorem Marked.blind_tagMarkAt? : w.Blind tagMarkAt? := by
  refine marked.blind fun text r r' _ _ => ?_
  match text with
  | [] => rfl
  | [a] =>
    by_cases opens : a = '<'
    · subst opens
      exact congrArg (Option.map (·, false)) (tagAt?_dashes [] ('-' :: r) ('-' :: r'))
    · simp [tagMarkAt?, opens]
  | a :: b :: text =>
    by_cases opens : a = '<'
    · subst opens
      by_cases closes : b = '/'
      · subst closes
        exact congrArg (Option.map (·, true)) (tagAt?_dashes text ('-' :: r) ('-' :: r'))
      · have same := congrArg (Option.map (·, false)) (tagAt?_dashes (b :: text) ('-' :: r) ('-' :: r'))
        simpa [tagMarkAt?, closes] using same
    · simp [tagMarkAt?, opens]

theorem Marked.blind_atHeaderMark : w.Blind atHeaderMark := by
  have far (a b c d : Char) (r r' : List Char) : atHeaderMark (a :: b :: c :: d :: r) = atHeaderMark (a :: b :: c :: d :: r') := by
    by_cases ha : a = '-' <;> by_cases hb : b = '-' <;> by_cases hc : c = '-' <;> by_cases hd : d = '-' <;>
      simp [atHeaderMark, ha, hb, hc, hd]
  refine marked.blind fun text r r' here there => ?_
  -- The mark of a header is told by four characters.
  rcases text with _ | ⟨a, _ | ⟨b, _ | ⟨c, _ | ⟨d, text⟩⟩⟩⟩
  · exact here.trans there.symm
  all_goals exact far ..

theorem Marked.blind_endsText : w.Blind endsText := by
  intro text text' sees
  unfold endsText
  rw [marked.blind_startsWith (by decide) (by decide) _ _ sees, marked.blind_startsWith (by decide) (by decide) _ _ sees,
    marked.blind_startsWith (by decide) (by decide) _ _ sees, marked.blind_tagMarkAt? _ _ sees]

theorem Marked.blind_leadOf (root : Bool) (seen : Seen) : w.Blind (leadOf root seen) := by
  intro text text' sees
  have empty : (text' = []) = (text = []) := marked.blind (f := (· = [])) (fun _ _ _ _ _ => by simp) _ _ sees
  unfold leadOf
  rw [marked.blind_startsWith (by decide) (by decide) _ _ sees, marked.blind_startsWith (by decide) (by decide) _ _ sees,
    marked.blind_startsWith (by decide) (by decide) _ _ sees, marked.blind_tagMarkAt? _ _ sees, marked.blind_atHeaderMark _ _ sees]
  simp only [empty]

end Fork

/-- Two scans come to the same data and to the same place. -/
def ScanBeside (w : Fork) (x y : List Char × Cursor) : Prop := x.1 = y.1 ∧ w.At x.2 y.2

/-- One step of a scan, before the same character and with what decides the same. -/
theorem scanText_step {content : Bool} {state : TextState} {blank : Bool} {o o' : Nat} {a : Char} {r r' : List Char}
    (here : ∀ o o', w.At ⟨o, a :: r⟩ ⟨o', a :: r'⟩) (ends : endsText (a :: r') = endsText (a :: r))
    (mark : atHeaderMark (a :: r') = atHeaderMark (a :: r))
    (next : ∀ state blank, w.behind <:+ (scanText content state blank (o + a.utf8Size) r).2.rest →
      ScanBeside w (scanText content state blank (o + a.utf8Size) r) (scanText content state blank (o' + a.utf8Size) r'))
    (within : w.behind <:+ (scanText content state blank o (a :: r)).2.rest) :
    ScanBeside w (scanText content state blank o (a :: r)) (scanText content state blank o' (a :: r')) := by
  have taken {state : TextState} {blank : Bool} (within) := And.imp_left (congrArg (a :: ·)) (next state blank within)
  cases state with
  | escaped => exact taken within
  | first | dashes | inside =>
    unfold scanText at within ⊢
    rw [ends, mark]
    split at within
    · next backslash =>
      rw [if_pos backslash, if_pos backslash]
      exact next _ _ within
    · next plain =>
      rw [if_neg plain, if_neg plain]
      split at within
      · next stops =>
        rw [if_pos stops, if_pos stops]
        exact ⟨rfl, here ..⟩
      · next goes =>
        rw [if_neg goes, if_neg goes]
        split at within
        · next stops =>
          rw [if_pos stops, if_pos stops]
          exact ⟨rfl, here ..⟩
        · next goes =>
          rw [if_neg goes, if_neg goes]
          exact taken within

/-- What the scan of a text does before a mark of a header does not depend on what is behind the mark. -/
theorem scanText_marked (marked : w.Marked) (content : Bool) (text : List Char) (state : TextState) (blank : Bool) (o o' : Nat)
    (within : w.behind <:+ (scanText content state blank o (text ++ w.behind)).2.rest) :
    ScanBeside w (scanText content state blank o (text ++ w.behind)) (scanText content state blank o' (text ++ w.behind')) := by
  induction text generalizing state blank o o' with
  | nil =>
    obtain ⟨⟨r, r', left, right⟩, -⟩ := id marked
    have here : w.Sees w.behind w.behind' := .inl ⟨[], rfl, rfl⟩
    have ends := marked.blind_endsText _ _ here
    have mark := marked.blind_atHeaderMark _ _ here
    have at_ (o o' : Nat) : w.At ⟨o, w.behind⟩ ⟨o', w.behind'⟩ := ⟨[], rfl, rfl⟩
    -- Behind the first dash there is too little left.
    have short (state : TextState) (blank : Bool) :
        ¬ w.behind <:+ (scanText content state blank (o + '-'.utf8Size) ('-' :: '-' :: r)).2.rest := by
      intro within
      have more := (Advances.ahead_scanText content state blank (o + '-'.utf8Size) ('-' :: '-' :: r)).length_le
      have less := within.length_le
      rw [left] at less
      simp only [List.length_cons] at more less
      omega
    rw [List.nil_append] at within ⊢
    rw [List.nil_append]
    rw [left, right] at ends mark at_
    have step := @scanText_step w content state blank o o' _ _ _ at_ ends mark fun state blank h => (short state blank h).elim
    rw [← left, ← right] at step
    exact step within
  | cons a text ih =>
    have here : w.Sees (a :: (text ++ w.behind)) (a :: (text ++ w.behind')) := .inl ⟨a :: text, rfl, rfl⟩
    exact scanText_step (fun _ _ => ⟨a :: text, rfl, rfl⟩) (marked.blind_endsText _ _ here) (marked.blind_atHeaderMark _ _ here)
      (fun state blank within => ih state blank _ _ within) within

theorem Fork.Marked.level (marked : w.Marked) : w.Level where
  lead root seen := marked.blind_leadOf root seen
  text content := by
    refine .readText fun c d at_ within => ?_
    obtain ⟨text, left, right⟩ := at_
    unfold scanned at within ⊢
    rw [left] at within ⊢
    rw [right]
    exact scanText_marked marked content text .first true _ _ within

/-! ## Derivations -/

def Ending.unplaced : Ending → Ending
  | .source => .source
  | .elseMark _ => .elseMark ⟨0, 0⟩
  | .endIf _ => .endIf ⟨0, 0⟩
  | .endFor _ => .endFor ⟨0, 0⟩
  | .close tag _ => .close tag ⟨0, 0⟩

theorem Ending.endedBy_unplaced (b : Block) (e : Ending) : b.endedBy e.unplaced = b.endedBy e := by
  cases b <;> cases e <;> rfl

/-- What is read on the other branch from a place on, up to where the first one has come. -/
def Part.Beside (w : Fork) : Part → Cursor → Cursor → Prop
  | .nodes root seen body e seen', d, c' => ∃ body' e' d', Reads (.nodes root seen body' e' seen') d d' ∧
      Node.unplacedAll body' = Node.unplacedAll body ∧ e'.unplaced = e.unplaced ∧ w.At c' d'
  | .next root seen (.node n seen'), d, c' => ∃ n' d', Reads (.next root seen (.node n' seen')) d d' ∧
      n'.unplaced = n.unplaced ∧ w.At c' d'
  | .next root seen (.ending e), d, c' => ∃ e' d', Reads (.next root seen (.ending e')) d d' ∧
      e'.unplaced = e.unplaced ∧ w.At c' d'
  | .block b _ seen n seen', d, c' => ∀ start, ∃ n' d', Reads (.block b start seen n' seen') d d' ∧
      n'.unplaced = n.unplaced ∧ w.At c' d'
  | .branches b seen body otherwise seen', d, c' => ∃ body' otherwise' d', Reads (.branches b seen body' otherwise' seen') d d' ∧
      Node.unplacedAll body' = Node.unplacedAll body ∧
      otherwise'.map Node.unplacedAll = otherwise.map Node.unplacedAll ∧ w.At c' d'
  | .element tag seen n seen', d, c' => ∃ n' d', Reads (.element tag seen n' seen') d d' ∧ n'.unplaced = n.unplaced ∧ w.At c' d'

/-- The head of a block that is read before a closing brace. -/
theorem Brace.of_block {b : Block} {start : Nat} {seen seen' : Seen} {n : Node} {behind : List Char}
    (h : Reads (.block b start seen n seen') c c') (within : behind <:+ c'.rest) : Brace behind c := by
  cases h with
  | choice head reads => exact .of_choiceHead head (reads.ahead.within within)
  | loop head reads => exact .of_loopHead head (reads.ahead.within within)

/-- A part that is not headed, and has no tags unless nothing is behind it. -/
structure Part.Plain (w : Fork) (part : Part) : Prop where
  bare : Node.headedAll part.body = false
  tags : w = Fork.ends ∨ Node.taggedAll part.body = false

theorem Part.Plain.split {part : Part} (plain : part.Plain w) (first rest : Part) (parts : part.body = first.body ++ rest.body) :
    first.Plain w ∧ rest.Plain w := by
  obtain ⟨bare, tags⟩ := plain
  rw [parts, Node.headedAll_append, Bool.or_eq_false_iff] at bare
  rw [parts, Node.taggedAll_append, Bool.or_eq_false_iff] at tags
  exact ⟨⟨bare.1, tags.imp_right And.left⟩, ⟨bare.2, tags.imp_right And.right⟩⟩

/-- What stands in a choice. -/
theorem Part.Plain.choice {start : Nat} {seen seen' : Seen} {span : Span} {test : Expr} {body : List Node}
    {otherwise : Option (List Node)} {p : Option Progress}
    (plain : (Part.block .choice start seen (.choice span test body otherwise p) seen').Plain w) :
    (Part.branches .choice seen body otherwise seen').Plain w := by
  obtain ⟨bare, tags⟩ := plain
  refine ⟨(Node.choice_parts span test body otherwise p).2 ▸ bare, tags.imp_right fun untagged => ?_⟩
  rw [Part.body, Node.taggedAll, Node.taggedAll, Bool.or_false] at untagged
  rw [Part.body, Node.taggedAll_append]
  cases otherwise with
  | none => exact Bool.or_eq_false_iff.mpr ⟨untagged, rfl⟩
  | some other => exact untagged

theorem Part.Plain.loop {start : Nat} {seen seen' : Seen} {span : Span} {items : Expr} {item : Binding} {index : Option Binding}
    {body : List Node} {otherwise : Option (List Node)} {p : Option Progress}
    (plain : (Part.block .loop start seen (.loop span items item index body otherwise p) seen').Plain w) :
    (Part.branches .loop seen body otherwise seen').Plain w := by
  obtain ⟨bare, tags⟩ := plain
  refine ⟨(Node.loop_parts span items item index body otherwise p).2 ▸ bare, tags.imp_right fun untagged => ?_⟩
  rw [Part.body, Node.taggedAll, Node.taggedAll, Bool.or_false] at untagged
  rw [Part.body, Node.taggedAll_append]
  cases otherwise with
  | none => exact Bool.or_eq_false_iff.mpr ⟨untagged, rfl⟩
  | some other => exact untagged

theorem Parallel.expectClose : Parallel w id expectClose expectClose := by
  have alone : (Pure.pure () >>= fun _ => Grammar.expectClose >>= fun _ => Pure.pure ()) = Grammar.expectClose := by
    rw [pure_bind]
    exact bind_pure_unit
  have start (w : Fork) : Parallel w id (Pure.pure ()) (Pure.pure ()) := .pure rfl
  have both : Parallel w id (Pure.pure () >>= fun _ => Grammar.expectClose >>= fun _ => Pure.pure ())
      (Pure.pure () >>= fun _ => Grammar.expectClose >>= fun _ => Pure.pure ()) :=
    .closed (fun w _ => start w) fun _ _ _ => .pure rfl
  rwa [alone] at both

/-- **What a stretch is read into does not depend on what is behind it**, but for its places. -/
theorem Reads.beside (level : w.Level) {part : Part} (h : Reads part c c') : part.Plain w → w.behind <:+ c'.rest →
    ∀ d, w.At c d → part.Beside w d c' := by
  induction h with
  | done last ih =>
    intro _ within d at_
    obtain ⟨e', d', reads, same, at'⟩ := ih ⟨rfl, .inr rfl⟩ within d at_
    exact ⟨[], e', d', .done reads, rfl, same, at'⟩
  | more first rest ih ih' =>
    intro plain within d at_
    obtain ⟨one, others⟩ := plain.split (.next _ _ (.node _ _)) (.nodes _ _ _ _ _) rfl
    obtain ⟨n', d₁, reads, same, at₁⟩ := ih one (rest.ahead.within within) d at_
    obtain ⟨body', e', d', reads', alike, last, at'⟩ := ih' others within d₁ at₁
    exact ⟨n' :: body', e', d', .more reads reads', by rw [Node.unplacedAll, same, alike, Node.unplacedAll], last, at'⟩
  | source lead => exact fun _ _ d at_ => ⟨_, d, .source ((level.lead _ _ _ _ (.inl at_)).trans lead), rfl, at_⟩
  | mark lead opens closes =>
    intro _ within d at_
    obtain ⟨opens', at₁⟩ := opening_beside at_ opens (.of_expectClose closes within)
    obtain ⟨_, d', closes', -, at'⟩ := Parallel.expectClose.both _ _ _ _ at₁ closes within
    refine ⟨_, d', .mark ((level.lead _ _ _ _ (.inl at_)).trans lead) opens' closes', ?_, at'⟩
    rcases openingAt_ending opens with rfl | rfl | rfl <;> rfl
  | close lead closes =>
    intro _ within d at_
    obtain ⟨span', d', closes', -, at'⟩ := (Parallel.readClosing _).both _ _ _ _ at_ closes within
    exact ⟨_, d', .close ((level.lead _ _ _ _ (.inl at_)).trans lead) closes', rfl, at'⟩
  | block lead opens reads ih =>
    intro plain within d at_
    obtain ⟨opens', at₁⟩ := opening_beside at_ opens (.of_block reads within)
    obtain ⟨n', d', reads', same, at'⟩ := ih ⟨plain.bare, plain.tags⟩ within _ at₁ d.offset
    exact ⟨n', d', .block ((level.lead _ _ _ _ (.inl at_)).trans lead) opens' reads', same, at'⟩
  | value lead opens reads =>
    intro _ within d at_
    obtain ⟨opens', at₁⟩ := opening_beside at_ opens (.of_interpolation reads within)
    obtain ⟨n', d', reads', same, at'⟩ := (Parallel.readInterpolation _ d.offset).both _ _ _ _ at₁ reads within
    exact ⟨n', d', .value ((level.lead _ _ _ _ (.inl at_)).trans lead) opens' reads', same.symm, at'⟩
  | comment lead reads =>
    intro _ within d at_
    obtain ⟨n', d', reads', same, at'⟩ := (Parallel.readComment _ _).both _ _ _ _ at_ reads within
    exact ⟨n', d', .comment ((level.lead _ _ _ _ (.inl at_)).trans lead) reads', same.symm, at'⟩
  | tag lead reads ih =>
    intro plain within d at_
    obtain ⟨n', d', reads', same, at'⟩ := ih ⟨plain.bare, plain.tags⟩ within d at_
    exact ⟨n', d', .tag ((level.lead _ _ _ _ (.inl at_)).trans lead) reads', same, at'⟩
  | header lead reads =>
    obtain ⟨data, rfl, -⟩ := readHeader_gives reads
    intro plain
    cases plain.bare
  | text lead reads =>
    intro _ within d at_
    obtain ⟨⟨n', met⟩, d', reads', same, at'⟩ := (level.text _).both _ _ _ _ at_ reads within
    obtain ⟨same, rfl⟩ := Prod.mk.inj same
    exact ⟨n', d', .text ((level.lead _ _ _ _ (.inl at_)).trans lead) reads', same.symm, at'⟩
  | choice head reads ih =>
    intro plain within d at_ start
    obtain ⟨test', d₁, head', same, at₁⟩ := Parallel.readChoiceHead.both _ _ _ _ at_ head (reads.ahead.within within)
    obtain ⟨body', otherwise', d', reads', alike, others, at'⟩ := ih plain.choice within d₁ at₁
    exact ⟨_, d', .choice head' reads', by rw [Node.unplaced_choice, Node.unplaced_choice, ← same, alike, others], at'⟩
  | @loop _ _ _ _ _ _ _ _ head heads reads ih =>
    intro plain within d at_ start
    obtain ⟨head', d₁, heads', same, at₁⟩ := Parallel.readLoopHead.both _ _ _ _ at_ heads (reads.ahead.within within)
    obtain ⟨body', otherwise', d', reads', alike, others, at'⟩ := ih plain.loop within d₁ at₁
    obtain ⟨item, index, items⟩ : head'.item.unplaced = head.item.unplaced ∧
        head'.index.map .unplaced = head.index.map Binding.unplaced ∧ head'.items.unplaced = head.items.unplaced := by
      cases head
      cases head'
      obtain ⟨a, b, c⟩ := LoopHead.mk.inj same
      exact ⟨a.symm, b.symm, c.symm⟩
    exact ⟨_, d', .loop heads' reads',
      by rw [Node.unplaced_loop, Node.unplaced_loop, item, index, items, alike, others], at'⟩
  | single reads ends ih =>
    intro plain within d at_
    obtain ⟨body', e', d', reads', alike, last, at'⟩ :=
      ih (plain.split (.nodes _ _ _ _ _) (.next false ⟨false, false⟩ (.ending .source)) rfl).1 within d at_
    refine ⟨body', none, d', .single reads' ?_, alike, rfl, at'⟩
    rw [← Ending.endedBy_unplaced, last, Ending.endedBy_unplaced]
    exact ends
  | double reads others ends ih ih' =>
    intro plain within d at_
    obtain ⟨one, second⟩ := plain.split (.nodes _ _ _ _ _) (.nodes _ _ _ _ _) rfl
    obtain ⟨body', e₁, d₁, reads', alike, middle, at₁⟩ := ih one (others.ahead.within within) d at_
    obtain ⟨other', e', d', others', alike', last, at'⟩ := ih' second within d₁ at₁
    obtain ⟨span', rfl⟩ : ∃ span', e₁ = .elseMark span' := by
      cases e₁ <;> cases middle
      exact ⟨_, rfl⟩
    refine ⟨body', some other', d', .double reads' others' ?_, alike, congrArg some alike', at'⟩
    rw [← Ending.endedBy_unplaced, last, Ending.endedBy_unplaced]
    exact ends
  | alone head =>
    -- A tag may go on behind the stretch, so there are none unless nothing is behind it.
    intro plain within d at_
    obtain rfl : w = Fork.ends := plain.tags.resolve_right (by rintro ⟨⟩)
    obtain ⟨attributes', d', head', alike, at'⟩ := head.beside at_
    exact ⟨_, d', .alone head', by rw [Node.unplaced, alike, Node.unplaced], at'⟩
  | around head reads ih =>
    intro plain within d at_
    obtain rfl : w = Fork.ends := plain.tags.resolve_right (by rintro ⟨⟩)
    obtain ⟨attributes', d₁, head', alike, at₁⟩ := head.beside at_
    obtain ⟨body', e', d', reads', same, last, at'⟩ :=
      ih ⟨(Bool.or_eq_false_iff.mp plain.bare).1, .inl rfl⟩ within d₁ at₁
    obtain ⟨span', rfl⟩ : ∃ span', e' = .close _ span' := by
      cases e' <;> cases last
      exact ⟨_, rfl⟩
    exact ⟨_, d', .around head' reads', by rw [Node.unplaced, alike, same, Node.unplaced], at'⟩

end Grammar
end PromptScript
