import PromptScript.Proofs.Headers
import PromptScript.Proofs.Letters
import PromptScript.Proofs.Onward
import PromptScript.Proofs.Splices

/-! # Texts under headers

What a text is read into does not change when a header is put before it, but for one thing: where a text node that is the
first to have content starts with the mark of a header, the reading refuses it as a second one. -/
namespace PromptScript

/-! ## The first text with content -/

namespace Node

mutual

/-- The texts of a node in the order of the document, those of attributes apart, each with the offset where it starts. -/
def texts : Node → List (Nat × String)
  | text span data _ => [(span.start, data)]
  | comment _ _ _ | config _ _ _ | interpolation _ _ _ => []
  | choice _ _ body none _ | loop _ _ _ _ body none _ | element _ _ _ body _ | group _ body _ => textsAll body
  | choice _ _ body (some other) _ | loop _ _ _ _ body (some other) _ => textsAll body ++ textsAll other

def textsAll : List Node → List (Nat × String)
  | [] => []
  | n :: r => texts n ++ textsAll r

end

theorem textsAll_append (a b : List Node) : textsAll (a ++ b) = textsAll a ++ textsAll b := by
  induction a with
  | nil => rfl
  | cons n r ih => rw [List.cons_append, textsAll, textsAll, ih, List.append_assoc]

/-- Where the first text starts that is not blank. -/
def content? (nodes : List Node) : Option Nat :=
  ((textsAll nodes).find? fun text => !Text.allBlank text.2.toList).map Prod.fst

theorem content?_append (a b : List Node) : content? (a ++ b) = (content? a).or (content? b) := by
  unfold content?
  rw [textsAll_append, List.find?_append, Option.map_or]

theorem content?_of_texts {n : Node} {nodes : List Node} (same : n.texts = textsAll nodes) : content? [n] = content? nodes := by
  unfold content?
  rw [textsAll, textsAll, List.append_nil, same]

theorem content?_text (span : Span) (data : List Char) (p : Option Progress) :
    content? [.text span (String.ofList data) p] = if Text.allBlank data then none else some span.start := by
  have first : content? [.text span (String.ofList data) p] =
      Option.map Prod.fst
        (if !Text.allBlank (String.ofList data).toList then some (span.start, String.ofList data) else none) := by
    unfold content? textsAll texts
    rw [textsAll, List.append_nil, List.find?_singleton]
  rw [first, String.toList_ofList]
  cases Text.allBlank data <;> rfl

/-- What is in a choice. -/
theorem choice_parts (span : Span) (test : Expr) (body : List Node) (otherwise : Option (List Node)) (p : Option Progress) :
    texts (.choice span test body otherwise p) = textsAll (body ++ otherwise.getD []) ∧
      headedAll [.choice span test body otherwise p] = headedAll (body ++ otherwise.getD []) := by
  rw [textsAll_append, headedAll_append, headedAll, headedAll, Bool.or_false]
  cases otherwise with
  | none => exact ⟨(List.append_nil _).symm, (Bool.or_false _).symm⟩
  | some other => exact ⟨rfl, rfl⟩

theorem loop_parts (span : Span) (items : Expr) (item : Binding) (index : Option Binding) (body : List Node)
    (otherwise : Option (List Node)) (p : Option Progress) :
    texts (.loop span items item index body otherwise p) = textsAll (body ++ otherwise.getD []) ∧
      headedAll [.loop span items item index body otherwise p] = headedAll (body ++ otherwise.getD []) := by
  rw [textsAll_append, headedAll_append, headedAll, headedAll, Bool.or_false]
  cases otherwise with
  | none => exact ⟨(List.append_nil _).symm, (Bool.or_false _).symm⟩
  | some other => exact ⟨rfl, rfl⟩

/-- The first text with content, if the source has the mark of a header there. -/
def marked? (source : List Char) (nodes : List Node) : Option Nat :=
  (content? nodes).filter fun o => Grammar.atHeaderMark (Text.dropBytes o source)

end Node

namespace Grammar

variable {α β : Type} {source : List Char} {k : Nat} {c c' c₁ c₂ : Cursor}

/-- The nodes of what is read. -/
def Part.body : Part → List Node
  | .nodes _ _ body _ _ => body
  | .next _ _ (.node n _) | .block _ _ _ n _ | .element _ _ n _ => [n]
  | .next _ _ (.ending _) => []
  | .branches _ _ body otherwise _ => body ++ otherwise.getD []

/-- What is known of the document before what is read. -/
def Part.before : Part → Seen
  | .nodes _ seen _ _ _ | .next _ seen _ | .block _ _ seen _ _ | .branches _ seen _ _ _ | .element _ seen _ _ => seen

/-- What is known of the document after it. -/
def Part.after : Part → Seen
  | .nodes _ _ _ _ seen | .next _ _ (.node _ seen) | .block _ _ _ _ seen | .branches _ _ _ _ seen | .element _ _ _ seen
  | .next _ seen (.ending _) => seen

theorem content_of_readText {content content' : Bool} {node : Node} (h : Gives (readText content) c (node, content') c') :
    ∃ data : List Char, node = .text ⟨c.offset, c'.offset⟩ (String.ofList data) none ∧
      data = (scanText content .first true c.offset c.rest).1 ∧ content' = (content || !Text.allBlank data) := by
  obtain ⟨same, rfl⟩ := gives_readText.mp h
  cases same
  exact ⟨_, rfl, rfl, rfl⟩

/-- What a reading knows of the document: the content that has been met, and the header. -/
theorem Reads.known {part : Part} (h : Reads part c c') :
    part.after.content = (part.before.content || (Node.content? part.body).isSome) ∧
      (Node.headedAll part.body = false → part.after.header = part.before.header) := by
  induction h with
  | done | source | mark | close => exact ⟨(Bool.or_false _).symm, fun _ => rfl⟩
  | @more root seen seen₁ seen₂ n r _ _ _ _ _ _ ih ih' =>
    refine ⟨?_, fun bare => ?_⟩
    · show seen₂.content = (seen.content || (Node.content? ([n] ++ r)).isSome)
      rw [Node.content?_append, Option.isSome_or, ← Bool.or_assoc]
      exact ih'.1.trans (congrArg (· || _) ih.1)
    · obtain ⟨first, later⟩ := Bool.or_eq_false_iff.mp bare
      exact (ih'.2 later).trans (ih.2 (Bool.or_eq_false_iff.mpr ⟨first, rfl⟩))
  | block _ _ _ ih | tag _ _ ih => exact ih
  | value _ _ reads =>
    obtain ⟨e, rfl⟩ := readInterpolation_gives reads
    exact ⟨(Bool.or_false _).symm, fun _ => rfl⟩
  | comment _ reads =>
    obtain ⟨data, rfl, -⟩ := readComment_gives reads
    exact ⟨(Bool.or_false _).symm, fun _ => rfl⟩
  | header _ reads =>
    obtain ⟨data, rfl, -⟩ := readHeader_gives reads
    exact ⟨(Bool.or_false _).symm, nofun⟩
  | @text root seen _ _ _ _ _ reads =>
    obtain ⟨data, rfl, -, rfl⟩ := content_of_readText reads
    refine ⟨?_, fun _ => rfl⟩
    show (seen.content || !Text.allBlank data) = (seen.content || (Node.content? [.text _ (String.ofList data) none]).isSome)
    rw [Node.content?_text]
    cases Text.allBlank data <;> rfl
  | @choice start _ _ test body otherwise _ _ c' _ _ ih =>
    obtain ⟨texts, headed⟩ := Node.choice_parts ⟨start, c'.offset⟩ test body otherwise none
    rw [Part.body, Node.content?_of_texts texts, headed]
    exact ih
  | @loop start _ _ body otherwise _ _ c' head _ _ ih =>
    obtain ⟨texts, headed⟩ := Node.loop_parts ⟨start, c'.offset⟩ head.items head.item head.index body otherwise none
    rw [Part.body, Node.content?_of_texts texts, headed]
    exact ih
  | single _ _ ih =>
    rw [Part.body, Option.getD_none, List.append_nil]
    exact ih
  | @double _ seen seen₁ seen₂ body other _ _ _ _ _ _ _ _ ih ih' =>
    rw [Part.body, Option.getD_some, Node.content?_append, Option.isSome_or, Node.headedAll_append, ← Bool.or_assoc]
    refine ⟨ih'.1.trans (congrArg (· || _) ih.1), fun bare => ?_⟩
    obtain ⟨first, later⟩ := Bool.or_eq_false_iff.mp bare
    exact (ih'.2 later).trans (ih.2 first)
  | alone => exact ⟨(Bool.or_false _).symm, fun _ => rfl⟩
  | around _ _ ih =>
    refine ⟨?_, fun bare => ih.2 ?_⟩
    · rw [Part.body, Node.content?_of_texts rfl]
      exact ih.1
    · rwa [Part.body, Node.headedAll, Node.headedAll, Bool.or_false] at bare

/-! ## Reading again under a header -/

/-- The mark of a header counts as one more header. -/
def secondHeader (o : Nat) : Fault := ⟨.configAlreadyDeclared, ⟨o, o + 3⟩⟩

def Ending.shifted (k : Nat) : Ending → Ending
  | .source => .source
  | .elseMark span => .elseMark (span.shifted k)
  | .endIf span => .endIf (span.shifted k)
  | .endFor span => .endFor (span.shifted k)
  | .close tag span => .close tag (span.shifted k)

theorem Ending.endedBy_shifted (k : Nat) (b : Block) (e : Ending) : b.endedBy (e.shifted k) = b.endedBy e := by
  cases b <;> cases e <;> rfl

/-- What a reading knows if a header has been read before. -/
def Seen.headed (seen : Seen) : Seen := { seen with header := true }

/-- The text of nodes that is refused under a header. -/
def refused? (source : List Char) (seen : Seen) (nodes : List Node) : Option Nat :=
  if seen.content then none else Node.marked? source nodes

/-- What becomes of a reading under a header. -/
def underHeader (source : List Char) (k : Nat) (seen : Seen) (nodes : List Node) (a : α) (c : Cursor) :
    Except Fault (α × Cursor) :=
  match refused? source seen nodes with
  | some o => .error (secondHeader (o + k))
  | none => .ok (a, c.onward k)

theorem refused?_append {seen seen' : Seen} {a : List Node} (known : seen'.content = (seen.content || (Node.content? a).isSome))
    (b : List Node) : refused? source seen (a ++ b) = (refused? source seen a).or (refused? source seen' b) := by
  unfold refused? Node.marked?
  rw [Node.content?_append, known]
  cases seen.content with
  | true => rfl
  | false => cases Node.content? a <;> simp

/-- After a reading, one that goes on from there. -/
theorem run_underHeader_bind {seen seen' : Seen} {nodes nodes' : List Node} {x : Reading α} {f : α → Reading β} {a : α} {b : β}
    (known : seen'.content = (seen.content || (Node.content? nodes).isSome))
    (first : x.run c = underHeader source k seen nodes a c₁)
    (rest : (f a).run (c₁.onward k) = underHeader source k seen' nodes' b c₂) :
    (x >>= f).run c = underHeader source k seen (nodes ++ nodes') b c₂ := by
  show (x.run c >>= fun p => (f p.1).run p.2) = _
  unfold underHeader at first rest ⊢
  rw [first, refused?_append known]
  cases refused? source seen nodes with
  | some o => rfl
  | none => exact rest

/-- After a reading, one that nothing can refuse. -/
theorem run_underHeader_map {seen : Seen} {nodes : List Node} {x : Reading α} {f : α → Reading β} {a : α} {b : β}
    (first : x.run c = underHeader source k seen nodes a c₁) (rest : Gives (f a) (c₁.onward k) b (c₂.onward k)) :
    (x >>= f).run c = underHeader source k seen nodes b c₂ := by
  show (x.run c >>= fun p => (f p.1).run p.2) = _
  unfold underHeader at first ⊢
  rw [first]
  cases refused? source seen nodes with
  | some o => rfl
  | none => exact rest

theorem run_bind_gives {x : Reading α} {f : α → Reading β} {a : α} {out : Except Fault (β × Cursor)}
    (first : Gives x c a c₁) (rest : (f a).run c₁ = out) : (x >>= f).run c = out := by
  show (x.run c >>= fun p => (f p.1).run p.2) = _
  rw [show x.run c = .ok (a, c₁) from first]
  exact rest

theorem run_skip {n : Nat} {f : Unit → Reading β} {out : Except Fault (β × Cursor)}
    (rest : (f ()).run ((c.skip n).onward k) = out) : (skip n >>= f).run (c.onward k) = out :=
  run_bind_gives (a := ()) (gives_skip.mpr (Cursor.skip_onward ..)) rest

/-- From some bound on, a reading has an outcome. -/
def Runs (read : Nat → Reading α) (c : Cursor) (out : Except Fault (α × Cursor)) : Prop :=
  ∃ n, ∀ m, n ≤ m → (read m).run c = out

theorem Runs.succ {read : Nat → Reading α} {out : Except Fault (α × Cursor)} (n : Nat)
    (h : ∀ m, n ≤ m → (read (m + 1)).run c = out) : Runs read c out := by
  refine ⟨n + 1, fun m le => ?_⟩
  obtain ⟨m, rfl⟩ : ∃ j, m = j + 1 := ⟨m - 1, by omega⟩
  exact h m (Nat.le_of_succ_le_succ le)

/-- What is read again under a header. -/
def Part.Again (source : List Char) (k : Nat) : Part → Cursor → Cursor → Prop
  | .nodes root seen body e seen', c, c' => Runs (readNodes · root seen.headed) (c.onward k)
      (underHeader source k seen body (Node.shiftedAll k body, e.shifted k, seen'.headed) c')
  | .next root seen (.node n seen'), c, c' => Runs (readNext · root seen.headed) (c.onward k)
      (underHeader source k seen [n] (.node (n.shifted k) seen'.headed) c')
  | .next root seen (.ending e), c, c' => Runs (readNext · root seen.headed) (c.onward k)
      (underHeader source k seen [] (.ending (e.shifted k)) c')
  | .block b start seen n seen', c, c' => Runs (readBlock · b (start + k) seen.headed) (c.onward k)
      (underHeader source k seen [n] (n.shifted k, seen'.headed) c')
  | .branches b seen body otherwise seen', c, c' => ∀ start, Runs (readBranches · b start seen.headed) (c.onward k)
      (underHeader source k seen (body ++ otherwise.getD [])
        (Node.shiftedAll k body, otherwise.map (Node.shiftedAll k), seen'.headed) c')
  | .element tag seen n seen', c, c' => Runs (readElement · tag seen.headed) (c.onward k)
      (underHeader source k seen [n] (n.shifted k, seen'.headed) c')

/-- Under a header, the mark of a header stands for another one, where it would be read as a header or a text. -/
theorem leadOf_headed (root : Bool) {seen : Seen} (fresh : seen.header = false) (text : List Char) :
    leadOf root seen.headed text = match leadOf root seen text with
      | .header => .secondHeader
      | .text => if atHeaderMark text && !seen.content then .secondHeader else .text
      | lead => lead := by
  unfold leadOf Seen.headed
  dsimp only
  rw [fresh]
  by_cases empty : text = []
  · rw [if_pos empty, if_pos empty]
  by_cases braces : Text.startsWith ['\x7b', '\x7b'] text = true
  · rw [if_neg empty, if_pos braces, if_neg empty, if_pos braces]
  by_cases starred : Text.startsWith ['/', '*'] text = true
  · rw [if_neg empty, if_neg braces, if_pos starred, if_neg empty, if_neg braces, if_pos starred]
  by_cases arrow : Text.startsWith "<!--".toList text = true
  · rw [if_neg empty, if_neg braces, if_neg starred, if_pos arrow, if_neg empty, if_neg braces, if_neg starred, if_pos arrow]
  rw [if_neg empty, if_neg braces, if_neg starred, if_neg arrow, if_neg empty, if_neg braces, if_neg starred, if_neg arrow]
  match tagMarkAt? text with
  | some (tag, true) | some (tag, false) => rfl
  | none => cases atHeaderMark text <;> cases root <;> cases seen.content <;> rfl

theorem leadOf_headed_of_eq {root : Bool} {seen : Seen} {text : List Char} {lead : Lead} (fresh : seen.header = false)
    (here : leadOf root seen text = lead) (other : lead ≠ .header ∧ lead ≠ .text) : leadOf root seen.headed text = lead := by
  rw [leadOf_headed root fresh, here]
  cases lead with
  | header => exact (other.1 rfl).elim
  | text => exact (other.2 rfl).elim
  | _ => rfl

/-- Reads what opens after two braces. -/
def readOpened (fuel start : Nat) (seen : Seen) : Opening → Reading Next
  | .ending e => do
    expectClose
    return .ending (e ⟨start, ← offset⟩)
  | .block block => do
    let (node, seen) ← readBlock fuel block start seen
    return .node node seen
  | .value => return .node (← readInterpolation start) seen

/-- Reads what stands at a lead. -/
def readLead (fuel start : Nat) (seen : Seen) : Lead → Reading Next
  | .nothing => return .ending .source
  | .braces => do
    skip 2
    skipSpaces
    let (opening, length) := openingAt (← rest)
    skip length
    readOpened fuel start seen opening
  | .comment opening closing => return .node (← readComment opening closing) seen
  | .close tag => return .ending (.close tag (← readClosing tag))
  | .tag tag => do
    let (node, seen) ← readElement fuel tag seen
    return .node node seen
  | .secondHeader => failAt .configAlreadyDeclared ⟨start, start + 3⟩
  | .header => return .node (← readHeader) { seen with header := true }
  | .text => do
    let (node, content) ← readText seen.content
    return .node node { seen with content := content }

theorem readNext_succ (fuel : Nat) (root : Bool) (seen : Seen) : readNext (fuel + 1) root seen = (do
    let start ← offset
    readLead fuel start seen (leadOf root seen (← rest))) := by
  refine congrArg (offset >>= ·) (funext fun start => congrArg (rest >>= ·) (funext fun text => ?_))
  cases leadOf root seen text with
  | braces =>
    refine congrArg (skip 2 >>= ·) (funext fun _ => congrArg (skipSpaces >>= ·) (funext fun _ => ?_))
    refine congrArg (rest >>= ·) (funext fun text => ?_)
    obtain ⟨opening, length⟩ := openingAt text
    cases opening <;> rfl
  | _ => rfl

theorem run_readNext {fuel : Nat} {root : Bool} {seen : Seen} {lead : Lead} {out : Except Fault (Next × Cursor)}
    (here : leadOf root seen c.rest = lead) (rest : (readLead fuel c.offset seen lead).run c = out) :
    (readNext (fuel + 1) root seen).run c = out := by
  rw [readNext_succ]
  refine run_bind_gives (gives_offset.mpr ⟨rfl, rfl⟩) (run_bind_gives (gives_rest.mpr ⟨rfl, rfl⟩) ?_)
  rw [here]
  exact rest

theorem run_braces {fuel start length : Nat} {seen : Seen} {opening : Opening} {out : Except Fault (Next × Cursor)}
    (opens : openingAt (afterBraces c).rest = (opening, length))
    (rest : (readOpened fuel start seen opening).run (((afterBraces c).skip length).onward k) = out) :
    (readLead fuel start seen .braces).run (c.onward k) = out := by
  refine run_skip (run_bind_gives (a := ()) (gives_skipSpaces.mpr (Cursor.skipWhile_onward ..)) ?_)
  refine run_bind_gives (gives_rest.mpr ⟨rfl, rfl⟩) ?_
  rw [show openingAt (((c.skip 2).skipWhile isSpace).onward k).rest = (opening, length) from opens]
  exact run_skip rest

theorem underHeader_texts {seen : Seen} {nodes nodes' : List Node} (same : Node.content? nodes = Node.content? nodes') (a : α)
    (c : Cursor) : underHeader source k seen nodes a c = underHeader source k seen nodes' a c := by
  unfold underHeader refused? Node.marked?
  rw [same]

/-- Where nothing is refused. -/
theorem underHeader_nothing {seen : Seen} {nodes : List Node} (nothing : Node.content? nodes = none) (a : α) (c : Cursor) :
    underHeader source k seen nodes a c = .ok (a, c.onward k) := by
  unfold underHeader refused? Node.marked?
  rw [nothing]
  cases seen.content <;> rfl

theorem dropBytes_of_ahead (on : (Cursor.start source).Ahead c) : Text.dropBytes c.offset source = c.rest := by
  obtain ⟨read, rest, offset⟩ := on
  rw [offset, show source = read ++ c.rest from rest, show (Cursor.start (read ++ c.rest)).offset = 0 from rfl, Nat.zero_add]
  exact Text.dropBytes_append ..

/-- The dashes of a header's mark are content. -/
theorem allBlank_scanText {content : Bool} {o : Nat} {text : List Char} (mark : atHeaderMark text = true) :
    Text.allBlank (scanText content .first true o text).1 = false := by
  obtain ⟨r, rfl⟩ := atHeaderMark_eq mark
  rfl

/-- The first text to have content is refused just if it starts with a mark. -/
theorem refused?_text {seen : Seen} (on : (Cursor.start source).Ahead c) (stop : Nat) (content : Bool) :
    refused? source seen
        [.text ⟨c.offset, stop⟩ (String.ofList (scanText content .first true c.offset c.rest).1) none] =
      if atHeaderMark c.rest && !seen.content then some c.offset else none := by
  unfold refused? Node.marked?
  rw [Node.content?_text]
  cases seen.content with
  | true => rw [Bool.not_true, Bool.and_false]; rfl
  | false =>
    cases mark : atHeaderMark c.rest with
    | true =>
      rw [allBlank_scanText mark]
      simp [dropBytes_of_ahead on, mark]
    | false => split <;> simp [dropBytes_of_ahead on, mark]

theorem Reads.again {part : Part} (h : Reads part c c') (on : (Cursor.start source).Ahead c)
    (fresh : part.before.header = false) (bare : Node.headedAll part.body = false) : part.Again source k c c' := by
  induction h with
  | done last ih =>
    obtain ⟨n, ih⟩ := ih on fresh rfl
    refine .succ n fun m le => run_underHeader_map (ih m le) ?_
    exact gives_pure.mpr ⟨rfl, rfl⟩
  | @more root seen seen₁ seen₂ node r _ _ _ _ first rest ih ih' =>
    obtain ⟨bare, bare'⟩ := Bool.or_eq_false_iff.mp bare
    have alone : Node.headedAll [node] = false := Bool.or_eq_false_iff.mpr ⟨bare, rfl⟩
    obtain ⟨n, ih⟩ := ih on fresh alone
    -- What the later nodes are read with knows of the content of the first.
    obtain ⟨n', ih'⟩ := ih' (on.trans first.ahead) ((first.known.2 alone).trans fresh) bare'
    refine .succ (n + n') fun m le => ?_
    refine run_underHeader_bind first.known.1 (ih m (by omega)) ?_
    exact run_underHeader_map (ih' m (by omega)) (gives_pure.mpr ⟨rfl, rfl⟩)
  | source lead =>
    refine .succ 0 fun m _ => run_readNext (leadOf_headed_of_eq fresh lead ⟨nofun, nofun⟩) ?_
    rw [underHeader_nothing rfl]
    rfl
  | mark lead opens closes =>
    refine .succ 0 fun m _ => run_readNext (leadOf_headed_of_eq fresh lead ⟨nofun, nofun⟩) (run_braces opens ?_)
    rw [underHeader_nothing rfl]
    refine run_bind_gives (Onward.expectClose _ _ _ closes) (run_bind_gives (gives_offset.mpr ⟨rfl, rfl⟩) ?_)
    rcases openingAt_ending opens with rfl | rfl | rfl <;> rfl
  | close lead closes =>
    refine .succ 0 fun m _ => run_readNext (leadOf_headed_of_eq fresh lead ⟨nofun, nofun⟩) ?_
    rw [underHeader_nothing rfl]
    exact run_bind_gives (Onward.readClosing _ _ _ _ closes) rfl
  | block lead opens _ ih =>
    obtain ⟨n, ih⟩ := ih (on.trans (ahead_afterBraces ..)) fresh bare
    refine .succ n fun m le => run_readNext (leadOf_headed_of_eq fresh lead ⟨nofun, nofun⟩) (run_braces opens ?_)
    exact run_underHeader_map (ih m le) (gives_pure.mpr ⟨rfl, rfl⟩)
  | value lead opens reads =>
    refine .succ 0 fun m _ => run_readNext (leadOf_headed_of_eq fresh lead ⟨nofun, nofun⟩) (run_braces opens ?_)
    have moved := Onward.readInterpolation (k := k) _ _ _ _ reads
    obtain ⟨e, rfl⟩ := readInterpolation_gives reads
    rw [underHeader_nothing rfl]
    exact run_bind_gives moved rfl
  | comment lead reads =>
    refine .succ 0 fun m _ => run_readNext (leadOf_headed_of_eq fresh lead ⟨nofun, nofun⟩) ?_
    have moved := Onward.readComment (k := k) _ _ _ _ _ reads
    obtain ⟨data, rfl, -⟩ := readComment_gives reads
    rw [underHeader_nothing rfl]
    exact run_bind_gives moved rfl
  | tag lead _ ih =>
    obtain ⟨n, ih⟩ := ih on fresh bare
    refine .succ n fun m le => run_readNext (leadOf_headed_of_eq fresh lead ⟨nofun, nofun⟩) ?_
    exact run_underHeader_map (ih m le) (gives_pure.mpr ⟨rfl, rfl⟩)
  | header lead reads =>
    obtain ⟨data, rfl, -⟩ := readHeader_gives reads
    cases bare
  | @text root seen node content c c' lead reads =>
    have moved := Onward.readText (k := k) _ _ _ _ reads
    obtain ⟨_, rfl, rfl, rfl⟩ := content_of_readText reads
    have fresh : seen.header = false := fresh
    have headed : leadOf root seen.headed c.rest = if atHeaderMark c.rest && !seen.content then .secondHeader else .text := by
      rw [leadOf_headed root fresh, lead]
    refine .succ 0 fun m _ => run_readNext headed ?_
    unfold underHeader
    rw [refused?_text on]
    split
    · rfl
    · exact run_bind_gives moved rfl
  | @choice start seen seen' test body otherwise c c₁ c' head reads ih =>
    obtain ⟨texts, headed⟩ := Node.choice_parts ⟨start, c'.offset⟩ test body otherwise none
    obtain ⟨n, ih⟩ := ih (on.trans (Advances.readChoiceHead _ _ _ head)) fresh (headed ▸ bare) (start + k)
    refine .succ n fun m le => run_bind_gives (Onward.readChoiceHead _ _ _ head) ?_
    rw [underHeader_texts (Node.content?_of_texts texts)]
    refine run_underHeader_map (ih m le) (.offset (gives_pure.mpr ⟨?_, rfl⟩))
    cases otherwise <;> rfl
  | @loop start seen seen' body otherwise c c₁ c' head heads reads ih =>
    obtain ⟨texts, headed⟩ := Node.loop_parts ⟨start, c'.offset⟩ head.items head.item head.index body otherwise none
    obtain ⟨n, ih⟩ := ih (on.trans (Advances.readLoopHead _ _ _ heads)) fresh (headed ▸ bare) (start + k)
    refine .succ n fun m le => run_bind_gives (Onward.readLoopHead _ _ _ heads) ?_
    rw [underHeader_texts (Node.content?_of_texts texts)]
    refine run_underHeader_map (ih m le) (.offset (gives_pure.mpr ⟨?_, rfl⟩))
    cases otherwise <;> rfl
  | @single b seen seen' body e c c' reads ends ih =>
    rw [Part.body, Option.getD_none, List.append_nil] at bare
    obtain ⟨n, ih⟩ := ih on fresh bare
    refine fun start => .succ n fun m le => ?_
    rw [Option.getD_none, List.append_nil]
    refine run_underHeader_map (ih m le) ?_
    have ends' : b.endedBy (e.shifted k) = true := (Ending.endedBy_shifted k b e).trans ends
    cases e with
    | elseMark => cases b <;> cases ends
    | source | endIf | endFor | close =>
      show Gives (if b.endedBy _ then _ else _) _ _ _
      rw [if_pos ends']
      exact gives_pure.mpr ⟨rfl, rfl⟩
  | @double b seen seen₁ seen₂ body other span e c c₁ c' reads others ends ih ih' =>
    rw [Part.body, Option.getD_some, Node.headedAll_append, Bool.or_eq_false_iff] at bare
    obtain ⟨n, ih⟩ := ih on fresh bare.1
    obtain ⟨n', ih'⟩ := ih' (on.trans reads.ahead) ((reads.known.2 bare.1).trans fresh) bare.2
    refine fun start => .succ (n + n') fun m le => ?_
    refine run_underHeader_bind reads.known.1 (ih m (by omega)) (run_underHeader_map (ih' m (by omega)) ?_)
    show Gives (if b.endedBy (e.shifted k) then _ else _) _ _ _
    rw [if_pos ((Ending.endedBy_shifted k b e).trans ends)]
    exact gives_pure.mpr ⟨rfl, rfl⟩
  | @alone tag seen attributes c c' head =>
    refine .succ 0 fun m _ => ?_
    rw [underHeader_nothing rfl]
    refine run_bind_gives (gives_offset.mpr ⟨rfl, rfl⟩) (run_skip ?_)
    refine run_bind_gives (gives_rest.mpr ⟨rfl, rfl⟩) (run_bind_gives (Onward.readAttributes c.offset _ [] _ _ _ head) ?_)
    rfl
  | @around tag seen seen' attributes body span c c₁ c' head reads ih =>
    have inside : Node.headedAll body = false := by rwa [Part.body, Node.headedAll, Node.headedAll, Bool.or_false] at bare
    obtain ⟨n, ih⟩ := ih (on.trans head.ahead) fresh inside
    refine .succ n fun m le => ?_
    refine run_bind_gives (gives_offset.mpr ⟨rfl, rfl⟩) (run_skip ?_)
    refine run_bind_gives (gives_rest.mpr ⟨rfl, rfl⟩) (run_bind_gives (Onward.readAttributes c.offset _ [] _ _ _ head) ?_)
    rw [underHeader_texts (Node.content?_of_texts rfl)]
    refine run_underHeader_map (ih m le) ?_
    show Gives (if tag = tag then _ else _) _ _ _
    rw [if_pos rfl]
    exact .offset (gives_pure.mpr ⟨rfl, rfl⟩)

end Grammar
end PromptScript

/-! ## Headers before texts

A header is a text between two marks, each on a line of its own. It goes on to the first line that starts with a mark, so a
text no line of which starts so is all of it, and the reading comes to where it would have started without the header, with
the same text ahead. `Reads.again` tells what becomes of it from there on. -/
namespace PromptScript

namespace Grammar

variable {text first : List Char} {more : List (List Char)}

/-- A line ends where the next one starts. -/
theorem lines_cut (h : Text.lines text = first :: more) (rest : List Char) :
    ∃ behind, text ++ '\n' :: rest = first ++ '\n' :: behind := by
  induction text generalizing first more with
  | nil =>
    cases h
    exact ⟨rest, rfl⟩
  | cons c r ih =>
    obtain ⟨line, later, here, cons⟩ := Text.lines_cons c r
    rw [cons] at h
    split at h
    · next newline =>
      cases h
      subst newline
      exact ⟨_, rfl⟩
    · cases h
      obtain ⟨behind, same⟩ := ih here
      exact ⟨behind, congrArg (c :: ·) same⟩

/-- Whether a line starts with a mark does not depend on what is behind it: its first four characters decide. -/
theorem atHeaderMark_cut (line behind : List Char) : atHeaderMark (line ++ '\n' :: behind) = atHeaderMark line := by
  rcases line with _ | ⟨a, _ | ⟨b, _ | ⟨c, _ | ⟨d, r⟩⟩⟩⟩
  · rfl
  · by_cases ha : a = '-' <;> simp [atHeaderMark, ha]
  · by_cases ha : a = '-' <;> by_cases hb : b = '-' <;> simp [atHeaderMark, ha, hb]
  · by_cases ha : a = '-' <;> by_cases hb : b = '-' <;> by_cases hc : c = '-' <;> simp [atHeaderMark, ha, hb, hc]
  · by_cases ha : a = '-' <;> by_cases hb : b = '-' <;> by_cases hc : c = '-' <;> by_cases hd : d = '-' <;>
      simp [atHeaderMark, ha, hb, hc, hd]

/-- What a header is written as: a text between two marks, on lines of its own. -/
def headerText (y : List Char) : List Char := Node.headerMark ++ '\n' :: (y ++ '\n' :: Node.headerMark)

/-- What a header is read into. -/
def headerNode (y : List Char) : Node :=
  .config ⟨0, Text.byteLength (headerText y)⟩ (String.ofList ('\n' :: (y ++ ['\n']))) none

/-- A header goes on to the first line after it that starts with exactly three dashes. -/
theorem beforeHeaderMark?_lines {fresh : Bool} {y : List Char} (h : Text.lines y = first :: more)
    (here : fresh = true → atHeaderMark first = false) (free : ∀ line ∈ more, atHeaderMark line = false) (b : List Char) :
    beforeHeaderMark? fresh (y ++ '\n' :: (Node.headerMark ++ '\n' :: b)) = some (y ++ ['\n']) := by
  induction y generalizing fresh first more with
  | nil => cases fresh <;> rfl
  | cons c r ih =>
    obtain ⟨line, later, below, cons⟩ := Text.lines_cons c r
    have next : beforeHeaderMark? (c == '\n') (r ++ '\n' :: (Node.headerMark ++ '\n' :: b)) = some (r ++ ['\n']) := by
      rw [cons] at h
      split at h
      · cases h
        exact ih below (fun _ => free _ List.mem_cons_self) fun l there => free l (List.mem_cons_of_mem _ there)
      · next newline =>
        cases h
        exact ih below (fun starts => (newline (beq_iff_eq.mp starts)).elim) free
    have apart : ¬ (fresh && atHeaderMark (c :: (r ++ '\n' :: (Node.headerMark ++ '\n' :: b)))) = true := by
      intro mark
      obtain ⟨starts, mark⟩ := Bool.and_eq_true_iff.mp mark
      obtain ⟨behind, same⟩ := lines_cut h (Node.headerMark ++ '\n' :: b)
      rw [← List.cons_append, same, atHeaderMark_cut, here starts] at mark
      cases mark
    rw [List.cons_append, beforeHeaderMark?, if_neg apart, next]
    rfl

theorem gives_readHeader {y : List Char} (free : ∀ line ∈ Text.lines y, atHeaderMark line = false) (o : Nat) (b : List Char) :
    Gives readHeader ⟨o, headerText y ++ '\n' :: b⟩
      (.config ⟨o, o + Text.byteLength (headerText y)⟩ (String.ofList ('\n' :: (y ++ ['\n']))) none)
      ⟨o + Text.byteLength (headerText y), '\n' :: b⟩ := by
  obtain ⟨first, more, lines⟩ := Text.exists_lines_eq_cons y
  rw [lines] at free
  have data : beforeHeaderMark? false ('\n' :: (y ++ '\n' :: (Node.headerMark ++ '\n' :: b))) = some ('\n' :: (y ++ ['\n'])) := by
    rw [beforeHeaderMark?, Bool.false_and, if_neg Bool.false_ne_true]
    rw [show ('\n' == '\n') = true from rfl, beforeHeaderMark?_lines lines (fun _ => free _ List.mem_cons_self)
      (fun l there => free l (List.mem_cons_of_mem _ there)) b]
    rfl
  have whole : headerText y ++ '\n' :: b = Node.headerMark ++ '\n' :: (y ++ '\n' :: (Node.headerMark ++ '\n' :: b)) := by
    simp only [headerText, List.append_assoc, List.cons_append]
  have past : (⟨o, headerText y ++ '\n' :: b⟩ : Cursor).skip 3 =
      ⟨o + 3, '\n' :: (y ++ '\n' :: (Node.headerMark ++ '\n' :: b))⟩ := by
    rw [whole]
    exact Cursor.skip_append Node.headerMark _ o
  refine .offset (.bind (gives_sourceEnd.mpr ⟨rfl, rfl⟩) ?_)
  refine .skipTo past (.rest ?_)
  dsimp only
  rw [data]
  have last : (⟨o + 3, '\n' :: (y ++ '\n' :: (Node.headerMark ++ '\n' :: b))⟩ : Cursor).skip
      (('\n' :: (y ++ ['\n'])).length + 3) = ⟨o + Text.byteLength (headerText y), '\n' :: b⟩ := by
    have skips := Cursor.skip_append ('\n' :: (y ++ ['\n']) ++ Node.headerMark) ('\n' :: b) (o + 3)
    have length : Text.byteLength (headerText y) = 3 + Text.byteLength ('\n' :: (y ++ ['\n']) ++ Node.headerMark) := by
      unfold headerText
      rw [Text.byteLength_append, List.cons_append, List.append_assoc]
      rfl
    rw [List.length_append] at skips
    simp only [List.append_assoc, List.cons_append, List.nil_append] at skips length ⊢
    rw [length, ← Nat.add_assoc]
    exact skips
  exact .skipTo last (.offset (gives_pure.mpr ⟨rfl, rfl⟩))

/-- The first step of the reading takes the header; the others are those of the rest, under a header. -/
theorem run_readNodes_headed {b y : List Char} {body : List Node} {e : Ending} {seen : Seen} {c : Cursor}
    (reads : Reads (.nodes true ⟨false, false⟩ body e seen) (.start ('\n' :: b)) c) (bare : Node.headedAll body = false)
    (free : ∀ line ∈ Text.lines y, atHeaderMark line = false) :
    (readNodes (4 * ((headerText y ++ '\n' :: b).length + 1)) true ⟨false, false⟩).run (.start (headerText y ++ '\n' :: b)) =
      underHeader ('\n' :: b) (Text.byteLength (headerText y)) ⟨false, false⟩ body
        (headerNode y :: Node.shiftedAll (Text.byteLength (headerText y)) body,
          e.shifted (Text.byteLength (headerText y)), seen.headed) c := by
  obtain ⟨n, again⟩ := reads.again (k := Text.byteLength (headerText y)) (.refl _) rfl bare
  let source := headerText y ++ '\n' :: b
  have header (m : Nat) : (readNext (m + 1) true ⟨false, false⟩).run (.start source) =
      .ok (.node (headerNode y) ⟨true, false⟩, (Cursor.start ('\n' :: b)).onward (Text.byteLength (headerText y))) := by
    have reads := gives_readHeader free 0 b
    rw [show (⟨0, 0 + Text.byteLength (headerText y)⟩ : Span) = ⟨0, Text.byteLength (headerText y)⟩ by rw [Nat.zero_add]] at reads
    exact run_readNext rfl (run_bind_gives reads rfl)
  -- With more fuel the outcome is the same, and with enough of it there is some left for the rest.
  refine ((unbounded source).nodes (n + 4 * source.length + 3 + 1 + 1) (by omega)).symm.trans ?_
  exact run_bind_gives (header _) (run_underHeader_map (again _ (by omega)) (gives_pure.mpr ⟨rfl, rfl⟩))

end Grammar

open Grammar in
/-- **A header does not change how what follows it is read**, but that a text which is the first to have content is
refused if it starts with the mark of a header. -/
theorem Document.parse_headed {b y : List Char} {d : Document} (parsed : parse ('\n' :: b) = .ok d)
    (bare : Node.headedAll d.body = false) (free : ∀ line ∈ Text.lines y, atHeaderMark line = false) :
    parse (headerText y ++ '\n' :: b) = match Node.marked? ('\n' :: b) d.body with
      | none => .ok ⟨⟨0, d.span.stop + Text.byteLength (headerText y)⟩,
          headerNode y :: Node.shiftedAll (Text.byteLength (headerText y)) d.body, none⟩
      | some o => .error (.of (headerText y ++ '\n' :: b) (secondHeader (o + Text.byteLength (headerText y)))) := by
  obtain ⟨seen, c, reads, span, -⟩ := reads_of_parse parsed
  have whole : readDocument.run (.start (headerText y ++ '\n' :: b)) =
      underHeader ('\n' :: b) (Text.byteLength (headerText y)) ⟨false, false⟩ d.body
        ⟨⟨0, d.span.stop + Text.byteLength (headerText y)⟩,
          headerNode y :: Node.shiftedAll (Text.byteLength (headerText y)) d.body, none⟩ c := by
    refine run_bind_gives (gives_rest.mpr ⟨rfl, rfl⟩) (run_underHeader_map (run_readNodes_headed reads bare free) ?_)
    refine .offset (gives_pure.mpr ⟨?_, rfl⟩)
    rw [span]
    rfl
  unfold parse
  rw [whole]
  unfold underHeader
  rw [show refused? ('\n' :: b) ⟨false, false⟩ d.body = Node.marked? ('\n' :: b) d.body from rfl]
  cases Node.marked? ('\n' :: b) d.body <;> rfl

/-- Whether a text is read and has no header, and whether its first text with content starts with the mark of one. -/
theorem Document.exists_of_bare {b : List Char} {o : Option Nat}
    (h : (parse b).toOption.map (fun d => (Node.headedAll d.body, Node.marked? b d.body)) = some (false, o)) :
    ∃ d, parse b = .ok d ∧ Node.headedAll d.body = false ∧ Node.marked? b d.body = o := by
  cases parsed : parse b with
  | error _ =>
    rw [parsed] at h
    cases h
  | ok d =>
    rw [parsed] at h
    obtain ⟨bare, marked⟩ := Prod.mk.inj (Option.some.inj h)
    exact ⟨d, rfl, bare, marked⟩

/-- Dashes after the first content, in or outside of tags, stay text. -/
theorem Document.parse_headed_divided : ∃ d, parse "\n<user>hi ---</user>---".toList = .ok d ∧
    Node.headedAll d.body = false ∧ (∀ line ∈ Text.lines "a: 1".toList, Grammar.atHeaderMark line = false) ∧
    parse "---\na: 1\n---\n<user>hi ---</user>---".toList = .ok ⟨⟨0, d.span.stop + 12⟩,
      .config ⟨0, 12⟩ "\na: 1\n" none :: Node.shiftedAll 12 d.body, none⟩ := by
  obtain ⟨d, parsed, bare, unmarked⟩ :=
    exists_of_bare (b := "\n<user>hi ---</user>---".toList) (o := none) (by decide +kernel)
  have free : ∀ line ∈ Text.lines "a: 1".toList, Grammar.atHeaderMark line = false := by decide
  have headed := parse_headed (b := "<user>hi ---</user>---".toList) parsed bare free
  rw [show '\n' :: "<user>hi ---</user>---".toList = "\n<user>hi ---</user>---".toList by decide, unmarked,
    Grammar.headerNode, show Text.byteLength (Grammar.headerText "a: 1".toList) = 12 by decide,
    show String.ofList ('\n' :: ("a: 1".toList ++ ['\n'])) = "\na: 1\n" by decide] at headed
  rw [← show Grammar.headerText "a: 1".toList ++ "\n<user>hi ---</user>---".toList =
    "---\na: 1\n---\n<user>hi ---</user>---".toList by decide]
  exact ⟨d, parsed, bare, free, headed⟩

/-- Why and where a text is refused, if it is. -/
def Document.refusal? (source : List Char) : Option (Defect × Span) :=
  match parse source with
  | .ok _ => none
  | .error diagnostic => some (diagnostic.defect, diagnostic.span)

theorem Document.exists_of_refused {source : List Char} {defect : Defect} {span : Span}
    (h : refusal? source = some (defect, span)) :
    ∃ diagnostic, parse source = .error diagnostic ∧ diagnostic.defect = defect ∧ diagnostic.span = span := by
  unfold refusal? at h
  cases parsed : parse source with
  | ok _ =>
    rw [parsed] at h
    cases h
  | error diagnostic =>
    rw [parsed] at h
    obtain ⟨same, place⟩ := Prod.mk.inj (Option.some.inj h)
    exact ⟨diagnostic, rfl, same, place⟩

/-- The text of a tag before all content is refused if it is a mark, though without the header it is read. -/
theorem Document.nested_mark_refused :
    (∃ d, parse "\n<user>---</user>".toList = .ok d ∧ Node.headedAll d.body = false) ∧
    (∀ line ∈ Text.lines "a: 1".toList, Grammar.atHeaderMark line = false) ∧
    ∃ diagnostic, parse "---\na: 1\n---\n<user>---</user>".toList = .error diagnostic ∧
      diagnostic.defect = .configAlreadyDeclared ∧ diagnostic.span = ⟨19, 22⟩ := by
  obtain ⟨d, parsed, bare, -⟩ := exists_of_bare (b := "\n<user>---</user>".toList) (o := some 7) (by decide +kernel)
  refine ⟨⟨d, parsed, bare⟩, by decide, ?_⟩
  exact exists_of_refused (by decide +kernel)

end PromptScript
