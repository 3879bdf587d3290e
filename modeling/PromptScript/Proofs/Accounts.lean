import Mathlib.Data.List.Forall2
import PromptScript.Proofs.Acting
import PromptScript.Proofs.Letters

/-! # Accounts of passes

A pass that keeps a record of the pieces of text that it visits and of the items that it makes. At any point its
messages, the content that waits and the passage together account for the record (`PassState.Accounts`). `Records`
compares a part of a pass that keeps a record with its like that keeps none: they do the same, and after the part there
is an account again. -/
namespace PromptScript

variable {σ : Type} {α β : Type}

/-- What a pass has come by. -/
structure Record where
  /-- The pieces of text that it has visited; the mark tells of those in the body of a tool call. -/
  visited : List (Segment × Bool)
  /-- The items that it has made; the mark tells of those that are attachments. -/
  created : List (Content × Bool)

namespace Record

/-- The record before all. -/
def empty : Record := ⟨[], []⟩

/-- One more piece. -/
def visit (inCall : Bool) (segment : Segment) (r : Record) : Record :=
  { r with visited := r.visited ++ [(segment, inCall)] }

/-- One more item. -/
def create (attached : Bool) (item : Content) (r : Record) : Record :=
  { r with created := r.created ++ [(item, attached)] }

/-- All items. -/
def items (r : Record) : List Content := r.created.map Prod.fst

/-- The items that are made of text and tags. -/
def made (r : Record) : List Content := (r.created.filter fun c => !c.2).map Prod.fst

end Record

/-- The evaluator, beside a record. -/
def Evaluator.recorded (eval : Evaluator σ) : Evaluator (σ × Record) := fun e =>
  ExceptT.mk fun m =>
    let (result, m') := (eval e).run.run ⟨⟨m.fresh, m.host.1⟩, m.scope⟩
    (result, ⟨⟨m'.fresh, m'.host, m.host.2⟩, m'.scope⟩)

/-- The machine beside a record. -/
def Machine.recorded (record : Record) (m : Machine σ) : Machine (σ × Record) := ⟨⟨m.fresh, m.host, record⟩, m.scope⟩

/-- The machine without the record beside it. -/
def Machine.bare (m : Machine (σ × Record)) : Machine σ := ⟨⟨m.fresh, m.host.1⟩, m.scope⟩

namespace Pass

/-- Changes the record. -/
def note (change : Record → Record) : Pass (σ × Record) Unit :=
  modify fun s => { s with machine := s.machine.bare.recorded (change s.machine.host.2) }

/-- What a pass does that keeps a record. -/
def Acts.recording (eval : Evaluator σ) : Acts (σ × Record) where
  find := evaluate eval.recorded
  read inCall segment := do
    note (·.visit inCall segment)
    addSegment segment
  make item span := do
    note (·.create false item)
    addContent item span
  attach item span := do
    note (·.create true item)
    addContent item span
  write := Pass.write
  scopeOf attributes := .ok (.ofList attributes)

end Pass

/-- What a pass has recorded, and what it leaves. -/
structure Account where
  record : Record
  passage : Passage
  pending : List (Content × Span)

/-- A pass over a document that keeps a record. -/
def Document.passRecorded (eval : Evaluator σ) (options : Options) (d : Document) (response : Option (List Content))
    (m : Machine σ) : Except Fault (Outcome × Account) × Machine σ :=
  let (result, s) := (d.visitActing (Pass.Acts.recording eval) options).run.run
    (.opening (m.recorded .empty) response)
  (result.map fun (document, flow) =>
    ({ messages := s.messages.toList, completed := flow = .goesOn, globalConfig := s.globalConfig
       stepConfig := s.stepConfig, document, stash := s.machine.scope.stash },
      ⟨s.machine.host.2, s.passage, s.pending⟩), s.machine.bare)

/-! ## What messages account for -/

/-- A message holds items: as its content, or, for the answer of a tool, in its result. -/
def Message.Holds (m : Message) (items : List Content) : Prop :=
  m.content = items ∨ m.role = .tool ∧ ∃ id name,
    m.content = [.toolResult id name (Value.ofJson (.arr (items.map Content.toJson))) none []]

/-- Of the pieces that were visited these are kept: all but some in tool calls, in their order. -/
structure Kept (visited kept : List (Segment × Bool)) : Prop where
  sublist : kept.Sublist visited
  others : (kept.filter fun v => !v.2) = visited.filter fun v => !v.2

namespace Kept

variable {visited visited' kept kept' : List (Segment × Bool)}

theorem all (visited : List (Segment × Bool)) : Kept visited visited := ⟨List.Sublist.refl _, rfl⟩

/-- Pieces in tool calls need not be kept. -/
theorem none (h : ∀ v ∈ visited, v.2 = true) : Kept visited [] :=
  ⟨List.nil_sublist _, (List.filter_eq_nil_iff.mpr fun v member => by simp [h v member]).symm⟩

theorem append (h : Kept visited kept) (h' : Kept visited' kept') : Kept (visited ++ visited') (kept ++ kept') :=
  ⟨h.sublist.append h'.sublist, by rw [List.filter_append, List.filter_append, h.others, h'.others]⟩

end Kept

/-- The letters of pieces, one after the other. -/
def Record.lettersOf (pieces : List (Segment × Bool)) : List Char := pieces.flatMap fun v => v.1.letters

/-- The messages of a pass account for its record. -/
structure Record.Accounted (record : Record) (messages : List Message) : Prop where
  /-- The messages hold the items that were made, each once and in their order. -/
  items : ∃ groups, List.Forall₂ Message.Holds messages groups ∧ groups.flatten = record.items
  /-- The items made of text have the letters that were visited, each once and in their order. -/
  letters : ∃ kept, Kept record.visited kept ∧ Content.lettersOf record.made = lettersOf kept

/-- In the middle of a pass messages, waiting content and the passage account for the record. The pieces of the passage
are the last that were visited, and all of them are `fine`. -/
structure PassState.Accounts (fine : Bool → Prop) (record : Record) (s : PassState σ) : Prop where
  items : ∃ groups, List.Forall₂ Message.Holds s.messages.toList groups ∧
    groups.flatten ++ s.pending.map Prod.fst = record.items
  letters : ∃ before opened kept, record.visited = before ++ opened ∧ opened.map Prod.fst = s.passage ∧
    (∀ v ∈ opened, fine v.2) ∧ Kept before kept ∧ Content.lettersOf record.made = Record.lettersOf kept

/-- No piece is in the passage. -/
def Nothing : Bool → Prop := fun _ => False

/-- The pieces in the passage that come from the body of a tool call, if the pass is in one. -/
def Within (inCall : Bool) : Bool → Prop := fun b => inCall = true → b = true

theorem Record.lettersOf_append (a b : List (Segment × Bool)) : lettersOf (a ++ b) = lettersOf a ++ lettersOf b :=
  List.flatMap_append

theorem Record.lettersOf_eq (pieces : List (Segment × Bool)) :
    lettersOf pieces = Passage.letters (pieces.map Prod.fst) := by
  unfold lettersOf Passage.letters
  rw [List.flatMap_map]

theorem Content.lettersOf_append (a b : List Content) : lettersOf (a ++ b) = lettersOf a ++ lettersOf b :=
  List.flatMap_append

namespace PassState.Accounts

variable {fine fine' : Bool → Prop} {record : Record} {s : PassState σ}

theorem mono (h : s.Accounts fine record) (less : ∀ b, fine b → fine' b) : s.Accounts fine' record := by
  obtain ⟨before, opened, kept, visited, passage, all, rest⟩ := h.letters
  exact ⟨h.items, before, opened, kept, visited, passage, fun v member => less _ (all v member), rest⟩

theorem read (h : s.Accounts fine record) {inCall : Bool} (ok : fine inCall) (segment : Segment) :
    { s with passage := s.passage ++ [segment] }.Accounts fine (record.visit inCall segment) := by
  obtain ⟨before, opened, kept, visited, passage, all, rest⟩ := h.letters
  refine ⟨h.items, before, opened ++ [(segment, inCall)], kept, ?_, ?_, ?_, rest⟩
  · show record.visited ++ _ = _
    rw [visited, List.append_assoc]
  · rw [List.map_append, passage]
    rfl
  · intro v member
    rcases List.mem_append.mp member with old | new
    · exact all v old
    · obtain rfl := List.mem_singleton.mp new
      exact ok

/-- The passage is turned into an item, or into none: with its letters, or without them if it all comes from the body
of a tool call. -/
theorem turn (h : s.Accounts fine record) (item : Option Content) (span : Span)
    (ok : Content.lettersOf item.toList = Passage.letters s.passage ∨
      (∀ b, fine b → b = true) ∧ Content.lettersOf item.toList = []) :
    { s with passage := [], pending := s.pending ++ item.toList.map (·, span) }.Accounts Nothing
      (item.toList.foldl (fun r c => r.create false c) record) := by
  obtain ⟨groups, holds, items⟩ := h.items
  obtain ⟨before, opened, kept, visited, passage, all, sub, letters⟩ := h.letters
  obtain ⟨kept', sub', letters'⟩ : ∃ kept', Kept opened kept' ∧
      Content.lettersOf item.toList = Record.lettersOf kept' := by
    rcases ok with same | ⟨marked, silent⟩
    · exact ⟨opened, Kept.all _, by rw [same, Record.lettersOf_eq, passage]⟩
    · exact ⟨[], Kept.none fun v member => marked _ (all v member), silent⟩
  cases item with
  | none =>
    refine ⟨⟨groups, holds, by simpa using items⟩, before ++ opened, [], kept ++ kept', ?_, rfl, by simp,
      sub.append sub', ?_⟩
    · rw [List.append_nil]
      exact visited
    · rw [Record.lettersOf_append, ← letters', ← letters]
      exact (List.append_nil _).symm
  | some item =>
    refine ⟨⟨groups, holds, ?_⟩, before ++ opened, [], kept ++ kept', ?_, rfl, by simp, sub.append sub', ?_⟩
    · simp [Record.create, Record.items, ← List.append_assoc, items]
    · rw [List.append_nil]
      exact visited
    · rw [Record.lettersOf_append, ← letters', ← letters, ← Content.lettersOf_append]
      simp [Record.create, Record.made]

/-- One more attachment. -/
theorem attach (h : s.Accounts fine record) (item : Content) (span : Span) :
    { s with pending := s.pending ++ [(item, span)] }.Accounts fine (record.create true item) := by
  obtain ⟨groups, holds, items⟩ := h.items
  obtain ⟨before, opened, kept, visited, passage, all, sub, letters⟩ := h.letters
  refine ⟨⟨groups, holds, ?_⟩, before, opened, kept, visited, passage, all, sub, ?_⟩
  · simp [Record.create, Record.items, ← List.append_assoc, items]
  · rw [← letters]
    simp [Record.create, Record.made]

/-- What waits becomes a message. -/
theorem message (h : s.Accounts fine record) {m : Message} (holds : m.Holds (s.pending.map Prod.fst)) :
    { s with pending := [], messages := s.messages.push m }.Accounts fine record := by
  obtain ⟨groups, before, items⟩ := h.items
  refine ⟨⟨groups ++ [s.pending.map Prod.fst], ?_, ?_⟩, h.letters⟩
  · rw [Array.toList_push]
    exact List.rel_append before (.cons holds .nil)
  · simpa using items

end PassState.Accounts

/-! ## Passes with and without a record -/

namespace Pass

variable {fine fine' between : Bool → Prop}

/-- A fault leaves the same machine. -/
def SameMachine (s : PassState (σ × Record)) (t : PassState σ) : Prop := s.machine.bare = t.machine

/-- A pass with a record is where one without a record is, and what has been gathered accounts for the record. -/
structure SamePlace (fine : Bool → Prop) (s : PassState (σ × Record)) (t : PassState σ) : Prop where
  beside : s.Beside (fun m n => m.bare = n) t
  accounts : t.Accounts fine s.machine.host.2

/-- A part that keeps a record, and its like that keeps none. -/
abbrev Records (fine fine' : Bool → Prop) (part : Pass (σ × Record) α) (part' : Pass σ α) : Prop :=
  Abreast SameMachine (SamePlace fine) part part' fun a b s t => a = b ∧ SamePlace fine' s t

theorem SamePlace.mono {s : PassState (σ × Record)} {t : PassState σ} (h : SamePlace fine s t)
    (less : ∀ b, fine b → fine' b) : SamePlace fine' s t :=
  ⟨h.beside, h.accounts.mono less⟩

namespace Records

theorem pure (a : α) : Records fine fine (Pure.pure a : Pass (σ × Record) α) (Pure.pure a : Pass σ α) :=
  Abreast.pure fun _ _ same => ⟨rfl, same⟩

theorem fail (defect : Defect) (span : Span) :
    Records fine fine' (Pass.fail defect span : Pass (σ × Record) α) (Pass.fail defect span : Pass σ α) :=
  .throw fun _ _ same => same.beside.machine

theorem bind {part : Pass (σ × Record) α} {part' : Pass σ α} {f : α → Pass (σ × Record) β} {g : α → Pass σ β}
    (first : Records fine between part part') (rest : ∀ a, Records between fine' (f a) (g a)) :
    Records fine fine' (part >>= f) (part' >>= g) :=
  Abreast.bind first fun a b => .of_fact fun same => by
    subst same
    exact rest a

theorem mono {part : Pass (σ × Record) α} {part' : Pass σ α} (h : Records fine between part part')
    (less : ∀ b, between b → fine' b) : Records fine fine' part part' :=
  Abreast.mono h fun _ _ _ _ ⟨same, here⟩ => ⟨same, here.mono less⟩

/-- What holds of the value as well. -/
theorem bind_of_yields {good : α → Prop} {part : Pass (σ × Record) α} {part' : Pass σ α} {f : α → Pass (σ × Record) β}
    {g : α → Pass σ β} (first : Records fine between part part') (yields : Yields good part')
    (rest : ∀ a, good a → Records between fine' (f a) (g a)) : Records fine fine' (part >>= f) (part' >>= g) :=
  (Abreast.of_yields_right first yields).bind fun a b => .of_fact fun ok => .of_fact fun same => by
    subst same
    exact rest a ok

theorem into {f : α → Flow → β} {part : Pass (σ × Record) (α × Flow)} {part' : Pass σ (α × Flow)}
    (h : Records fine fine' part part') : Records fine fine' (Pass.into f part) (Pass.into f part') :=
  h.bind fun _ => pure _

theorem goingOn {left : α → β} {part : Pass (σ × Record) (α × Flow)} {part' : Pass σ (α × Flow)}
    {rest : α → Pass (σ × Record) (β × Flow)} {rest' : α → Pass σ (β × Flow)}
    (h : Records fine between part part') (less : ∀ b, between b → fine' b)
    (later : ∀ a, Records between fine' (rest a) (rest' a)) :
    Records fine fine' (Pass.goingOn part left rest) (Pass.goingOn part' left rest') := by
  refine h.bind fun (a, flow) => ?_
  cases flow with
  | stops => exact (pure _).mono less
  | goesOn => exact later a

theorem closing {part : Pass (σ × Record) (α × Flow)} {part' : Pass σ (α × Flow)} {close : Pass (σ × Record) Unit}
    {close' : Pass σ Unit} (h : Records fine between part part') (less : ∀ b, between b → fine' b)
    (last : Records between fine' close close') :
    Records fine fine' (Pass.closing part close) (Pass.closing part' close') :=
  h.goingOn less fun _ => last.bind fun _ => pure _

/-- What is done with the scope. -/
theorem modifyScope (f : Scope → Scope) :
    Records fine fine (Pass.modifyScope f : Pass (σ × Record) Unit) (Pass.modifyScope f : Pass σ Unit) :=
  .modify fun s t ⟨beside, accounts⟩ => by
    refine ⟨rfl, { beside with machine := ?_ }, ⟨accounts.items, accounts.letters⟩⟩
    rw [← beside.machine]
    rfl

theorem scope_eq {s : PassState (σ × Record)} {t : PassState σ} (h : SamePlace fine s t) :
    s.machine.scope = t.machine.scope :=
  congrArg Machine.scope h.beside.machine

theorem withScope {s : PassState (σ × Record)} {t : PassState σ} (h : SamePlace fine s t) (scope : Scope) :
    SamePlace fine (s.withScope scope) (t.withScope scope) := by
  refine ⟨{ h.beside with machine := ?_ }, ⟨h.accounts.items, h.accounts.letters⟩⟩
  show (s.withScope scope).machine.bare = { t.machine with scope }
  rw [← h.beside.machine]
  rfl

theorem inView {table : Option Pointers} {part : Pass (σ × Record) (α × Flow)} {part' : Pass σ (α × Flow)}
    (h : Records fine fine' part part') : Records fine fine' (Pass.inView table part) (Pass.inView table part') := by
  intro s t same
  show Meet _ _ ((Pass.inView table part).result s) ((Pass.inView table part').result t)
  have scopes := scope_eq same
  have both := h (s.withTable (table.getD s.table)) (t.withTable (table.getD t.table)) (by
    unfold PassState.withTable PassState.table
    rw [scopes]
    exact withScope same _)
  rw [result_inView, result_inView]
  unfold result
  generalize part.run.run (s.withTable (table.getD s.table)) = x at both ⊢
  generalize part'.run.run (t.withTable (table.getD t.table)) = y at both ⊢
  cases both with
  | error failed => exact .error failed
  | @ok a b s' t' both =>
    obtain ⟨rfl, here⟩ := both
    have scopes' := scope_eq here
    refine .ok ⟨?_, ?_⟩
    · show ((a.1, s'.table), a.2) = ((a.1, t'.table), a.2)
      unfold PassState.table
      rw [scopes']
    · unfold PassState.withTable PassState.table
      rw [scopes, scopes']
      exact withScope here _

theorem inScope {scope : Scope} {part : Pass (σ × Record) (α × Flow)} {part' : Pass σ (α × Flow)}
    (h : Records fine fine' part part') : Records fine fine' (Pass.inScope scope part) (Pass.inScope scope part') := by
  intro s t same
  show Meet _ _ ((Pass.inScope scope part).result s) ((Pass.inScope scope part').result t)
  have both := h (s.withScope scope) (t.withScope scope) (withScope same scope)
  rw [result_inScope, result_inScope]
  unfold result
  generalize part.run.run (s.withScope scope) = x at both ⊢
  generalize part'.run.run (t.withScope scope) = y at both ⊢
  cases both with
  | error failed => exact .error failed
  | @ok a b s' t' both =>
    obtain ⟨rfl, here⟩ := both
    refine .ok ⟨?_, ?_⟩
    · show ((a.1, s'.machine.scope), a.2) = ((a.1, t'.machine.scope), a.2)
      rw [scope_eq here]
    · rw [scope_eq same]
      exact withScope here _

end Records

/-! ## Parts of passes -/

/-- A part that looks at nothing does the same anywhere. -/
theorem abreast_of_still {τ : Type} {before fails : PassState σ → PassState τ → Prop} {part : Pass σ α}
    {part' : Pass τ α} (blind : Blind part part') (still : Still part) (still' : Still part') (failed : ∀ s t, before s t → fails s t) :
    Abreast fails before part part' fun a b s t => a = b ∧ before s t := by
  intro s t here
  obtain ⟨x, same⟩ := still
  obtain ⟨y, same'⟩ := still'
  have both := @blind (fun _ _ => True) (fun _ _ => True) (fun _ _ _ => trivial) s { s with machine := t.machine }
    ⟨trivial, rfl, rfl, rfl, rfl, rfl, rfl⟩
  rw [show part.run.run s = (x, s) from same s, show part'.run.run _ = (y, _) from same' _] at both
  rw [show part.run.run s = (x, s) from same s, show part'.run.run t = (y, t) from same' t]
  cases both with
  | error => exact .error (failed s t here)
  | ok both => exact .ok ⟨both.1, here⟩

theorem Records.of_still {part : Pass (σ × Record) α} {part' : Pass σ α} (blind : Blind part part') (still : Still part)
    (still' : Still part') : Records fine fine part part' :=
  abreast_of_still blind still still' fun _ _ same => same.beside.machine

section Parts

variable (eval : Evaluator σ) (options : Options)

theorem records_evaluate (e : Expr) : Records fine fine (evaluate eval.recorded e) (evaluate eval e) := by
  intro s t same
  have beside : (eval.recorded e).run.run s.machine = (((eval e).run.run s.machine.bare).1,
    ((eval e).run.run s.machine.bare).2.recorded s.machine.host.2) := rfl
  show Meet _ _ ((evaluate eval.recorded e).result s) ((evaluate eval e).result t)
  rw [result_evaluate, result_evaluate, beside, ← same.beside.machine]
  obtain ⟨_ | v, m⟩ := (eval e).run.run s.machine.bare
  · exact .error rfl
  · exact .ok ⟨rfl, { same.beside with machine := rfl }, same.accounts.items, same.accounts.letters⟩

/-! ### Text and items -/

theorem records_read {inCall : Bool} (ok : fine inCall) (segment : Segment) :
    Records fine fine ((Acts.recording eval).read inCall segment) (addSegment segment) := by
  intro s t same
  refine .ok ⟨rfl, { same.beside with passage := ?_ }, same.accounts.read ok segment⟩
  exact congrArg (· ++ [segment]) same.beside.passage

theorem records_attach (item : Content) (span : Span) :
    Records fine fine ((Acts.recording eval).attach item span) (addContent item span) := by
  intro s t same
  refine .ok ⟨rfl, { same.beside with pending := ?_ }, same.accounts.attach item span⟩
  exact congrArg (· ++ [(item, span)]) same.beside.pending

/-- The passage of a pass has been taken, and `p` is its paragraph. -/
structure Taken (fine : Bool → Prop) (p : Option Paragraph) (s : PassState (σ × Record)) (t : PassState σ) : Prop where
  beside : s.Beside (fun m n => m.bare = n) t
  empty : t.passage = []
  accounts : ∃ passage : Passage, passage.paragraph? = p ∧ { t with passage }.Accounts fine s.machine.host.2

theorem records_takeParagraph : Abreast SameMachine (SamePlace fine) (takeParagraph : Pass (σ × Record) _)
    (takeParagraph : Pass σ _) fun p q s t => p = q ∧ Taken fine q s t := by
  intro s t same
  refine .ok ⟨congrArg Passage.paragraph? same.beside.passage, ?_⟩
  refine ⟨{ same.beside with passage := rfl }, rfl, t.passage, rfl, ?_⟩
  exact same.accounts

/-- An item has the letters of a paragraph, or none if the paragraph comes from the body of a tool call. -/
def Fits (fine : Bool → Prop) (p : Option Paragraph) (item : Option Content) : Prop :=
  Content.lettersOf item.toList = Paragraph.lettersOf p ∨ (∀ b, fine b → b = true) ∧ Content.lettersOf item.toList = []

theorem records_turn {p : Option Paragraph} (item : Option Content) (span : Span) : Fits fine p item →
    Abreast SameMachine (Taken fine p)
      (match item with
        | some item => (Acts.recording eval).make item span
        | none => return ())
      (match item with
        | some item => addContent item span
        | none => return () : Pass σ Unit) fun a b s t => a = b ∧ SamePlace Nothing s t := by
  intro fits s t taken
  obtain ⟨passage, rfl, accounts⟩ := taken.accounts
  rw [Fits, Passage.letters_paragraph?] at fits
  have turned := accounts.turn item span fits
  cases item with
  | none =>
    obtain ⟨before, opened, kept, visited, empty, rest⟩ := turned.letters
    exact .ok ⟨rfl, taken.beside, by simpa using turned.items, before, opened, kept, visited,
      empty.trans taken.empty.symm, rest⟩
  | some item =>
    obtain ⟨before, opened, kept, visited, empty, rest⟩ := turned.letters
    exact .ok ⟨rfl, { taken.beside with pending := congrArg (· ++ [(item, span)]) taken.beside.pending }, turned.items,
      before, opened, kept, visited, empty.trans taken.empty.symm, rest⟩

theorem records_flushPassage :
    Records fine Nothing ((Acts.recording eval).flushPassage options) (flushPassage options) := by
  refine Abreast.bind records_takeParagraph fun p q => .of_fact fun same => ?_
  subst same
  have fits : Fits fine p (p.map fun p => textOf options p []) := by
    refine .inl ?_
    cases p with
    | none => rfl
    | some p => exact List.append_nil _
  have turned := records_turn eval _ nowhere fits
  cases p with
  | none => exact turned
  | some p => exact turned

theorem records_closeContent (span : Span) (kind : ContentKind) (attributes : Attributes)
    (call : kind = .toolCall → ∀ b, fine b → b = true) :
    Records fine Nothing ((Acts.recording eval).closeContent options span kind attributes)
      (closeContent options span kind attributes) := by
  refine Abreast.bind records_takeParagraph fun p q => .of_fact fun same => ?_
  subst same
  have made : Abreast SameMachine (Taken fine p) (itemOf options span kind p attributes : Pass (σ × Record) _)
      (itemOf options span kind p attributes : Pass σ _) fun a b s t => a = b ∧ Taken fine p s t :=
    abreast_of_still (blind_itemOf options span kind p attributes) (still_itemOf options span kind p attributes)
      (still_itemOf options span kind p attributes) fun _ _ taken => taken.beside.machine
  refine (made.of_yields_right (letters_itemOf options span kind p attributes)).bind fun item item' =>
    .of_fact fun letters => .of_fact fun same => ?_
  subst same
  refine records_turn eval item span ?_
  by_cases tool : kind = .toolCall
  · rw [if_pos tool] at letters
    exact .inr ⟨call tool, letters⟩
  · rw [if_neg tool] at letters
    exact .inl letters

theorem records_putValue (around : Surroundings) {inCall : Bool} (span : Span) (name : Option String) (v : Value) :
    Records (Within inCall) (Within inCall) ((Acts.recording eval).putValue options around inCall span name v)
      (putValue options around span name v) := by
  have adds : ∀ files : List Attachment, Records (Within inCall) (Within inCall)
      (files.forM fun file => (Acts.recording eval).attach file.toContent span : Pass (σ × Record) PUnit)
      (files.forM fun file => addContent file.toContent span : Pass σ PUnit) := by
    intro files
    induction files with
    | nil => exact .pure _
    | cons file files ih => exact (records_attach eval _ _).bind fun _ => ih
  have here : Within inCall inCall := fun h => h
  unfold Acts.putValue putValue
  cases Attachment.listOf? v with
  | none => exact records_read eval here _
  | some files =>
    by_cases inside : around.inContent = true
    · simp only [inside, if_true]
      obtain _ | ⟨file, _ | ⟨file', files⟩⟩ := files
      · exact .fail _ _
      · exact records_read eval here _
      · exact .fail _ _
    · simp only [inside]
      exact ((records_flushPassage eval options).mono fun _ => False.elim).bind fun _ => adds files

theorem records_interpolate (around : Surroundings) {inCall : Bool} (span : Span) (e : Expr) :
    Records (Within inCall) (Within inCall) ((Acts.recording eval).interpolate options around inCall span e)
      (interpolate eval options around span e) := by
  refine (records_evaluate eval e).bind fun v => ?_
  split
  · exact .pure _
  · cases v with
    | undefined => exact .pure _
    | _ => exact records_putValue eval options _ _ _ _

theorem records_attributeParts (parts : List Node) :
    Records fine fine ((Acts.recording eval).attributeParts parts) (attributeParts eval parts) := by
  induction parts with
  | nil => exact .pure _
  | cons n r ih =>
    cases n with
    | text _ data _ => exact ih.bind fun _ => .pure _
    | interpolation _ e _ =>
      refine (records_evaluate eval e).bind fun v => ?_
      cases v with
      | undefined => exact ih
      | _ => exact ih.bind fun _ => .pure _
    | comment _ _ _ | config _ _ _ | choice _ _ _ _ _ | loop _ _ _ _ _ _ _ | element _ _ _ _ _ | group _ _ _ =>
      exact ih

theorem records_attributeValues (attributes : List Attribute) (acc : Attributes) :
    Records fine fine ((Acts.recording eval).attributeValues attributes acc) (attributeValues eval attributes acc) := by
  induction attributes generalizing acc with
  | nil => exact .pure _
  | cons a r ih =>
    obtain ⟨_, name, _ | parts⟩ := a
    · exact ih _
    · refine (records_attributeParts eval parts).bind fun vs => ?_
      obtain _ | ⟨v, _ | ⟨w, vs⟩⟩ := vs
      · exact ih _
      · exact ih _
      · exact ih _

theorem records_rememberedAttributes (p : Progress) (attributes : List Attribute) :
    Records fine fine ((Acts.recording eval).rememberedAttributes p attributes)
      (rememberedAttributes eval p attributes) := by
  have found :
      Records fine fine ((Acts.recording eval).attributeValues attributes []) (attributeValues eval attributes []) :=
    records_attributeValues eval _ _
  unfold Acts.rememberedAttributes rememberedAttributes
  cases p.memo with
  | none => exact found
  | some v =>
    cases v with
    | object fields => exact .pure _
    | _ => exact found

/-! ### Messages -/

/-- Content has been taken that has no message yet. -/
structure Owes (content : List (Content × Span)) (s : PassState (σ × Record)) (t : PassState σ) : Prop where
  beside : s.Beside (fun m n => m.bare = n) t
  empty : t.pending = []
  accounts : { t with pending := content }.Accounts Nothing s.machine.host.2

theorem records_takeContent : Abreast SameMachine (SamePlace fine) ((Acts.recording eval).takeContent options)
    (takeContent options) fun content content' s t => content = content' ∧ Owes content' s t := by
  refine Abreast.bind (records_flushPassage eval options) fun _ _ => .of_fact fun _ => ?_
  intro s t same
  exact .ok ⟨same.beside.pending, { same.beside with pending := rfl }, rfl, same.accounts⟩

theorem records_addMessage {content : List (Content × Span)} {m : Message} (holds : m.Holds (content.map Prod.fst)) :
    Abreast SameMachine (Owes content) (addMessage m : Pass (σ × Record) Unit) (addMessage m : Pass σ Unit)
      fun a b s t => a = b ∧ SamePlace Nothing s t := by
  refine .modify fun s t owes => ⟨rfl, { owes.beside with messages := congrArg (·.push m) owes.beside.messages }, ?_⟩
  have added := owes.accounts.message holds
  exact ⟨by rw [owes.empty]; exact added.items, added.letters⟩

theorem yields_messageOf (role : Role) (content : List (Content × Span)) (span : Span) :
    Yields (fun m => m = ⟨role, content.map Prod.fst, []⟩) (messageOf role content span : Pass σ Message) := by
  unfold messageOf
  split
  · split
    · exact yields_pure rfl
    · exact fun _ _ _ ran => nomatch ran
  · exact yields_pure rfl

theorem records_messageOf {content : List (Content × Span)} (role : Role) (span : Span) :
    Abreast SameMachine (Owes content) (messageOf role content span : Pass (σ × Record) Message)
      (messageOf role content span : Pass σ Message) fun m m' s t =>
        m' = ⟨role, content.map Prod.fst, []⟩ ∧ m = m' ∧ Owes content s t :=
  (abreast_of_still (blind_messageOf _ _ _) (still_messageOf _ _ _) (still_messageOf _ _ _)
    fun _ _ owes => owes.beside.machine).of_yields_right (yields_messageOf role content span)

theorem records_flushContent : Records fine Nothing ((Acts.recording eval).flushContent options)
    (flushContent options : Pass σ Unit) := by
  refine Abreast.bind (records_takeContent eval options) fun content content' => .of_fact fun same => ?_
  subst same
  cases content with
  | nil =>
    exact .pure fun s t owes =>
      ⟨rfl, owes.beside, by rw [owes.empty]; exact owes.accounts.items, owes.accounts.letters⟩
  | cons c content =>
    refine (records_messageOf _ _).bind fun m m' => .of_fact fun made => .of_fact fun same => ?_
    subst same made
    exact records_addMessage (.inl rfl)

theorem records_openMessage (around : Surroundings) (span : Span) (role : Option Role) (attributes : Attributes) :
    Records fine Nothing ((Acts.recording eval).openMessage options around span role attributes)
      (openMessage options around span role attributes) := by
  have flushed : Records fine Nothing ((Acts.recording eval).flushContent options) (flushContent options) :=
    records_flushContent eval options
  have opens := flushed.bind fun _ =>
    Records.of_still (blind_roleOf span role attributes) (still_roleOf _ _ _) (still_roleOf _ _ _)
  unfold Acts.openMessage openMessage
  split
  · exact (Records.fail _ _ : Records fine fine _ _).bind fun _ => opens
  · exact opens

theorem yields_toolAnswer (span : Span) (m : Message) (attributes : Attributes) :
    Yields (fun answer => m.role = .tool → answer.Holds m.content) (toolAnswer span m attributes : Pass σ Message) := by
  unfold toolAnswer
  refine Yields.bind (View.yields_need _ _) fun id _ => Yields.bind (View.yields_need _ _) fun name _ => yields_pure ?_
  exact fun tool => .inr ⟨tool, id.toText, name.toText, rfl⟩

theorem blind_toolAnswer {τ : Type} (span : Span) (m : Message) (attributes : Attributes) :
    Blind (toolAnswer span m attributes : Pass σ Message) (toolAnswer span m attributes : Pass τ Message) :=
  (blind_need _ _ _).bind fun _ => (blind_need _ _ _).bind fun _ => blind_pure _

theorem records_closeMessage (span : Span) (role : Role) (attributes : Attributes) :
    Records fine Nothing ((Acts.recording eval).closeMessage options span role attributes)
      (closeMessage options span role attributes) := by
  refine Abreast.bind (records_takeContent eval options) fun content content' => .of_fact fun same => ?_
  subst same
  refine (records_messageOf _ _).bind fun m m' => .of_fact fun made => .of_fact fun same => ?_
  subst same made
  split
  · next tool =>
    refine ((abreast_of_still (blind_toolAnswer _ _ _) (still_toolAnswer _ _ _) (still_toolAnswer _ _ _)
      fun _ _ owes => owes.beside.machine).of_yields_right (yields_toolAnswer _ _ _)).bind fun m m' =>
      .of_fact fun holds => .of_fact fun same => ?_
    subst same
    exact records_addMessage (holds tool)
  · exact records_addMessage (.inl rfl)

end Parts
end Pass
end PromptScript
