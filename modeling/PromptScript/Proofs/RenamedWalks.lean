import PromptScript.Proofs.RenamedPasses
import PromptScript.Proofs.Straight

/-! # Walks with other identities

The walk over a document, one case for each kind of node. -/
namespace PromptScript

variable {σ : Type}

/-! ## Bounds of nodes -/

section Bounds

variable {bound : Nat} {body : List Node} {other : Option (List Node)} {p : Option Progress}

theorem under_choice {span : Span} {test : Expr} : Under bound (Node.choice span test body other p) ↔
    Under bound body ∧ Under bound other ∧ Under bound p := by
  simp only [Under, Node.renamed_choice, Node.choice.injEq, true_and]
  exact ⟨fun h => ⟨fun g one fixed => (h g one fixed).1, fun g one fixed => (h g one fixed).2.1,
    fun g one fixed => (h g one fixed).2.2⟩, fun h g one fixed => ⟨h.1 g one fixed, h.2.1 g one fixed, h.2.2 g one fixed⟩⟩

theorem under_loop {span : Span} {items : Expr} {item : Binding} {index : Option Binding} :
    Under bound (Node.loop span items item index body other p) ↔
      Under bound body ∧ Under bound other ∧ Under bound p := by
  simp only [Under, Node.renamed_loop, Node.loop.injEq, true_and]
  exact ⟨fun h => ⟨fun g one fixed => (h g one fixed).1, fun g one fixed => (h g one fixed).2.1,
    fun g one fixed => (h g one fixed).2.2⟩, fun h g one fixed => ⟨h.1 g one fixed, h.2.1 g one fixed, h.2.2 g one fixed⟩⟩

theorem under_element {span : Span} {tag : Tag} {attributes : List Attribute} :
    Under bound (Node.element span tag attributes body p) ↔ Under bound body ∧ Under bound p := by
  simp only [Under, Node.renamed_element, Node.element.injEq, true_and]
  exact ⟨fun h => ⟨fun g one fixed => (h g one fixed).1, fun g one fixed => (h g one fixed).2⟩,
    fun h g one fixed => ⟨h.1 g one fixed, h.2 g one fixed⟩⟩

theorem under_group {span : Span} : Under bound (Node.group span body p) ↔ Under bound body ∧ Under bound p := by
  simp only [Under, Node.renamed_group, Node.group.injEq, true_and]
  exact ⟨fun h => ⟨fun g one fixed => (h g one fixed).1, fun g one fixed => (h g one fixed).2⟩,
    fun h g one fixed => ⟨h.1 g one fixed, h.2 g one fixed⟩⟩

/-- Marks hold identities in what is remembered and in cells. -/
theorem under_progress {p : Progress} : Under bound p ↔ Under bound p.memo ∧ Under bound p.stash := by
  obtain ⟨done, memo, pointers, round, stash⟩ := p
  constructor
  · intro h
    exact ⟨fun g one fixed => congrArg Progress.memo (h g one fixed),
      fun g one fixed => congrArg Progress.stash (h g one fixed)⟩
  · intro ⟨memo, stash⟩ g one fixed
    show Progress.mk _ (renamed g _) _ _ (renamed g _) = _
    rw [memo g one fixed, stash g one fixed]

theorem under_finished {n : Node} (h : Under bound n) : Under bound n.finished :=
  h.of_natural fun _ _ => Node.renamed_finished n

end Bounds

namespace Pass

variable {bound low : Nat} (r : Renaming σ bound)

/-! ## Marks -/

/-- The marks that count. -/
theorem counted_renamed (f : Nat → Nat) (anew : Bool) (p : Option Progress) :
    (if anew then ({} : Progress) else (renamed f p).getD {}) = renamed f (if anew then {} else p.getD {}) := by
  cases anew with
  | true => rfl
  | false => cases p <;> rfl

theorem under_counted (anew : Bool) {p : Option Progress} (h : Under low p) :
    Under low (if anew then ({} : Progress) else p.getD {}) :=
  h.of_natural (k := fun p => if anew then ({} : Progress) else p.getD {}) fun g _ => (counted_renamed g anew p).symm

theorem renamed_untouched (f : Nat → Nat) (anew : Bool) (nodes : List Node) :
    renamed f (untouched anew nodes) = untouched anew (renamed f nodes) := by
  cases anew with
  | true =>
    show renamed f (Node.clearedAll nodes) = Node.clearedAll (renamed f nodes)
    rw [Node.renamed_clearedAll, Node.clearedAll_renamed]
  | false => rfl

theorem under_untouched (anew : Bool) {nodes : List Node} (h : Under low nodes) : Under low (untouched anew nodes) :=
  h.of_natural fun g _ => renamed_untouched g anew nodes

theorem renamed_unlessAnew (f : Nat → Nat) (anew : Bool) (p : Option Progress) :
    renamed f (if anew then none else p) = if anew then none else renamed f p := by
  cases anew <;> rfl

theorem under_unlessAnew (anew : Bool) {p : Option Progress} (h : Under low p) :
    Under low (if anew then none else p) :=
  h.of_natural (k := fun p => if anew then none else p) fun g _ => renamed_unlessAnew g anew p

/-! ## Rounds -/

section Rounds

variable {again again' : Pass σ (List Node × Flow)} (item : Binding) (index : Option Binding)

theorem alike_declareItem {v : Value} (under : Under low v) (n : Nat) :
    Alike r low (declareItem item index v n : Pass σ Unit) (declareItem item index (renamed r.map v) n) := by
  refine (alike_declare r under item.name).bind fun more le _ _ => ?_
  cases index with
  | none => exact .pure rfl (under_unit _)
  | some index => exact alike_declare (v := .number (Float.ofNat n)) r (fun _ _ _ => rfl) index.name

/-- The round in which a pass stopped. -/
theorem under_rounds {nodes : List Node} (h : Under low nodes) (round : Option Nat) (table : Option Pointers) :
    Under low (Rounds.mk nodes round table) :=
  h.of_natural (k := fun nodes => Rounds.mk nodes round table) fun _ _ => rfl

theorem alike_rounds (each : ∀ more, low ≤ more → Alike r more again again') {vs : List Value} {n : Nat}
    {nodes : List Node} {round : Option Nat} {more : Nat} (le : low ≤ more) (underItems : Under more vs)
    (underNodes : Under more nodes) :
    Alike r more (rounds item index again vs n nodes round)
      (rounds item index again' (renamed r.map vs) n (renamed r.map nodes) round) := by
  induction vs generalizing n nodes round more with
  | nil => exact .pure rfl (under_mk.mpr ⟨under_rounds underNodes round none, fun _ _ _ => rfl⟩)
  | cons v vs ih =>
    obtain ⟨underItem, underItems⟩ := under_cons.mp underItems
    have here : Alike r more (inView none (do declareItem item index v n; again))
        (inView none (do declareItem item index (renamed r.map v) n; again')) :=
      Alike.inView ((alike_declareItem r item index underItem n).bind fun last le' _ _ =>
        each last (Nat.le_trans le le'))
    refine here.goingOn (fun _ => rfl) (fun last _ a there => ?_) fun last le' a there => ?_
    · exact under_rounds (under_mk.mp there).1 _ _
    · exact ih (Nat.le_trans le le') (underItems.mono le') (under_mk.mp there).1

theorem alike_roundsFrom {resume resume' : Pass σ (List Node × Flow)} {p : Progress} {vs : List Value}
    {nodes : List Node} (first : Alike r low resume resume') (each : ∀ more, low ≤ more → Alike r more again again')
    (underItems : Under low vs) (underNodes : Under low nodes) :
    Alike r low (roundsFrom p item index vs nodes resume again)
      (roundsFrom (renamed r.map p) item index (renamed r.map vs) (renamed r.map nodes) resume' again') := by
  have drop : ∀ (g : Nat → Nat) n, (renamed g vs).drop n = renamed g (vs.drop n) := fun _ _ => List.map_drop.symm
  have left : Under low (vs.drop (p.round.getD 0)) := 
    fun g one fixed => by rw [← drop, underItems g one fixed]
  unfold roundsFrom
  dsimp only
  rw [show (renamed r.map p).pointers = p.pointers from rfl, show (renamed r.map p).round = p.round from rfl, drop]
  generalize vs.drop (p.round.getD 0) = items at left ⊢
  cases p.pointers with
  | none => exact alike_rounds r item index each (Nat.le_refl _) left underNodes
  | some table =>
    cases items with
    | nil => exact alike_rounds r item index each (Nat.le_refl _) left underNodes
    | cons v items =>
      obtain ⟨-, later⟩ := under_cons.mp left
      rw [renamed_cons]
      refine (Alike.inView first).goingOn (fun _ => rfl) (fun last _ a there => ?_) fun last le a there => ?_
      · exact under_rounds (under_mk.mp there).1 _ _
      · exact alike_rounds r item index each le (later.mono le) (under_mk.mp there).1

theorem alike_itemsOf (e : Expr) {v : Value} (under : Under low v) :
    Alike r low (itemsOf e v : Pass σ (List Value)) (itemsOf e (renamed r.map v)) := by
  cases v with
  | array items =>
    rw [Value.renamed_array]
    exact .pure rfl fun g one fixed => Value.array.inj ((Value.renamed_array items).symm.trans (under g one fixed))
  | object fields =>
    rw [Value.renamed_object]
    exact .throw _
  | _ => exact .throw _

end Rounds

/-! ## Closed parts -/

theorem alike_closedScope {p : Progress} {attributes : Attributes} {b : List Node} (underMarks : Under low p)
    (underAttributes : Under low attributes) :
    Alike r low (closedScope p attributes b : Pass σ Scope)
      (closedScope (renamed r.map p) (renamed r.map attributes) (renamed r.map b)) := by
  have stash := (under_progress.mp underMarks).2
  unfold closedScope
  rw [show (renamed r.map p).stash = renamed r.map p.stash from rfl]
  generalize p.stash = given at stash ⊢
  cases given with
  | some stash =>
    refine .pure rfl fun g one fixed => ?_
    exact congrArg (Scope.mk · _) (Option.some.inj (stash g one fixed))
  | none =>
    rw [renamed_none]
    dsimp only
    unfold newScope
    rw [Fields.names_renamed, ← Node.closureFaults_clearedAll _ (renamed r.map b), Node.clearedAll_renamed,
      Node.closureFaults_clearedAll]
    split
    · exact .throw _
    · exact .pure (Scope.renamed_ofList _).symm (underAttributes.of_natural fun _ _ => Scope.renamed_ofList _)

theorem renamed_closedMarks (f : Nat → Nat) (p : Progress) (flow : Flow) (scope : Scope) :
    renamed f (closedMarks p flow scope) = closedMarks (renamed f p) flow (renamed f scope) := by
  cases flow with
  | stops => rfl
  | goesOn =>
    obtain ⟨done, memo, pointers, round, stash⟩ := p
    cases stash <;> rfl

theorem under_closedMarks {p : Progress} {flow : Flow} {scope : Scope} (h : Under low p) (hs : Under low scope) :
    Under low (closedMarks p flow scope) :=
  fun g one fixed => by rw [renamed_closedMarks, h g one fixed, hs g one fixed]

/-! ## The walk -/

section Walk

variable {host : Host σ} (stateless : host.Stateless bound) (options : Options)

include stateless in
theorem alike_remembered {p : Progress} (under : Under low p) (e : Expr) (bare : ∀ v ∈ e.literals, Expr.Bare v) :
    Alike r low (remembered p (evaluate (Expr.eval host) e))
      (remembered (renamed r.map p) (evaluate (Expr.eval host) e)) := by
  have memo := (under_progress.mp under).1
  unfold remembered
  rw [show (renamed r.map p).memo = renamed r.map p.memo from rfl]
  generalize p.memo = given at memo ⊢
  cases given with
  | some v => exact .pure rfl (under_some.mp memo)
  | none => exact alike_evaluate r stateless e bare

include stateless in
theorem alike_rememberedAttributes {p : Progress} (under : Under low p) (attributes : List Attribute)
    (bare : ∀ v ∈ Node.literalsOfAttributes attributes, Expr.Bare v) :
    Alike r low (rememberedAttributes (Expr.eval host) p attributes)
      (rememberedAttributes (Expr.eval host) (renamed r.map p) attributes) := by
  have memo := (under_progress.mp under).1
  have anew := alike_attributeValues r stateless attributes bare (under_nil : Under low ([] : Attributes))
  unfold rememberedAttributes
  rw [show (renamed r.map p).memo = renamed r.map p.memo from rfl]
  generalize p.memo = given at memo ⊢
  cases given with
  | none => exact anew
  | some v =>
    cases v with
    | object fields =>
      rw [renamed_some, Value.renamed_object]
      exact .pure rfl fun g one fixed => Value.object.inj
        ((Value.renamed_object fields).symm.trans (under_some.mp memo g one fixed))
    | array items =>
      rw [renamed_some, Value.renamed_array]
      exact anew
    | _ => exact anew

/-- The marks with what was found. -/
theorem under_memo {p : Progress} (h : Under low p) {v : Value} (hv : Under low v) :
    Under low { p with memo := some v } :=
  under_progress.mpr ⟨under_some.mpr hv, (under_progress.mp h).2⟩

/-- A part of a choice or a loop, with a table of its own. -/
theorem alike_branch {m w : List Node → Option Progress → Node} {part part' : Pass σ (List Node × Flow)}
    {p : Progress} (marks : Under low p)
    (same : ∀ nodes p, w (renamed r.map nodes) (renamed r.map p) = renamed r.map (m nodes p))
    (under : ∀ more, low ≤ more → ∀ nodes p, Under more nodes → Under more p → Under more (m nodes p))
    (inside : Alike r low part part') :
    Alike r low
      (into (fun (nodes, table) flow => m nodes (some { p with pointers := flow.tableLeft table }))
        (inView p.pointers part))
      (into (fun (nodes, table) flow => w nodes (some { renamed r.map p with pointers := flow.tableLeft table }))
        (inView p.pointers part')) := by
  refine (Alike.inView inside).into (fun left flow => ?_) fun more le left flow there => ?_
  · exact same left.1 (some { p with pointers := flow.tableLeft left.2 })
  · exact under more le _ _ (under_mk.mp there).1
      (under_some.mpr (under_progress.mpr (under_progress.mp (marks.mono le) :)))

/-- What the rounds of a loop leave. -/
theorem alike_loop {m w : List Node → Option Progress → Node} {part part' : Pass σ (Rounds × Flow)}
    {p : Progress} (marks : Under low p)
    (same : ∀ nodes p, w (renamed r.map nodes) (renamed r.map p) = renamed r.map (m nodes p))
    (under : ∀ more, low ≤ more → ∀ nodes p, Under more nodes → Under more p → Under more (m nodes p))
    (inside : Alike r low part part') :
    Alike r low
      (into (fun left _ => m left.body (some { p with pointers := left.table, round := left.round })) part)
      (into (fun left _ => w left.body (some { renamed r.map p with pointers := left.table, round := left.round }))
        part') := by
  refine inside.into (fun left flow => ?_) fun more le left flow there => ?_
  · exact same left.body (some { p with pointers := left.table, round := left.round })
  · exact under more le _ _ (there.of_natural (k := Rounds.body) fun _ _ => rfl)
      (under_some.mpr (under_progress.mpr (under_progress.mp (marks.mono le) :)))

mutual

theorem alike_walk (stateless : host.Stateless bound) (around : Surroundings) (anew : Bool) : ∀ n : Node,
    (∀ v ∈ n.literals, Expr.Bare v) → ∀ low : Nat, Under low n →
      Alike r low (walk (Expr.eval host) options around anew n) (walk (Expr.eval host) options around anew (renamed r.map n))
  | .text span data p, _, low, under => by
    have marks : Under low p := fun g one fixed => (Node.text.inj (under g one fixed)).2.2
    unfold walk
    refine (alike_addSegment r _).bind fun more le _ _ => .pure ?_ (under_mk.mpr ⟨?_, fun _ _ _ => rfl⟩)
    · rw [← renamed_unlessAnew]
      rfl
    · exact fun g one fixed => congrArg (Node.text span data) (under_unlessAnew anew (marks.mono le) g one fixed)
  | .comment span data p, _, low, under => by
    have marks : Under low p := fun g one fixed => (Node.comment.inj (under g one fixed)).2.2
    unfold walk
    refine .pure ?_ (under_mk.mpr ⟨?_, fun _ _ _ => rfl⟩)
    · rw [← renamed_unlessAnew]
      rfl
    · exact fun g one fixed => congrArg (Node.comment span data) (under_unlessAnew anew marks g one fixed)
  | .config span data p, _, low, under => by
    have marks : Under low p := fun g one fixed => (Node.config.inj (under g one fixed)).2.2
    have header : Alike r low (meetHeader span data : Pass σ Unit) (meetHeader span data) := by
      unfold meetHeader
      split
      · exact .throw _
      · exact fun _ _ ⟨le, moved⟩ => .ok ⟨⟨le, { moved with globalConfig := rfl }⟩, rfl, under_unit _⟩
    unfold walk
    refine header.bind fun more le _ _ => .pure ?_ (under_mk.mpr ⟨?_, fun _ _ _ => rfl⟩)
    · rw [← renamed_unlessAnew]
      rfl
    · exact fun g one fixed => congrArg (Node.config span data) (under_unlessAnew anew (marks.mono le) g one fixed)
  | .interpolation span e p, bare, low, under => by
    have marks : Under low p := fun g one fixed => (Node.interpolation.inj (under g one fixed)).2.2
    unfold walk
    refine (alike_interpolate r stateless options around span e bare).bind fun more le _ _ =>
      .pure ?_ (under_mk.mpr ⟨?_, fun _ _ _ => rfl⟩)
    · rw [← renamed_unlessAnew]
      rfl
    · exact fun g one fixed => congrArg (Node.interpolation span e) (under_unlessAnew anew (marks.mono le) g one fixed)
  | .group span body p, bare, low, under => by
    rw [Node.renamed_group]
    unfold walk
    obtain ⟨underBody, underMarks⟩ := under_group.mp under
    refine (alike_walkAll stateless around anew body bare low underBody).into (fun body _ => ?_)
      fun more le body _ there => ?_
    · rw [Node.renamed_group, renamed_unlessAnew]
    · exact under_group.mpr ⟨there, under_unlessAnew anew (underMarks.mono le)⟩
  | .choice span test body none p, bare, low, under => by
    obtain ⟨bareTest, bareBody⟩ := List.forall_mem_append.mp bare
    obtain ⟨underBody, -, marks⟩ := under_choice.mp under
    replace marks := under_counted anew marks
    rw [Node.renamed_choice, renamed_none]
    unfold walk
    dsimp only
    rw [counted_renamed]
    generalize (if anew = true then ({} : Progress) else p.getD {}) = p at marks ⊢
    refine (alike_remembered r stateless marks test bareTest).bind fun more le holds found => ?_
    replace marks := under_memo (marks.mono le) found
    replace underBody := underBody.mono le
    rw [Value.isTruthy_renamed]
    split
    · exact alike_branch r (m := fun nodes p => .choice span test nodes none p)
        (w := fun nodes p => .choice span test nodes none p) marks
        (fun nodes p => (Node.renamed_choice span test nodes none p).symm)
        (fun _ _ nodes p there marks => under_choice.mpr ⟨there, under_none, marks⟩)
        (alike_walkAll stateless around anew body bareBody more underBody)
    · refine .pure ?_ (under_mk.mpr ⟨?_, fun _ _ _ => rfl⟩)
      · rw [renamed_mk, Node.renamed_choice, renamed_untouched]
        rfl
      · exact under_choice.mpr ⟨under_untouched anew underBody, under_none,
          under_some.mpr (under_progress.mpr (under_progress.mp marks :))⟩
  | .choice span test body (some other) p, bare, low, under => by
    obtain ⟨bare, bareOther⟩ := List.forall_mem_append.mp bare
    obtain ⟨bareTest, bareBody⟩ := List.forall_mem_append.mp bare
    obtain ⟨underBody, underOther, marks⟩ := under_choice.mp under
    replace marks := under_counted anew marks
    rw [Node.renamed_choice, renamed_some]
    unfold walk
    dsimp only
    rw [counted_renamed]
    generalize (if anew = true then ({} : Progress) else p.getD {}) = p at marks ⊢
    refine (alike_remembered r stateless marks test bareTest).bind fun more le holds found => ?_
    replace marks := under_memo (marks.mono le) found
    replace underBody := underBody.mono le
    replace underOther := (under_some.mp underOther).mono le
    rw [Value.isTruthy_renamed]
    split
    · refine alike_branch r (m := fun nodes p => .choice span test nodes (some (untouched anew other)) p)
        (w := fun nodes p => .choice span test nodes (some (untouched anew (renamed r.map other))) p) marks
        (fun nodes p => ?_) (fun last le' nodes p there marks => ?_)
        (alike_walkAll stateless around anew body bareBody more underBody)
      · rw [Node.renamed_choice, renamed_some, renamed_untouched]
      · exact under_choice.mpr ⟨there, under_some.mpr (under_untouched anew (underOther.mono le')), marks⟩
    · refine alike_branch r (m := fun nodes p => .choice span test (untouched anew body) (some nodes) p)
        (w := fun nodes p => .choice span test (untouched anew (renamed r.map body)) (some nodes) p) marks
        (fun nodes p => ?_) (fun last le' nodes p there marks => ?_)
        (alike_walkAll stateless around anew other bareOther more underOther)
      · rw [Node.renamed_choice, renamed_some, renamed_untouched]
      · exact under_choice.mpr ⟨under_untouched anew (underBody.mono le'), under_some.mpr there, marks⟩
  | .loop span items item index body none p, bare, low, under => by
    obtain ⟨bareItems, bareBody⟩ := List.forall_mem_append.mp bare
    obtain ⟨underBody, -, marks⟩ := under_loop.mp under
    replace marks := under_counted anew marks
    rw [Node.renamed_loop, renamed_none]
    unfold walk
    dsimp only
    rw [counted_renamed]
    generalize (if anew = true then ({} : Progress) else p.getD {}) = p at marks ⊢
    refine (alike_remembered r stateless marks items bareItems).bind fun more le v found => ?_
    refine (alike_itemsOf r items found).bind fun last le' vs foundAll => ?_
    replace underBody := (underBody.mono le).mono le'
    replace marks := (marks.mono le).mono le'
    rw [← renamed_untouched]
    exact alike_loop r (m := fun nodes p => .loop span items item index nodes none p)
      (w := fun nodes p => .loop span items item index nodes none p) (under_memo marks (found.mono le'))
      (fun nodes p => (Node.renamed_loop span items item index nodes none p).symm)
      (fun _ _ nodes p there marks => under_loop.mpr ⟨there, under_none, marks⟩)
      (alike_roundsFrom r item index (alike_walkAll stateless around anew body bareBody last underBody)
        (fun final le => alike_walkAll stateless around true body bareBody final (underBody.mono le)) foundAll
        (under_untouched anew underBody))
  | .loop span items item index body (some other) p, bare, low, under => by
    obtain ⟨bare, bareOther⟩ := List.forall_mem_append.mp bare
    obtain ⟨bareItems, bareBody⟩ := List.forall_mem_append.mp bare
    obtain ⟨underBody, underOther, marks⟩ := under_loop.mp under
    replace marks := under_counted anew marks
    rw [Node.renamed_loop, renamed_some]
    unfold walk
    dsimp only
    rw [counted_renamed]
    generalize (if anew = true then ({} : Progress) else p.getD {}) = p at marks ⊢
    refine (alike_remembered r stateless marks items bareItems).bind fun more le v found => ?_
    refine (alike_itemsOf r items found).bind fun last le' vs foundAll => ?_
    replace underBody := (underBody.mono le).mono le'
    replace underOther := ((under_some.mp underOther).mono le).mono le'
    replace marks := (marks.mono le).mono le'
    replace found := found.mono le'
    cases vs with
    | nil =>
      refine alike_branch r
        (m := fun nodes p => .loop span items item index (untouched anew body) (some nodes) p)
        (w := fun nodes p => .loop span items item index (untouched anew (renamed r.map body)) (some nodes) p)
        (under_memo marks found) (fun nodes p => ?_) (fun final le nodes p there marks => ?_)
        (alike_walkAll stateless around anew other bareOther last underOther)
      · rw [Node.renamed_loop, renamed_some, renamed_untouched]
      · exact under_loop.mpr ⟨under_untouched anew (underBody.mono le), under_some.mpr there, marks⟩
    | cons v' vs =>
      have each := alike_roundsFrom (p := p) r item index
        (alike_walkAll stateless around anew body bareBody last underBody)
        (fun final le => alike_walkAll stateless around true body bareBody final (underBody.mono le)) foundAll
        (under_untouched anew underBody)
      rw [renamed_untouched] at each
      refine alike_loop r
        (m := fun nodes p => .loop span items item index nodes (some (untouched anew other)) p)
        (w := fun nodes p => .loop span items item index nodes (some (untouched anew (renamed r.map other))) p)
        (under_memo marks found) (fun nodes p => ?_) (fun final le nodes p there marks => ?_) each
      · rw [Node.renamed_loop, renamed_some, renamed_untouched]
      · exact under_loop.mpr ⟨there, under_some.mpr (under_untouched anew (underOther.mono le)), marks⟩
  | .element span tag attributes body p, bare, low, under => by
    obtain ⟨bareAttributes, bareBody⟩ := List.forall_mem_append.mp bare
    obtain ⟨underBody, marks⟩ := under_element.mp under
    replace marks := under_counted anew marks
    rw [Node.renamed_element]
    unfold walk
    dsimp only
    rw [counted_renamed]
    generalize (if anew = true then ({} : Progress) else p.getD {}) = p at marks ⊢
    refine (alike_flushPassage r options).bind fun more le _ _ => ?_
    replace marks := marks.mono le
    refine (alike_rememberedAttributes r stateless marks attributes bareAttributes).bind fun last le' values found => ?_
    replace underBody := (underBody.mono le).mono le'
    replace marks := under_memo (marks.mono le') (v := .object values) fun g one fixed => by
      rw [Value.renamed_object, found g one fixed]
    rw [show some (Value.object (renamed r.map values)) = renamed r.map (some (Value.object values)) by
      rw [renamed_some, Value.renamed_object]]
    have inside : ∀ (around : Surroundings) more, last ≤ more → Alike r more
        (walkAll (Expr.eval host) options around anew body)
        (walkAll (Expr.eval host) options around anew (renamed r.map body)) :=
      fun around more le => alike_walkAll stateless around anew body bareBody more (underBody.mono le)
    have made : ∀ {more : Nat} {nodes : List Node}, last ≤ more → Under more nodes →
        Under more (Node.element span tag attributes nodes (some { p with memo := some (.object values) })) :=
      fun le there => under_element.mpr ⟨there, under_some.mpr (marks.mono le)⟩
    have same : ∀ nodes : List Node, Node.element span tag attributes (renamed r.map nodes)
          (some { renamed r.map p with memo := renamed r.map (some (.object values)) }) =
        renamed r.map (Node.element span tag attributes nodes (some { p with memo := some (.object values) })) :=
      fun nodes => (Node.renamed_element span tag attributes nodes
        (some { p with memo := some (.object values) })).symm
    cases tag with
    | content kind =>
      exact (alike_content r found options around span kind (inside _)).into (fun nodes _ => same nodes)
        fun _ le _ _ there => made le there
    | message role =>
      exact (alike_message r found options around span role (inside _)).into (fun nodes _ => same nodes)
        fun _ le _ _ there => made le there
    | scope =>
      refine (alike_closedScope r (b := body) marks found).bind fun more le scope there => ?_
      refine (Alike.inScope there fun final le' => inside around final (Nat.le_trans le le')).into (fun left flow => ?_)
        fun final le' left flow there => ?_
      · have marks := renamed_closedMarks r.map { p with memo := some (.object values) } flow left.2
        rw [Node.renamed_element]
        exact congrArg (fun p => Node.element span _ attributes _ (some p)) marks.symm
      · obtain ⟨underNodes, underScope⟩ := under_mk.mp there
        exact under_element.mpr ⟨underNodes, under_some.mpr
          (under_closedMarks (marks.mono (Nat.le_trans le le')) underScope)⟩
    | step =>
      refine (alike_step r options around span attributes values (inside _ last (Nat.le_refl _))).into (fun nodes _ => ?_)
        fun more le nodes _ there => ?_
      · cases nodes with
        | none =>
          rw [renamed_none, Option.getD_none, Option.getD_none, ← renamed_untouched]
          exact same _
        | some nodes => exact same nodes
      · cases nodes with
        | none => exact made le (under_untouched anew (underBody.mono le))
        | some nodes => exact made le (under_some.mp there)
    | reference => exact .throw _

theorem alike_walkAll (stateless : host.Stateless bound) (around : Surroundings) (anew : Bool) : ∀ nodes : List Node,
    (∀ v ∈ Node.literalsOfAll nodes, Expr.Bare v) → ∀ low : Nat, Under low nodes →
      Alike r low (walkAll (Expr.eval host) options around anew nodes)
        (walkAll (Expr.eval host) options around anew (renamed r.map nodes))
  | [], _, low, _ => by
    unfold walkAll
    exact .pure rfl (under_mk.mpr ⟨under_nil, fun _ _ _ => rfl⟩)
  | n :: nodes, bare, low, under => by
    obtain ⟨bareHere, bareLater⟩ := List.forall_mem_append.mp bare
    obtain ⟨underHere, underLater⟩ := under_cons.mp under
    rw [renamed_cons]
    unfold walkAll
    rw [Node.isDone_renamed]
    split
    · refine (alike_walkAll stateless around anew nodes bareLater low underLater).into (fun _ _ => rfl)
        fun more le _ _ there => under_cons.mpr ⟨underHere.mono le, there⟩
    · refine (alike_walk stateless around anew n bareHere low underHere).goingOn (fun n => ?_)
        (fun more le n there => ?_) fun more le n there => ?_
      · rw [renamed_cons, renamed_untouched]
      · exact under_cons.mpr ⟨there, under_untouched anew (underLater.mono le)⟩
      · refine (alike_walkAll stateless around anew nodes bareLater more (underLater.mono le)).into (fun _ _ => ?_)
          fun last le' _ _ later => under_cons.mpr ⟨under_finished (there.mono le'), later⟩
        rw [renamed_cons, Node.renamed_finished]

end

end Walk

end Pass
end PromptScript
