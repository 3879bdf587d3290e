import PromptScript.Proofs.Straight

/-! # What a walk evaluates

An evaluator that notes what it is asked for, and a caller that notes what is called. The expressions that a
straight walk evaluates are a trail of the document: each interpolation, attribute, condition and list at most once,
in the order of the source, and those in the body of a loop at most once in each round. -/
namespace PromptScript

variable {σ : Type}

/-- A call of a function of the caller. -/
structure Call where
  function : Nat
  arguments : List Value

/-- The caller with a list of the calls it has answered. -/
def Host.noting (host : Host σ) : Host (σ × List Call) where
  call function arguments s :=
    let (answer, s') := host.call function arguments s.1
    (answer, s', s.2 ++ [⟨function, arguments⟩])
  now s := host.now s.1

/-- The evaluator with a list of the expressions it has evaluated. -/
def Evaluator.noting (eval : Evaluator σ) : Evaluator (σ × List Expr) := fun e =>
  ExceptT.mk fun m =>
    let (result, m') := (eval e).run.run ⟨⟨m.fresh, m.host.1⟩, m.scope⟩
    (result, ⟨⟨m'.fresh, m'.host, m.host.2 ++ [e]⟩, m'.scope⟩)

/-! ## Trails -/

/-- The expressions in the parts of an attribute. -/
def Node.interpolated : List Node → List Expr
  | [] => []
  | .interpolation _ e _ :: r => e :: interpolated r
  | _ :: r => interpolated r

/-- The expressions in attributes. -/
def Attribute.expressions : List Attribute → List Expr
  | [] => []
  | .mk _ _ .flag :: r => expressions r
  | .mk _ _ (.nodes parts) :: r => Node.interpolated parts ++ expressions r

mutual

/-- Expressions that a walk through a node may evaluate, one after the other. -/
inductive Node.Trail : Node → List Expr → Prop
  | text {span : Span} {data : String} {p : Option Progress} : Trail (.text span data p) []
  | comment {span : Span} {data : String} {p : Option Progress} : Trail (.comment span data p) []
  | config {span : Span} {data : String} {p : Option Progress} : Trail (.config span data p) []
  | interpolation {span : Span} {e : Expr} {p : Option Progress} : Trail (.interpolation span e p) [e]
  | group {span : Span} {body : List Node} {p : Option Progress} {es : List Expr} (inside : TrailAll body es) :
      Trail (.group span body p) es
  | holds {span : Span} {test : Expr} {body : List Node} {other : Option (List Node)} {p : Option Progress}
      {es : List Expr} (inside : TrailAll body es) : Trail (.choice span test body other p) (test :: es)
  | fails {span : Span} {test : Expr} {body other : List Node} {p : Option Progress} {es : List Expr}
      (inside : TrailAll other es) : Trail (.choice span test body (some other) p) (test :: es)
  | skips {span : Span} {test : Expr} {body : List Node} {p : Option Progress} :
      Trail (.choice span test body none p) [test]
  | loop {span : Span} {items : Expr} {item : Binding} {index : Option Binding} {body : List Node}
      {other : Option (List Node)} {p : Option Progress} (rounds : List (List Expr))
      (inside : ∀ es ∈ rounds, TrailAll body es) :
      Trail (.loop span items item index body other p) (items :: rounds.flatten)
  | idle {span : Span} {items : Expr} {item : Binding} {index : Option Binding} {body other : List Node}
      {p : Option Progress} {es : List Expr} (inside : TrailAll other es) :
      Trail (.loop span items item index body (some other) p) (items :: es)
  | element {span : Span} {tag : Tag} {attributes : List Attribute} {body : List Node} {p : Option Progress}
      {es : List Expr} (inside : TrailAll body es) :
      Trail (.element span tag attributes body p) (Attribute.expressions attributes ++ es)

/-- Expressions that a walk through nodes may evaluate; the walk may be cut after any of them. -/
inductive Node.TrailAll : List Node → List Expr → Prop
  | cut {nodes : List Node} : TrailAll nodes []
  | more {n : Node} {r : List Node} {es es' : List Expr} (here : Trail n es) (later : TrailAll r es') :
      TrailAll (n :: r) (es ++ es')

end

namespace Pass

variable {α β : Type}

/-- A part that leaves the caller as it was. -/
def Steady (part : Pass σ α) : Prop := ∀ s a t, Runs part s a t → t.machine.host = s.machine.host

/-- The expressions that a part evaluates are of a kind. -/
def Notes (kind : List Expr → Prop) (part : Pass (σ × List Expr) α) : Prop :=
  ∀ s a t, Runs part s a t → ∃ es, t.machine.host.2 = s.machine.host.2 ++ es ∧ kind es

theorem Apart.steady {part : Pass σ α} (h : Apart part) : Steady part := by
  intro s a t ran
  rw [h.machine_eq ran]

theorem Steady.bind {part : Pass σ α} {f : α → Pass σ β} (first : Steady part) (rest : ∀ a, Steady (f a)) :
    Steady (part >>= f) := by
  intro s b t ran
  obtain ⟨a, s', ran, last⟩ := runs_bind.mp ran
  rw [rest a s' b t last, first s a s' ran]

theorem steady_declareItem (item : Binding) (index : Option Binding) (v : Value) (n : Nat) :
    Steady (declareItem item index v n : Pass σ Unit) := by
  intro s _ t ran
  cases index with
  | none =>
    obtain ⟨-, rfl⟩ := Prod.mk.inj ran
    rfl
  | some index =>
    obtain ⟨-, rfl⟩ := Prod.mk.inj ran
    rfl

theorem steady_closeStep (span : Span) (head : StepHead) (response : List Content) :
    Steady (closeStep span head response : Pass σ Unit) := by
  rintro s ⟨⟩ t ran
  obtain ⟨scope, rfl⟩ := closeStep_withScope ran
  rfl

section Notes

variable {kind kind' : List Expr → Prop} {part : Pass (σ × List Expr) α}

theorem Notes.imp (h : Notes kind part) (more : ∀ es, kind es → kind' es) : Notes kind' part := by
  intro s a t ran
  obtain ⟨es, noted, fine⟩ := h s a t ran
  exact ⟨es, noted, more es fine⟩

theorem Steady.notes (h : Steady part) (nothing : kind []) : Notes kind part := by
  intro s a t ran
  exact ⟨[], by rw [h s a t ran, List.append_nil], nothing⟩

theorem Notes.bind {f : α → Pass (σ × List Expr) β} {both : List Expr → Prop} (first : Notes kind part)
    (kind' : List Expr → Prop) (rest : ∀ a, Notes kind' (f a)) (join : ∀ es es', kind es → kind' es' → both (es ++ es')) :
    Notes both (part >>= f) := by
  intro s b t ran
  obtain ⟨a, s', ran, last⟩ := runs_bind.mp ran
  obtain ⟨es, noted, fine⟩ := first s a s' ran
  obtain ⟨es', noted', fine'⟩ := rest a s' b t last
  exact ⟨es ++ es', by rw [noted', noted, List.append_assoc], join es es' fine fine'⟩

theorem Notes.finish {f : α → Pass (σ × List Expr) β} (first : Notes kind part) (rest : ∀ a, Steady (f a)) :
    Notes kind (part >>= f) := by
  refine first.bind (· = []) (fun a => (rest a).notes rfl) ?_
  rintro es _ fine rfl
  rwa [List.append_nil]

theorem Steady.then {f : α → Pass (σ × List Expr) β} (first : Steady part) (rest : ∀ a, Notes kind (f a)) :
    Notes kind (part >>= f) := by
  intro s b t ran
  obtain ⟨a, s', ran, last⟩ := runs_bind.mp ran
  rw [← first s a s' ran]
  exact rest a s' b t last

variable {part : Pass (σ × List Expr) (α × Flow)}

theorem Notes.into {f : α → Flow → β} (h : Notes kind part) : Notes kind (into f part) := by
  rintro s ⟨b, flow⟩ t ran
  obtain ⟨a, ran', rfl⟩ := runs_into.mp ran
  exact h s (a, flow) t ran'

theorem Notes.within {table : Option Pointers} (h : Notes kind part) : Notes kind (within table part) := by
  refine Notes.into ?_
  rintro s ⟨⟨a, inner⟩, flow⟩ t ran
  obtain ⟨t', ran', rfl, rfl⟩ := runs_inView.mp ran
  exact h (s.withTable (table.getD s.table)) (a, flow) t' ran'

theorem Notes.enclosed {scope : Scope} (h : Notes kind part) : Notes kind (enclosed scope part) := by
  refine Notes.into ?_
  rintro s ⟨⟨a, inner⟩, flow⟩ t ran
  obtain ⟨t', ran', rfl, rfl⟩ := runs_inScope.mp ran
  exact h (s.withScope scope) (a, flow) t' ran'

theorem Notes.goingOn {left : α → β} {rest : α → Pass (σ × List Expr) (β × Flow)} {both : List Expr → Prop}
    (first : Notes kind part) (last : ∀ a, Notes kind' (rest a)) (cut : ∀ es, kind es → both es)
    (join : ∀ es es', kind es → kind' es' → both (es ++ es')) : Notes both (goingOn part left rest) := by
  rintro s ⟨b, flow⟩ t ran
  rcases runs_goingOn.mp ran with ⟨a, stop, rfl, rfl⟩ | ⟨a, s', ran, next⟩
  · exact (first.imp cut) s (a, .stops) t stop
  · obtain ⟨es, noted, fine⟩ := first s _ s' ran
    obtain ⟨es', noted', fine'⟩ := last a s' _ t next
    exact ⟨es ++ es', by rw [noted', noted, List.append_assoc], join es es' fine fine'⟩

theorem Notes.closing {close : Pass (σ × List Expr) Unit} (h : Notes kind part) (quiet : Steady close) :
    Notes kind (closing part close) := by
  have last : ∀ a : α, Notes (· = []) (do close; return (a, .goesOn) : Pass (σ × List Expr) (α × Flow)) :=
    fun a => (quiet.bind fun _ => (still_pure _).apart.steady).notes rfl
  refine h.goingOn last (fun _ fine => fine) ?_
  rintro es _ fine rfl
  rwa [List.append_nil]

end Notes

/-! ## The trail of a walk -/

variable (eval : Evaluator σ) (options : Options)

theorem notes_evaluate (e : Expr) : Notes (· = [e]) (evaluate eval.noting e) := by
  intro s v t ran
  unfold Runs at ran
  rw [result_evaluate] at ran
  obtain ⟨-, rfl⟩ := Prod.mk.inj ran
  exact ⟨[e], rfl, rfl⟩

theorem notes_attributeParts (parts : List Node) :
    Notes (· = Node.interpolated parts) (attributeParts eval.noting parts) := by
  fun_induction attributeParts eval.noting parts with
  | case1 => exact (still_pure _).apart.steady.notes rfl
  | case2 _ _ _ r ih => exact ih.finish fun _ => (still_pure _).apart.steady
  | case3 _ e _ r ih =>
    refine (notes_evaluate eval e).bind (· = Node.interpolated r) (fun v => ?_) ?_
    · split
      · exact ih
      · exact ih.finish fun _ => (still_pure _).apart.steady
    · rintro _ _ rfl rfl
      rfl
  | case4 n r h h' ih =>
    cases n with
    | text => exact absurd rfl (h _ _ _)
    | interpolation => exact absurd rfl (h' _ _ _)
    | _ => exact ih

theorem notes_attributeValues (attributes : List Attribute) (acc : Attributes) :
    Notes (· = Attribute.expressions attributes) (attributeValues eval.noting attributes acc) := by
  fun_induction attributeValues eval.noting attributes acc with
  | case1 => exact (still_pure _).apart.steady.notes rfl
  | case2 _ _ _ _ ih => exact ih
  | case3 _ _ parts r _ ih ih' ih'' =>
    refine (notes_attributeParts eval parts).bind (· = Attribute.expressions r) (fun vs => ?_) ?_
    · split
      · exact ih
      · exact ih' _
      · exact ih'' _
    · rintro _ _ rfl rfl
      rfl

/-- The trails of the rounds of a loop. -/
def RoundsTrail (body : List Node) (es : List Expr) : Prop :=
  ∃ rounds : List (List Expr), es = rounds.flatten ∧ ∀ es ∈ rounds, Node.TrailAll body es

theorem notes_straightRounds {item : Binding} {index : Option Binding} {nodes : List Node}
    {body : Replies → Pass (σ × List Expr) (Replies × Flow)} (h : ∀ rs, Notes (Node.TrailAll nodes) (body rs))
    (vs : List Value) (n : Nat) (rs : Replies) : Notes (RoundsTrail nodes) (straightRounds item index body vs n rs) := by
  induction vs generalizing n rs with
  | nil => exact (still_pure _).apart.steady.notes ⟨[], rfl, nofun⟩
  | cons v vs ih =>
    have round : Notes (Node.TrailAll nodes) (within none (do declareItem item index v n; body rs)) :=
      ((steady_declareItem item index v n).then fun _ => h rs).within
    refine round.goingOn (fun rs => ih (n + 1) rs) ?_ ?_
    · intro es fine
      exact ⟨[es], by simp, by simpa using fine⟩
    · rintro es _ fine ⟨rounds, rfl, later⟩
      exact ⟨es :: rounds, rfl, List.forall_mem_cons.mpr ⟨fine, later⟩⟩

theorem notes_straightStep {kind : List Expr → Prop} {around : Surroundings} {span : Span} {tags : List Attribute}
    {values : Attributes} {body : Replies → Pass (σ × List Expr) (Replies × Flow)} (h : ∀ rs, Notes kind (body rs))
    {rs : Replies} : Notes kind (straightStep options around span tags values body rs) := by
  refine (still_openStep around span tags values).apart.steady.then fun head => (h rs).finish fun _ => ?_
  refine (apart_leaveSettings head).steady.bind fun _ => (apart_flushContent options).steady.bind fun _ => ?_
  cases rs with
  | nil => exact (still_pure _).apart.steady
  | cons r rs => exact (steady_closeStep span head r).bind fun _ => (still_pure _).apart.steady

mutual

/-- What a straight walk evaluates in a node is a trail of it. -/
theorem notes_straight (around : Surroundings) : ∀ (n : Node) (rs : Replies),
    Notes n.Trail (straight eval.noting options around n rs)
  | .text .., rs => by
    unfold straight
    exact ((apart_addSegment _).steady.bind fun _ => (still_pure _).apart.steady).notes .text
  | .comment .., rs => by
    unfold straight
    exact (still_pure _).apart.steady.notes .comment
  | .config .., rs => by
    unfold straight
    exact ((apart_meetHeader _ _).steady.bind fun _ => (still_pure _).apart.steady).notes .config
  | .interpolation span e p, rs => by
    unfold straight
    have noted := (notes_evaluate eval e).finish fun v => (apart_interpolated options around span e v).steady
    refine (noted.finish fun _ => (still_pure (rs, Flow.goesOn)).apart.steady).imp ?_
    rintro _ rfl
    exact .interpolation
  | .group span body p, rs => by
    unfold straight
    exact (notes_straightAll around body rs).imp fun _ => .group
  | .choice span test body none p, rs => by
    unfold straight
    refine (notes_evaluate eval test).bind (fun es => es = [] ∨ Node.TrailAll body es) (fun v => ?_) ?_
    · split
      · exact (notes_straightAll around body rs).within.imp fun _ => .inr
      · exact (still_pure _).apart.steady.notes (.inl rfl)
    · rintro _ es rfl (rfl | inside)
      · exact .skips
      · exact .holds inside
  | .choice span test body (some other) p, rs => by
    unfold straight
    refine (notes_evaluate eval test).bind (fun es => Node.TrailAll body es ∨ Node.TrailAll other es) (fun v => ?_) ?_
    · split
      · exact (notes_straightAll around body rs).within.imp fun _ => .inl
      · exact (notes_straightAll around other rs).within.imp fun _ => .inr
    · rintro _ es rfl (inside | inside)
      · exact .holds inside
      · exact .fails inside
  | .loop span items item index body none p, rs => by
    unfold straight
    refine (notes_evaluate eval items).bind (RoundsTrail body) (fun v => ?_) ?_
    · exact (still_itemsOf items v).apart.steady.then fun vs =>
        notes_straightRounds (fun rs => notes_straightAll around body rs) vs 0 rs
    · rintro _ _ rfl ⟨rounds, rfl, inside⟩
      exact .loop rounds inside
  | .loop span items item index body (some other) p, rs => by
    unfold straight
    refine (notes_evaluate eval items).bind (fun es => Node.TrailAll other es ∨ RoundsTrail body es) (fun v => ?_) ?_
    · refine (still_itemsOf items v).apart.steady.then fun vs => ?_
      split
      · exact (notes_straightAll around other rs).within.imp fun _ => .inl
      · exact (notes_straightRounds (fun rs => notes_straightAll around body rs) _ 0 rs).imp fun _ => .inr
    · rintro _ _ rfl (inside | ⟨rounds, rfl, inside⟩)
      · exact .idle inside
      · exact .loop rounds inside
  | .element span tag attributes body p, rs => by
    unfold straight
    refine (apart_flushPassage options).steady.then fun _ => ?_
    refine (notes_attributeValues eval attributes []).bind (Node.TrailAll body) (fun values => ?_) ?_
    · cases tag with
      | content kind =>
        exact (still_openContent around span kind values).apart.steady.then fun _ =>
          (notes_straightAll { around with inContent := true } body rs).closing (apart_closeContent options _ _ _).steady
      | message role =>
        exact (apart_openMessage options around span role values).steady.then fun _ =>
          (notes_straightAll { around with inMessage := true } body rs).closing (apart_closeMessage options _ _ _).steady
      | scope =>
        exact (still_newScope values body).apart.steady.then fun _ => (notes_straightAll around body rs).enclosed
      | step => exact notes_straightStep options fun rs => notes_straightAll { around with inStep := true } body rs
      | reference => exact (still_fail _ _).apart.steady.notes .cut
    · rintro _ es rfl inside
      exact .element inside

/-- What a straight walk evaluates in nodes is a trail of them. -/
theorem notes_straightAll (around : Surroundings) : ∀ (nodes : List Node) (rs : Replies),
    Notes (Node.TrailAll nodes) (straightAll eval.noting options around nodes rs)
  | [], rs => (still_pure _).apart.steady.notes .cut
  | n :: r, rs => by
    refine (notes_straight around n rs).goingOn (fun rs => notes_straightAll around r rs) ?_ fun es es' => .more
    intro es fine
    rw [← List.append_nil es]
    exact .more fine .cut

end

end Pass

/-- What a straight walk evaluates in a document is a trail of its nodes. -/
theorem Document.notes_straight (eval : Evaluator σ) (options : Options) (d : Document) (rs : Replies) :
    Pass.Notes (Node.TrailAll d.body) (d.straight eval.noting options rs) :=
  (Pass.notes_straightAll eval options {} d.body rs).within.finish fun _ =>
    (Pass.apart_flushContent options).steady.bind fun _ => (Pass.still_pure _).apart.steady

end PromptScript
