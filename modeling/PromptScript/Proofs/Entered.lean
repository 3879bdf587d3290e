import PromptScript.Proofs.Accepted
import PromptScript.Proofs.Uninterrupted

/-! # Entering closed parts

The check that a pass makes of a closed part starts from the attributes that have values. A survey starts from all
attributes of the tag, and so it finds less: what the check finds wrong with an accepted part are reads of attributes
that have no value. A pass over an accepted document has no other fault of a name that is not declared, but for those
of evaluations. -/
namespace PromptScript

variable {σ : Type}

/-! ## Fewer names, more faults -/

/-- Two analyses at the same place, where the second may read more names than the first. -/
structure Wider (names more : Names) (s t : Usage × List Fault) : Prop where
  fewer : s.1.allowed = some names
  allowed : t.1.allowed = some more
  defined : s.1.defined = t.1.defined
  found : ∀ f ∈ s.2, f ∈ t.2 ∨ ∃ x ∈ more, x ∉ names ∧ f.defect = .variableNotDeclared x

theorem lockstep_wider (names more : Names) : Lockstep (Wider names more) where
  read := by
    intro s t h name span
    unfold Usage.read
    rw [← h.defined, h.fewer, h.allowed]
    split
    · exact ⟨h.fewer, h.allowed, h.defined, by simpa only [List.append_nil] using h.found⟩
    · refine ⟨h.fewer, h.allowed, h.defined, fun f there => ?_⟩
      rcases List.mem_append.mp there with before | here
      · exact (h.found f before).imp_left (List.mem_append_left _)
      · dsimp only at here ⊢
        split at here
        · cases here
        · next outside =>
          obtain rfl := List.mem_singleton.mp here
          by_cases known : name ∈ more
          · exact .inr ⟨name, known, outside, rfl⟩
          · rw [if_neg known]
            exact .inl (List.mem_append_right _ here)
  define h name := ⟨h.fewer, h.allowed, congrArg (Names.insert name) h.defined, h.found⟩
  branch h inside := ⟨h.fewer, h.allowed, h.defined, inside.found⟩

/-- **What the check finds wrong with an accepted part**: reads of attributes that have no value. -/
theorem ClosedPart.Accepted.absent_of_closureFaults {part : ClosedPart} (accepted : part.Accepted) (names : List String) :
    ∀ f ∈ Node.closureFaults names part.body,
      ∃ a ∈ part.attributes, a.name ∉ names ∧ f.defect = .variableNotDeclared a.name := by
  intro f found
  let more := names ++ part.attributes.map Attribute.name
  have start : Wider (Names.ofList names) (Names.ofList more) (Usage.start (some (Names.ofList names)), [])
      (Usage.start (some (Names.ofList more)), []) := ⟨rfl, rfl, rfl, nofun⟩
  have wider := Node.analyzeAll_lockstep (lockstep_wider _ _) part.body start
  have closed : Node.closureFaults more part.body = [] :=
    accepted more fun a member => List.mem_append_right _ (List.mem_map_of_mem member)
  rcases wider.found f found with there | ⟨x, given, out, same⟩
  · exact absurd (closed ▸ there : f ∈ []) List.not_mem_nil
  · have given := (List.mem_append.mp (Names.mem_ofList.mp given)).resolve_left fun known => out (Names.mem_ofList.mpr known)
    obtain ⟨a, member, rfl⟩ := List.mem_map.mp given
    exact ⟨a, member, fun known => out (Names.mem_ofList.mpr known), same⟩

/-! ## Attributes without a value -/

/-- The evaluation of an attribute may give nothing. -/
def Attribute.MayLack (eval : Evaluator σ) (a : Attribute) : Prop :=
  ∃ parts s s', a.value = .nodes parts ∧ Pass.Runs (Pass.attributeParts eval parts) s [] s'

/-- Whether an attribute has a value whatever its expressions have: no more than its name is written, or some text. -/
def Attribute.isGiven : Attribute → Bool
  | .mk _ _ .flag => true
  | .mk _ _ (.nodes parts) => parts.any fun
    | .text _ data _ => data ≠ ""
    | _ => false

namespace Pass

variable {eval : Evaluator σ}

theorem not_mayLack_of_isGiven {a : Attribute} (given : a.isGiven = true) : ¬ a.MayLack eval := by
  obtain ⟨span, name, _ | parts⟩ := a
  · rintro ⟨_, _, _, ⟨⟩, -⟩
  · rintro ⟨_, s, t, ⟨⟩, ran⟩
    obtain ⟨n, member, written⟩ := List.any_eq_true.mp given
    induction parts generalizing s with
    | nil => cases member
    | cons m r ih =>
      cases m with
      | text _ data _ =>
        obtain ⟨vs, s', later, ended⟩ := runs_bind.mp ran
        obtain ⟨same, rfl⟩ := runs_pure.mp ended
        split at same
        · next blank =>
          obtain rfl := same
          rcases List.mem_cons.mp member with rfl | member
          · exact absurd blank (of_decide_eq_true written)
          · exact ih (List.any_eq_true.mpr ⟨n, member, written⟩) s later member
        · cases same
      | interpolation _ e _ =>
        obtain ⟨v, s', -, later⟩ := runs_bind.mp ran
        rcases List.mem_cons.mp member with rfl | member
        · cases written
        · cases v with
          | undefined => exact ih (List.any_eq_true.mpr ⟨n, member, written⟩) s' later member
          | _ =>
            obtain ⟨vs, s₂, -, ended⟩ := runs_bind.mp later
            cases (runs_pure.mp ended).1
      | _ =>
        rcases List.mem_cons.mp member with rfl | member
        · cases written
        · exact ih (List.any_eq_true.mpr ⟨n, member, written⟩) s ran member

/-- The first attribute has its value put to the others, unless it has none. -/
theorem runs_attributeValues_cons {a : Attribute} {r : List Attribute} {acc values : Attributes} {s t : PassState σ}
    (ran : Runs (attributeValues eval (a :: r) acc) s values t) :
    ∃ acc' s', Runs (attributeValues eval r acc') s' values t ∧
      ((∃ v, acc' = Fields.set a.name v acc) ∨ acc' = acc ∧ a.MayLack eval) := by
  obtain ⟨span, name, _ | parts⟩ := a
  · exact ⟨_, s, ran, .inl ⟨_, rfl⟩⟩
  · obtain ⟨vs, s', found, later⟩ := runs_bind.mp ran
    obtain _ | ⟨v, _ | ⟨w, vs⟩⟩ := vs
    · exact ⟨acc, s', later, .inr ⟨rfl, parts, s, s', rfl, found⟩⟩
    · exact ⟨_, s', later, .inl ⟨_, rfl⟩⟩
    · exact ⟨_, s', later, .inl ⟨_, rfl⟩⟩

theorem names_attributeValues {attributes : List Attribute} {acc values : Attributes} {s t : PassState σ}
    (ran : Runs (attributeValues eval attributes acc) s values t) : ∀ x ∈ Fields.names acc, x ∈ Fields.names values := by
  induction attributes generalizing acc s with
  | nil =>
    obtain ⟨rfl, -⟩ := runs_pure.mp ran
    exact fun _ => id
  | cons a r ih =>
    obtain ⟨acc', s', later, ⟨v, rfl⟩ | ⟨rfl, -⟩⟩ := runs_attributeValues_cons ran
    · exact fun x there => ih later x (Fields.mem_names_set.mpr (.inl there))
    · exact ih later

/-- An attribute that is not among those found is one that may give nothing. -/
theorem mayLack_of_attributeValues {attributes : List Attribute} {acc values : Attributes} {s t : PassState σ}
    (ran : Runs (attributeValues eval attributes acc) s values t) {a : Attribute} (member : a ∈ attributes)
    (out : a.name ∉ Fields.names values) : a.MayLack eval := by
  induction attributes generalizing acc s with
  | nil => cases member
  | cons b r ih =>
    obtain ⟨acc', s', later, found⟩ := runs_attributeValues_cons ran
    rcases List.mem_cons.mp member with rfl | member
    · rcases found with ⟨v, rfl⟩ | ⟨-, lacks⟩
      · exact absurd (names_attributeValues later _ (Fields.mem_names_set.mpr (.inr rfl))) out
      · exact lacks
    · exact ih later member

end Pass

/-! ## Closed parts that passes come to -/

namespace Entry

/-- Either the attributes have no values yet, or the scope of the part has been saved with them. -/
def Sound (entry : Entry) : Prop := entry.marks.memo = none ∨ entry.marks.stash.isSome = true

/-- An accepted part is entered, unless an attribute has no value. -/
theorem raises_scope {eval : Evaluator σ} {p : Fault → PassState σ → Prop} (evals : ∀ e, Raises p (Pass.evaluate eval e))
    {entry : Entry} (sound : entry.Sound) (accepted : ClosedPart.Accepted ⟨entry.attributes, entry.body⟩)
    (lacking : ∀ a ∈ entry.attributes, a.MayLack eval → ∀ fault s, fault.defect = .variableNotDeclared a.name → p fault s) :
    Raises p (entry.scope eval) := by
  intro s fault t ran
  rcases Raises.run_bind_eq_error.mp ran with first | ⟨values, s₁, found, later⟩
  · exact Pass.raises_rememberedAttributes evals _ _ s fault t first
  · unfold Pass.closedScope at later
    dsimp only at later
    rcases sound with unknown | saved
    · unfold Pass.rememberedAttributes at found
      rw [unknown] at found
      split at later
      · cases later
      · unfold Pass.newScope at later
        split at later
        · next other _ faults =>
          cases later
          obtain ⟨a, member, out, same⟩ := accepted.absent_of_closureFaults (Fields.names values) fault
            (by rw [faults]; exact List.mem_cons_self)
          exact lacking a member (Pass.mayLack_of_attributeValues found member out) fault _ same
        · cases later
    · obtain ⟨stash, there⟩ := Option.isSome_iff_exists.mp saved
      rw [there] at later
      cases later

end Entry

namespace Node

variable {anew : Bool}

mutual

/-- A closed part that a pass comes to is one of the document. -/
theorem closedPart_of_entry : ∀ (n : Node) (anew : Bool), ∀ entry ∈ n.entries anew,
    ⟨entry.attributes, clearedAll entry.body⟩ ∈ n.cleared.closedParts
  | text .., _, _, member | comment .., _, _, member | config .., _, _, member | interpolation .., _, _, member =>
    absurd member List.not_mem_nil
  | group _ body _, anew, entry, member | choice _ _ body none _, anew, entry, member =>
    closedPart_of_entryAll body anew entry member
  | choice _ _ body (some other) _, anew, entry, member =>
    List.mem_append.mpr ((List.mem_append.mp member).imp (closedPart_of_entryAll body anew entry)
      (closedPart_of_entryAll other anew entry))
  | loop _ _ _ _ body none _, anew, entry, member =>
    (List.mem_append.mp member).elim (closedPart_of_entryAll body anew entry) (closedPart_of_entryAll body true entry)
  | loop _ _ _ _ body (some other) _, anew, entry, member =>
    List.mem_append.mpr ((List.mem_append.mp member).imp (fun member => (List.mem_append.mp member).elim
      (closedPart_of_entryAll body anew entry) (closedPart_of_entryAll body true entry))
      (closedPart_of_entryAll other anew entry))
  | element _ tag attributes body _, anew, entry, member => by
    have inside := closedPart_of_entryAll body anew entry
    cases tag with
    | scope =>
      rcases List.mem_cons.mp member with rfl | member
      · exact List.mem_cons_self
      · exact List.mem_cons_of_mem _ (inside member)
    | reference => exact absurd member List.not_mem_nil
    | _ => exact inside member

theorem closedPart_of_entryAll : ∀ (nodes : List Node) (anew : Bool), ∀ entry ∈ entriesAll anew nodes,
    ⟨entry.attributes, clearedAll entry.body⟩ ∈ closedPartsAll (clearedAll nodes)
  | [], _, _, member => absurd member List.not_mem_nil
  | n :: r, anew, entry, member => by
    refine List.mem_append.mpr ((List.mem_append.mp member).imp (fun first => ?_) (closedPart_of_entryAll r anew entry))
    split at first
    · cases first
    · exact closedPart_of_entry n anew entry first

end

mutual

/-- Without marks that count nothing is known of closed parts. -/
theorem entry_of_fresh : ∀ (n : Node) {anew : Bool}, n.Fresh anew → ∀ entry ∈ n.entries anew, entry.Sound
  | text .., _, _, _, member | comment .., _, _, _, member | config .., _, _, _, member | interpolation .., _, _, _, member =>
    absurd member List.not_mem_nil
  | group _ body _, _, fresh, entry, member =>
    entryAll_of_fresh body (fresh.imp_right fun h => (Node.group.inj h).2.1) entry member
  | choice _ _ body none _, _, fresh, entry, member =>
    entryAll_of_fresh body (fresh.imp_right fun h => (Node.choice.inj h).2.2.1) entry member
  | choice _ _ body (some other) _, _, fresh, entry, member =>
    (List.mem_append.mp member).elim
      (entryAll_of_fresh body (fresh.imp_right fun h => (Node.choice.inj h).2.2.1) entry)
      (entryAll_of_fresh other (fresh.imp_right fun h => Option.some.inj (Node.choice.inj h).2.2.2.1) entry)
  | loop _ _ _ _ body none _, _, fresh, entry, member =>
    (List.mem_append.mp member).elim
      (entryAll_of_fresh body (fresh.imp_right fun h => (Node.loop.inj h).2.2.2.2.1) entry)
      (entryAll_of_fresh body (.inl rfl) entry)
  | loop _ _ _ _ body (some other) _, _, fresh, entry, member => by
    rcases List.mem_append.mp member with member | member
    · exact (List.mem_append.mp member).elim
        (entryAll_of_fresh body (fresh.imp_right fun h => (Node.loop.inj h).2.2.2.2.1) entry)
        (entryAll_of_fresh body (.inl rfl) entry)
    · exact entryAll_of_fresh other (fresh.imp_right fun h => Option.some.inj (Node.loop.inj h).2.2.2.2.2.1) entry member
  | element _ tag attributes body p, _, fresh, entry, member => by
    have marks := marks_of_fresh (fresh.imp_right fun h => (Node.element.inj h).2.2.2.2.symm)
    have inside := entryAll_of_fresh body (fresh.imp_right fun h => (Node.element.inj h).2.2.2.1) entry
    cases tag with
    | scope =>
      rcases List.mem_cons.mp member with rfl | member
      · exact .inl (by rw [marks.2])
      · exact inside member
    | reference => exact absurd member List.not_mem_nil
    | _ => exact inside member

theorem entryAll_of_fresh : ∀ (nodes : List Node) {anew : Bool}, FreshAll anew nodes →
    ∀ entry ∈ entriesAll anew nodes, entry.Sound
  | [], _, _, _, member => absurd member List.not_mem_nil
  | n :: r, _, fresh, entry, member => by
    rcases List.mem_append.mp member with first | later
    · split at first
      · cases first
      · exact entry_of_fresh n (fresh.imp_right fun h => (List.cons.inj h).1) entry first
    · exact entryAll_of_fresh r (fresh.imp_right fun h => (List.cons.inj h).2) entry later

end

/-- A node that is done is not visited again. -/
theorem entriesAll_of_done {n : Node} {r : List Node} (done : n.isDone = true) :
    entriesAll false (n :: r) = entriesAll false r := by
  show (if !false && n.isDone then [] else entries false n) ++ entriesAll false r = _
  rw [done]
  rfl

/-- What a pass does not reach it leaves without marks, or as it was. -/
theorem entryAll_untouched {nodes : List Node} (h : ∀ entry ∈ entriesAll anew nodes, entry.Sound) :
    ∀ entry ∈ entriesAll false (Pass.untouched anew nodes), entry.Sound := by
  unfold Pass.untouched
  cases anew with
  | true => exact entryAll_of_fresh (clearedAll nodes) (.inr (clearedAll_clearedAll nodes))
  | false => exact h

end Node

namespace Pass

variable (eval : Evaluator σ) (options : Options)

/-- A part leaves nodes in which the next pass finds closed parts as they have to be. -/
abbrev LeavesSound (part : Pass σ (List Node × Flow)) : Prop :=
  Leaves (fun nodes => ∀ entry ∈ Node.entriesAll false nodes, entry.Sound) part

/-- Where a part stops it leaves a node in which the next pass finds closed parts as they have to be. -/
abbrev StopsSound (part : Pass σ (Node × Flow)) : Prop :=
  Yields (fun r => r.2 = .stops → ∀ entry ∈ r.1.entries false, entry.Sound) part

namespace StopsSound

variable {α β : Type}

theorem goesOn (n : Node) : StopsSound (Pure.pure (n, .goesOn) : Pass σ (Node × Flow)) := yields_pure nofun

theorem after {part : Pass σ β} {rest : β → Pass σ (Node × Flow)} (h : ∀ b, StopsSound (rest b)) :
    StopsSound (part >>= rest) :=
  Yields.bind (fun _ _ _ _ => trivial : Yields (fun _ => True) part) fun b _ => h b

theorem into {f : α → Flow → Node} {part : Pass σ (α × Flow)} {good : α → Prop} (h : Leaves good part)
    (stop : ∀ a, good a → ∀ entry ∈ (f a .stops).entries false, entry.Sound) : StopsSound (Pass.into f part) := by
  refine Yields.bind h fun (a, flow) here => yields_pure ?_
  rintro ⟨⟩
  exact stop a here

theorem goingOn {part : Pass σ (Node × Flow)} {left : Node → List Node} {rest : Node → Pass σ (List Node × Flow)}
    (h : StopsSound part) (stop : ∀ n, (∀ entry ∈ n.entries false, entry.Sound) →
      ∀ entry ∈ Node.entriesAll false (left n), entry.Sound)
    (on : ∀ n, LeavesSound (rest n)) : LeavesSound (Pass.goingOn part left rest) := by
  refine Yields.bind h fun (n, flow) here => ?_
  cases flow with
  | stops => exact yields_pure (stop n (here rfl))
  | goesOn => exact on n

end StopsSound

mutual

/-- **Where a pass stops in a node, the closed parts on the way have their scopes saved.** -/
theorem sound_walk (around : Surroundings) (anew : Bool) : ∀ n : Node, (∀ entry ∈ n.entries anew, entry.Sound) →
    StopsSound (walk eval options around anew n)
  | .text _ _ _, _ => .after fun _ => .goesOn _
  | .comment _ _ _, _ => .goesOn _
  | .config _ _ _, _ => .after fun _ => .goesOn _
  | .interpolation _ _ _, _ => .after fun _ => .goesOn _
  | .group _ body _, sound => by
    unfold walk
    exact .into (sound_walkAll around anew body sound) fun _ => id
  | .choice _ _ body none _, sound => by
    unfold walk
    refine .after fun holds => ?_
    dsimp only
    split
    · exact .into (.inView (sound_walkAll around anew body sound)) fun _ => id
    · exact .goesOn _
  | .choice _ _ body (some other) _, sound => by
    obtain ⟨first, second⟩ := List.forall_mem_append.mp sound
    unfold walk
    refine .after fun holds => ?_
    dsimp only
    split
    · exact .into (.inView (sound_walkAll around anew body first)) fun _ inside =>
        List.forall_mem_append.mpr ⟨inside, Node.entryAll_untouched second⟩
    · exact .into (.inView (sound_walkAll around anew other second)) fun _ inside =>
        List.forall_mem_append.mpr ⟨Node.entryAll_untouched first, inside⟩
  | .loop _ _ _ _ body none _, sound => by
    obtain ⟨first, again⟩ := List.forall_mem_append.mp sound
    unfold walk
    refine .after fun v => .after fun items => ?_
    refine .into (.roundsFrom (sound_walkAll around anew body first) (sound_walkAll around true body again)
      (Node.entryAll_untouched first)) fun _ inside => ?_
    exact List.forall_mem_append.mpr ⟨inside, Node.entryAll_of_fresh _ (.inl rfl)⟩
  | .loop _ _ _ _ body (some other) _, sound => by
    obtain ⟨sound, second⟩ := List.forall_mem_append.mp sound
    obtain ⟨first, again⟩ := List.forall_mem_append.mp sound
    unfold walk
    refine .after fun v => .after fun items => ?_
    have anyRound (nodes : List Node) : ∀ entry ∈ Node.entriesAll true nodes, entry.Sound :=
      Node.entryAll_of_fresh nodes (.inl rfl)
    cases items with
    | nil =>
      exact .into (.inView (sound_walkAll around anew other second)) fun _ inside => List.forall_mem_append.mpr
        ⟨List.forall_mem_append.mpr ⟨Node.entryAll_untouched first, anyRound _⟩, inside⟩
    | cons =>
      exact .into (.roundsFrom (sound_walkAll around anew body first) (sound_walkAll around true body again)
        (Node.entryAll_untouched first)) fun _ inside => List.forall_mem_append.mpr
          ⟨List.forall_mem_append.mpr ⟨inside, anyRound _⟩, Node.entryAll_untouched second⟩
  | .element span tag attributes body _, sound => by
    unfold walk
    refine .after fun _ => .after fun values => ?_
    cases tag with
    | content | message =>
      exact .into (.after fun _ => .closing (sound_walkAll _ anew body sound)) fun _ => id
    | scope =>
      refine .after fun inner => .into (.inScope (sound_walkAll around anew body (List.forall_mem_cons.mp sound).2)) ?_
      exact fun _ inside => List.forall_mem_cons.mpr ⟨.inr rfl, inside⟩
    | step =>
      have inside : Leaves (fun visited => ∀ entry ∈ Node.entriesAll false (visited.getD (untouched anew body)), entry.Sound)
          (step options around span attributes values (walkAll eval options { around with inStep := true } anew body)) := by
        refine .after fun head => .after fun response => ?_
        cases response with
        | none => exact (sound_walkAll _ anew body sound).bind fun _ _ inside => .after fun _ => .pure inside
        | some => exact .after fun _ => .after fun _ => .pure (Node.entryAll_untouched sound)
      exact .into inside fun _ => id
    | reference => exact fun _ _ _ ran => nomatch ran

/-- So it is in each of some nodes: those before the stop are done, and those after it are as they were. -/
theorem sound_walkAll (around : Surroundings) (anew : Bool) : ∀ nodes : List Node,
    (∀ entry ∈ Node.entriesAll anew nodes, entry.Sound) → LeavesSound (walkAll eval options around anew nodes)
  | [], _ => .pure nofun
  | n :: r, sound => by
    obtain ⟨first, second⟩ := List.forall_mem_append.mp sound
    have later := sound_walkAll around anew r second
    unfold walkAll
    split
    · next skip =>
      refine .into later fun _ _ inside => ?_
      rw [Node.entriesAll_of_done (Bool.and_eq_true_iff.mp skip).2]
      exact inside
    · next visited =>
      rw [if_neg visited] at first
      refine (sound_walk around anew n first).goingOn (fun n' stop => ?_) fun n' => .into later fun _ _ inside => ?_
      · refine List.forall_mem_append.mpr ⟨?_, Node.entryAll_untouched second⟩
        split
        · exact nofun
        · exact stop
      · rw [Node.entriesAll_of_done n'.isDone_finished]
        exact inside

end

end Pass

/-! ## Chains -/

/-- The closed parts that a pass comes to in the document are as they have to be. -/
def Document.Sound (d : Document) : Prop := ∀ entry ∈ Node.entriesAll false d.body, entry.Sound

theorem Document.sound_of_parse {source : List Char} {d : Document} (parsed : parse source = .ok d) : d.Sound :=
  Node.entryAll_of_fresh d.body (.inr (Grammar.unmarked_of_parse parsed).1)

theorem Document.Sound.after {eval : Evaluator σ} {options : Options} {d : Document} {response : Option (List Content)}
    {m m' : Machine σ} {outcome : Outcome} (sound : d.Sound)
    (ran : d.pass eval options response m = (.ok outcome, m')) : outcome.document.Sound := by
  have visits : Pass.Leaves (fun d' => d'.Sound) (d.visit eval options) :=
    (Pass.Leaves.inView (Pass.sound_walkAll eval options {} false d.body sound)).bind fun _ _ inside =>
      .after fun _ => .pure inside
  obtain ⟨flow, t, visited, -⟩ := Document.runs_visit_of_pass eval options ran
  exact visits _ _ _ visited

namespace Chain

/-- The chain that calls leave. -/
def called (eval : Evaluator σ) : List (Option Response) → Chain → World σ → Chain
  | [], chain, _ => chain
  | response :: responses, chain, world =>
    match chain.step eval response world with
    | (.error _, world) => called eval responses chain world
    | (.ok (next, _), world) => called eval responses next world

variable {eval : Evaluator σ} {chain : Chain}

/-- What every turn keeps all calls keep. -/
theorem called_of_after (good : Chain → Prop)
    (after : ∀ {chain : Chain} {response : Option Response} {world world' : World σ} {turn : Turn},
      good chain → Taken eval chain response world turn world' → good (chain.after turn))
    (here : good chain) (responses : List (Option Response)) (world : World σ) : good (chain.called eval responses world) := by
  induction responses generalizing chain world with
  | nil => exact here
  | cons response responses ih =>
    unfold called
    split
    · exact ih here _
    · next made =>
      obtain ⟨turn, -, rfl, taken⟩ := step_eq_ok_iff.mp made
      exact ih (after here taken) _

end Chain

/-! ## Faults of evaluations -/

/-- The evaluator with a list of the faults that evaluations have ended with. -/
def Evaluator.confessing (eval : Evaluator σ) : Evaluator (σ × List Fault) := fun e =>
  ExceptT.mk fun m =>
    match (eval e).run.run ⟨⟨m.fresh, m.host.1⟩, m.scope⟩ with
    | (.ok v, m') => (.ok v, ⟨⟨m'.fresh, m'.host, m.host.2⟩, m'.scope⟩)
    | (.error fault, m') => (.error fault, ⟨⟨m'.fresh, m'.host, m.host.2 ++ [fault]⟩, m'.scope⟩)

/-- What an evaluation fails with is in the list. -/
theorem Evaluator.raises_confessing (eval : Evaluator σ) (e : Expr) :
    Raises (fun fault s => fault ∈ s.machine.host.2) (Pass.evaluate eval.confessing e) := by
  intro s fault t ran
  have ran : (Pass.evaluate eval.confessing e).result s = (.error fault, t) := ran
  rw [Pass.result_evaluate] at ran
  obtain ⟨failed, rfl⟩ := Prod.mk.inj ran
  show fault ∈ ((eval.confessing e).run.run s.machine).2.host.2
  change ((eval.confessing e).run.run s.machine).1 = _ at failed
  have noted : (eval.confessing e).run.run s.machine = match (eval e).run.run ⟨⟨s.machine.fresh, s.machine.host.1⟩, s.machine.scope⟩ with
    | (.ok v, m') => (.ok v, ⟨⟨m'.fresh, m'.host, s.machine.host.2⟩, m'.scope⟩)
    | (.error fault, m') => (.error fault, ⟨⟨m'.fresh, m'.host, s.machine.host.2 ++ [fault]⟩, m'.scope⟩) := rfl
  rw [noted] at failed ⊢
  generalize (eval e).run.run ⟨⟨s.machine.fresh, s.machine.host.1⟩, s.machine.scope⟩ = x at failed ⊢
  obtain ⟨_ | v, m⟩ := x
  · obtain rfl := Except.error.inj failed
    exact List.mem_append_right _ List.mem_cons_self
  · cases failed

namespace Source

variable {source : Source} {options : SurveyOptions} {d : Document}

/-- **Closed parts are closed by their attributes.** A survey without a list of parameters finds no defect in a document
whose content tags have their attributes written out. Then what the check finds wrong with any of its closed parts are
reads of attributes that have no value. And when, after any calls of a chain over the document, a call fails with a
name that is not declared, then either an evaluation has failed so, or the name is that of an attribute of a closed part
that may give nothing. -/
theorem closed_but_for_lacking (host : Host σ) (parsed : Document.parse source.content.toList = .ok d)
    (free : options.parameters = none) (spelled : Node.allSpelled d.body = true)
    (clean : (source.survey options none).diagnostics = []) :
    (∀ part ∈ Node.closedPartsAll d.body, ∀ values : Attributes, ∀ f ∈ Node.closureFaults (Fields.names values) part.body,
      ∃ a ∈ part.attributes, a.name ∉ Fields.names values ∧ f.defect = .variableNotDeclared a.name) ∧
    ∀ parameters format settings first responses world response w w' diagnostic name,
      Chain.start source.content parameters format settings = .ok first →
      (first.called (Expr.eval host).confessing responses world).step (Expr.eval host).confessing response w =
        (.error (.document diagnostic), w') →
      diagnostic.defect = .variableNotDeclared name →
      (∃ fault ∈ w'.host.2, fault.defect = .variableNotDeclared name) ∨
        ∃ part ∈ Node.closedPartsAll d.body, ∃ a ∈ part.attributes, a.name = name ∧ a.isGiven = false ∧
          a.MayLack (Expr.eval host).confessing := by
  have accepted := closed parsed free spelled clean
  refine ⟨fun part member values => (accepted part member).absent_of_closureFaults _, ?_⟩
  intro parameters format settings first responses world response w w' diagnostic name begins failed undeclared
  obtain ⟨-, -, -, -, -, -, parsed', -⟩ := Chain.start_eq_ok begins
  obtain rfl := Except.ok.inj (parsed.symm.trans parsed')
  have bare := (Grammar.unmarked_of_parse parsed).1
  obtain ⟨sound, same⟩ : (first.called (Expr.eval host).confessing responses world).document.Sound ∧
      Node.clearedAll (first.called (Expr.eval host).confessing responses world).document.body = first.document.body := by
    refine Chain.called_of_after (fun chain => chain.document.Sound ∧ Node.clearedAll chain.document.body = first.document.body)
      (fun ⟨sound, same⟩ taken => ?_) ⟨Document.sound_of_parse parsed, bare⟩ responses world
    obtain ⟨_, -, passed⟩ := taken.passed
    exact ⟨sound.after passed, (Document.marks_pass passed).trans same⟩
  generalize first.called (Expr.eval host).confessing responses world = chain at failed sound same
  obtain ⟨content, fault, machine, passed, rfl, told⟩ := Chain.pass_of_step failed
  -- Whatever a pass fails with either is a fault of an evaluation, or is excused where it is that of a name.
  let excused (fault : Fault) : Prop := ∀ name, fault.defect = .variableNotDeclared name →
    ∃ part ∈ Node.closedPartsAll first.document.body, ∃ a ∈ part.attributes, a.name = name ∧ a.isGiven = false ∧
      a.MayLack (Expr.eval host).confessing
  let owned (fault : Fault) (s : PassState (σ × List Fault)) : Prop := fault ∈ s.machine.host.2 ∨ excused fault
  have evals (e : Expr) : Raises owned (Pass.evaluate (Expr.eval host).confessing e) :=
    fun s fault t ran => .inl ((Expr.eval host).raises_confessing e s fault t ran)
  have common : Pass.Common (Node.refersAll first.document.body) owned := by
    rintro ⟨defect, span⟩ s fine
    refine .inr fun name same => ?_
    cases same
    cases fine
  have placed : Node.allPlaced (Node.refersAll first.document.body) {} chain.document.body = true := by
    rw [← Node.allPlaced_clearedAll, same]
    exact placed parsed clean
  have enters : ∀ entry ∈ Node.entriesAll false chain.document.body, Raises owned (entry.scope (Expr.eval host).confessing) := by
    intro entry member
    have part := Node.closedPart_of_entryAll chain.document.body false entry member
    rw [same] at part
    refine entry.raises_scope evals (sound entry member) (fun names given => ?_) fun a named lacks fault s undeclared => ?_
    · rw [← Node.closureFaults_clearedAll]
      exact accepted _ part names given
    · have open_ : a.isGiven = false := Bool.eq_false_iff.mpr fun given => Pass.not_mayLack_of_isGiven given lacks
      refine .inr fun name same => ⟨_, part, a, named, ?_, open_, lacks⟩
      exact Defect.variableNotDeclared.inj (undeclared.symm.trans same)
  obtain ⟨s, rfl, confessed | excused⟩ := Document.raised_of_pass (Document.raises_visit evals common placed enters) passed
  · exact .inl ⟨fault, confessed, told.symm.trans undeclared⟩
  · exact .inr (excused name (told.symm.trans undeclared))

/-- An attribute of a closed part has the value of a parameter. -/
def lentGreeting : Source := ⟨"main", "<scope a=\x7b\x7b x \x7d\x7d>\x7b\x7b a \x7d\x7d</scope>"⟩

/-- Only the attribute can be what is wrong with its closed part, and any call that fails with a name that is not
declared, though no evaluation does, fails with that of the attribute. -/
theorem lentGreeting_closed : ∃ d, Document.parse lentGreeting.content.toList = .ok d ∧
    (lentGreeting.survey {} none).diagnostics = [] ∧
    (Node.closedPartsAll d.body).map (fun part => (part.attributes.map Attribute.name,
      (Node.closureFaults [] part.body).map Fault.defect)) = [(["a"], [.variableNotDeclared "a"])] ∧
    (∀ part ∈ Node.closedPartsAll d.body, ∀ values : Attributes, ∀ f ∈ Node.closureFaults (Fields.names values) part.body,
      f.defect = .variableNotDeclared "a") ∧
    ∀ first responses world response w w' diagnostic name, Chain.start lentGreeting.content [] .canonical {} = .ok first →
      (first.called (Expr.eval Host.idle).confessing responses world).step (Expr.eval Host.idle).confessing response w =
        (.error (.document diagnostic), w') →
      diagnostic.defect = .variableNotDeclared name → w'.host.2 = [] → name = "a" := by
  have fine : (Document.parse lentGreeting.content.toList).toOption.map (fun d => (Node.allSpelled d.body,
      (Node.closedPartsAll d.body).map fun part => (part.attributes.map Attribute.name,
        (Node.closureFaults [] part.body).map Fault.defect))) =
      some (true, [(["a"], [.variableNotDeclared "a"])]) := by decide +kernel
  have clean : (lentGreeting.survey {} none).diagnostics = [] := by decide +kernel
  cases parsed : Document.parse lentGreeting.content.toList with
  | error diagnostic => rw [parsed] at fine; cases fine
  | ok d =>
    rw [parsed] at fine
    obtain ⟨spelled, parts⟩ := Prod.mk.inj (Option.some.inj fine)
    obtain ⟨faults, fails⟩ := closed_but_for_lacking Host.idle parsed rfl spelled clean
    have named {part : ClosedPart} (member : part ∈ Node.closedPartsAll d.body) {a : Attribute} (there : a ∈ part.attributes) :
        a.name = "a" := by
      have known : (part.attributes.map Attribute.name, (Node.closureFaults [] part.body).map Fault.defect) ∈
        [(["a"], [.variableNotDeclared "a"])] := parts ▸ List.mem_map_of_mem member
      have known := (Prod.mk.inj (List.mem_singleton.mp known)).1
      exact List.mem_singleton.mp (known ▸ List.mem_map_of_mem there)
    refine ⟨d, rfl, clean, parts, fun part member values f found => ?_, ?_⟩
    · obtain ⟨a, there, -, same⟩ := faults part member values f found
      rw [same, named member there]
    · intro first responses world response w w' diagnostic name begins failed undeclared silent
      rcases fails [] .canonical {} first responses world response w w' diagnostic name begins failed undeclared with
        ⟨fault, confessed, -⟩ | ⟨part, member, a, there, rfl, -⟩
      · rw [silent] at confessed
        cases confessed
      · exact named member there

/-- What a first call fails with where no evaluation fails. -/
def silentDefect? (first : Chain) : Option Defect :=
  match first.step (Expr.eval Host.idle).confessing none ⟨0, ((), [])⟩ with
  | (.error (.document diagnostic), w) => if w.host.2.isEmpty then some diagnostic.defect else none
  | _ => none

/-- A survey of a text without references finds no defect, and yet the first call with some parameters fails with a
name that is not declared, though no evaluation does. -/
def FailsClosed (text : String) (parameters : List (String × Value)) (name : String) : Prop :=
  ((⟨"main", text⟩ : Source).survey {} none).diagnostics = [] ∧
    (Chain.start text parameters .canonical {}).toOption.map (fun first =>
      (Node.refersAll first.document.body, silentDefect? first)) = some (false, some (.variableNotDeclared name))

/-- Whether a closed part can be entered depends on the value of its attribute: without one the first call fails, with
one it does not. It also depends on names that the survey does not visit. -/
theorem closed_but_lacking :
    FailsClosed lentGreeting.content [] "a" ∧ FailsClosed "<scope a=\"\">\x7b\x7b a \x7d\x7d</scope>" [] "a" ∧
    ((Chain.start lentGreeting.content [("x", .string "1")] .canonical {}).toOption.map fun first =>
      (Chain.calls (Expr.eval Host.idle) [none] first ⟨0, ()⟩).1.map Except.isOk) = some [true] ∧
    FailsClosed "<scope><content-text b=\x7b\x7b x \x7d\x7d>hi</content-text></scope>" [("x", .string "1")] "x" :=
  ⟨⟨by decide +kernel, by decide +kernel⟩, ⟨by decide +kernel, by decide +kernel⟩, by decide +kernel,
    by decide +kernel, by decide +kernel⟩

end Source
end PromptScript
