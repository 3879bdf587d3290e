import PromptScript.Proofs.Asides
import PromptScript.Proofs.Persistence
import PromptScript.Proofs.Uninterrupted
import PromptScript.Proofs.Unstopped

/-! # Chains over documents that say the same

Chains over documents that say the same give the same, call by call. A header may stand elsewhere in the one than in the
other, as long as no pass can stop before it, and an empty line may come first. -/
namespace PromptScript

variable {σ : Type}

namespace Node

/-! ## Nodes without a header -/

mutual

/-- Whether there is a header in the node. -/
def headed : Node → Bool
  | text _ _ _ | comment _ _ _ | interpolation _ _ _ => false
  | config _ _ _ => true
  | choice _ _ body none _ | loop _ _ _ _ body none _ | element _ _ _ body _ | group _ body _ => headedAll body
  | choice _ _ body (some other) _ | loop _ _ _ _ body (some other) _ => headedAll body || headedAll other

def headedAll : List Node → Bool
  | [] => false
  | n :: r => headed n || headedAll r

end

theorem headedAll_append (nodes nodes' : List Node) : headedAll (nodes ++ nodes') = (headedAll nodes || headedAll nodes') := by
  induction nodes with
  | nil => rfl
  | cons n r ih => rw [List.cons_append, headedAll, headedAll, ih, Bool.or_assoc]

theorem PartsLike.refl (parts : List Node) : PartsLike parts parts := by
  induction parts with
  | nil => exact .nil
  | cons n r ih => exact .other n ih

end Node

theorem Attribute.Like.refl (attributes : List Attribute) : Attribute.Like attributes attributes := by
  induction attributes with
  | nil => exact .nil
  | cons a r ih =>
    obtain ⟨span, name, value⟩ := a
    cases value with
    | flag => exact .flag ih
    | nodes parts => exact .nodes (.refl parts) ih

namespace Node

/-- A single text or comment is a run. -/
theorem LikeAll.single {n : Node} {done : Bool} {s : String} (run : Run done [n] s) {r : List Node} (rest : LikeAll r r) :
    LikeAll (n :: r) (n :: r) := .run run run rest

/-- Nodes without a header say the same as themselves. -/
theorem LikeAll.refl : ∀ nodes : List Node, headedAll nodes = false → LikeAll nodes nodes
  | [], _ => .nil
  | n :: r, bare => by
    obtain ⟨bare, later⟩ := Bool.or_eq_false_iff.mp bare
    have rest := refl r later
    match n, bare with
    | .text .., _ => exact .single (.text rfl .nil) rest
    | .comment .., _ => exact .single (.comment rfl .nil) rest
    | .interpolation .., _ => exact .interpolation rfl rest
    | .choice _ _ body none _, bare => exact .choice rfl (refl body bare) rest
    | .choice _ _ body (some other) _, bare =>
      obtain ⟨bare, bare'⟩ := Bool.or_eq_false_iff.mp bare
      exact .choiceElse rfl (refl body bare) (refl other bare') rest
    | .loop _ _ _ _ body none _, bare => exact .loop rfl ⟨rfl, rfl⟩ (refl body bare) rest
    | .loop _ _ _ _ body (some other) _, bare =>
      obtain ⟨bare, bare'⟩ := Bool.or_eq_false_iff.mp bare
      exact .loopElse rfl ⟨rfl, rfl⟩ (refl body bare) (refl other bare') rest
    | .element _ _ _ body _, bare => exact .element (.refl _) (refl body bare) rest
    | .group _ body _, bare => exact .group (refl body bare) rest

theorem Run.headedAll {done : Bool} {nodes : List Node} {s : String} (h : Run done nodes s) : headedAll nodes = false := by
  induction h with
  | nil => rfl
  | text _ _ ih => exact ih
  | comment _ _ ih => exact ih

/-- Nodes that say the same as others have no header. -/
theorem LikeAll.headedAll {nodes nodes' : List Node} (h : LikeAll nodes nodes') :
    Node.headedAll nodes = false ∧ Node.headedAll nodes' = false := by
  have both {a b : Bool} (h : a = false) (h' : b = false) : (a || b) = false := by rw [h, h']; rfl
  induction h with
  | nil => exact ⟨rfl, rfl⟩
  | run first second _ ih =>
    rw [headedAll_append, headedAll_append]
    exact ⟨both first.headedAll ih.1, both second.headedAll ih.2⟩
  | interpolation _ _ ih => exact ih
  | choice _ _ _ inside ih | loop _ _ _ _ inside ih | element _ _ _ inside ih | group _ _ inside ih =>
    exact ⟨both inside.1 ih.1, both inside.2 ih.2⟩
  | choiceElse _ _ _ _ inside otherwise ih | loopElse _ _ _ _ _ inside otherwise ih =>
    exact ⟨both (both inside.1 otherwise.1) ih.1, both (both inside.2 otherwise.2) ih.2⟩

/-- An empty line. -/
def line : Node := .text ⟨0, 0⟩ "\n" none

/-- `body` is left of nodes without their header, which has the settings `config`. No tag stands before it. -/
inductive Headed : List Node → Config → List Node → Prop
  | without (body : List Node) : Headed body [] body
  | header {nodes rest : List Node} {span : Span} {data : String} {config : Config} (bare : taggedAll nodes = false)
    (reads : Config.ofHeader data = .ok config) : Headed (nodes ++ .config span data none :: rest) config (nodes ++ rest)

/-- Two lists of nodes of which the first nodes are done, and what is left says the same. -/
inductive LikeLater : List Node → List Node → Prop
  | mk {done done' rest rest' : List Node} (first : ∀ n ∈ done, n.isDone = true) (second : ∀ n ∈ done', n.isDone = true)
    (same : LikeAll rest rest') : LikeLater (done ++ rest) (done' ++ rest')

theorem LikeAll.later {nodes nodes' : List Node} (h : LikeAll nodes nodes') : LikeLater nodes nodes' :=
  .mk (List.forall_mem_nil _) (List.forall_mem_nil _) h

theorem LikeLater.append {done done' nodes nodes' : List Node} (first : ∀ n ∈ done, n.isDone = true)
    (second : ∀ n ∈ done', n.isDone = true) (h : LikeLater nodes nodes') : LikeLater (done ++ nodes) (done' ++ nodes') := by
  obtain ⟨first', second', same⟩ := h
  rw [← List.append_assoc, ← List.append_assoc]
  exact .mk (List.forall_mem_append.mpr ⟨first, first'⟩) (List.forall_mem_append.mpr ⟨second, second'⟩) same

end Node

/-! ## Passes over such documents -/

namespace PassState.Like

/-- What opens a pass is like itself. -/
theorem opening (m : Machine σ) (response : Option (List Content)) :
    Like none none (.opening m response) (.opening m response) :=
  ⟨rfl, rfl, .refl [], rfl, rfl, rfl, rfl, rfl⟩

end PassState.Like

open Node (LikeAll LikeLater)

namespace Pass

variable (eval : Evaluator σ) (options : Options)

/-- A node that is not done is visited before those after it. -/
theorem walkAll_of_open {around : Surroundings} {n : Node} (notDone : n.isDone = false) (r : List Node) :
    walkAll eval options around false (n :: r) = goingOn (walk eval options around false n) (fun n => n :: r)
      fun n => into (fun r _ => n.finished :: r) (walkAll eval options around false r) := by
  rw [walkAll, notDone]
  rfl

end Pass

/-- What passes over two documents give where they gather the same and leave such documents, but may have met different
headers. -/
structure Outcome.Like (g g' : Option Config) (o o' : Outcome) : Prop where
  messages : o.messages = o'.messages
  completed : o.completed = o'.completed
  header : o.globalConfig = g
  header' : o'.globalConfig = g'
  stepConfig : o.stepConfig = o'.stepConfig
  progress : o.document.progress = o'.document.progress
  body : LikeLater o.document.body o'.document.body
  stash : o.stash = o'.stash

namespace Document

open Pass

variable (eval : Evaluator σ) (options : Options) {g g' : Option Config} {d e : Document}

/-- Passes over two documents gather the same and leave such documents, but may meet different headers. -/
structure Matching (g g' : Option Config) (d e : Document) : Prop where
  progress : d.progress = e.progress
  walks : ∀ m response, Agree (Both LikeLater) (fun s t => s.machine = t.machine) (PassState.Like g g')
    ((walkAll eval options {} false d.body).result (.opening m response))
    ((walkAll eval options {} false e.body).result (.opening m response))

namespace Matching

variable {eval options}

/-- A pass goes over both documents in the same way. -/
theorem visit (h : Matching eval options g g' d e) (m : Machine σ) (response : Option (List Content)) :
    Agree (Both fun d e => d.progress = e.progress ∧ LikeLater d.body e.body) (fun s t => s.machine = t.machine)
      (PassState.Like g g') ((d.visit eval options).result (.opening m response))
      ((e.visit eval options).result (.opening m response)) := by
  have viewed : Agree (Both fun a b => LikeLater a.1 b.1 ∧ a.2 = b.2) (fun s t => s.machine = t.machine)
      (PassState.Like g g')
      ((inView (d.progress.getD {}).pointers (walkAll eval options {} false d.body)).result (.opening m response))
      ((inView (e.progress.getD {}).pointers (walkAll eval options {} false e.body)).result (.opening m response)) := by
    rw [← h.progress]
    exact agree_inView rfl (h.walks ⟨m.toWorld, { m.scope with pointers := (d.progress.getD {}).pointers.getD m.scope.pointers }⟩ response)
  refine viewed.bind ?_
  rintro ⟨⟨body, table⟩, flow⟩ ⟨⟨body', _⟩, _⟩ s t ⟨⟨same, rfl⟩, rfl⟩ here
  refine Agree.bind ((likewise_flushContent options s t here).mono (fun _ _ => id) (fun _ _ h => h.machine) fun _ _ => id) ?_
  rintro _ _ s t - here
  refine .ok ⟨⟨?_, same⟩, rfl⟩ here
  cases flow <;> rw [h.progress]

/-- A pass over both documents gives the same. -/
theorem pass (h : Matching eval options g g' d e) (response : Option (List Content)) (m : Machine σ) :
    Agree (Outcome.Like g g') Eq Eq (d.pass eval options response m) (e.pass eval options response m) := by
  have both := h.visit m response
  unfold Document.pass
  change Agree _ _ _ ((d.visit eval options).run.run ⟨m, #[], [], [], response, none, none⟩)
    ((e.visit eval options).run.run ⟨m, #[], [], [], response, none, none⟩) at both
  generalize (d.visit eval options).run.run _ = x at both ⊢
  generalize (e.visit eval options).run.run _ = y at both ⊢
  cases both with
  | @ok a b s t same here =>
    obtain ⟨d, flow⟩ := a
    obtain ⟨e, _⟩ := b
    obtain ⟨⟨progress, body⟩, rfl⟩ := same
    exact .ok ⟨congrArg Array.toList here.messages, rfl, here.header, here.header', here.stepConfig, progress, body,
      congrArg (fun m => m.scope.stash) here.machine⟩ here.machine
  | error here => exact .error here

end Matching

/-! ### Documents of which passes tell the same -/

variable {eval} (placeless : Expr.Placeless eval)

include placeless

/-- What is left of the documents says the same. -/
theorem alike_of_later (progress : d.progress = e.progress) (body : LikeLater d.body e.body) :
    Matching eval options none none d e where
  progress
  walks m response := by
    generalize d.body = nodes at body
    generalize e.body = nodes' at body
    obtain @⟨done, done', rest, rest', first, second, same⟩ := body
    show Agree _ _ _ ((walkAll eval options {} false (done ++ rest)).result _)
      ((walkAll eval options {} false (done' ++ rest')).result _)
    rw [walkAll_of_doneBefore options eval first, walkAll_of_doneBefore options eval second]
    have walks : Alongside LikeLater none none (into (fun r _ => done ++ r) (walkAll eval options {} false rest))
        (into (fun r _ => done' ++ r) (walkAll eval options {} false rest')) :=
      (walkAll_elsewhere options placeless same {} false).into fun _ _ _ like => (LikeAll.later like).append first second
    exact (walks _ _ (PassState.Like.opening m response)).mono (fun _ _ => id) (fun _ _ h => h.machine) fun _ _ => id

/-- An empty line before a document makes no difference. -/
theorem alike_of_line {nodes : List Node} (bare : Node.headedAll nodes = false) (progress : d.progress = e.progress)
    (body : d.body = nodes) (body' : e.body = Node.line :: nodes) : Matching eval options none none d e where
  progress
  walks m response := by
    let s : PassState σ := .opening m response
    have walks : Alongside LikeLater none none (into (fun r _ => r) (walkAll eval options {} false nodes))
        (into (fun r _ => Node.line.finished :: r) (walkAll eval options {} false nodes)) := by
      refine (walkAll_elsewhere options placeless (LikeAll.refl nodes bare) {} false).into fun _ _ _ like => ?_
      exact (LikeAll.later like).append (List.forall_mem_nil _) (List.forall_mem_singleton.mpr Node.line.isDone_finished)
    have first : walkAll eval options {} false (Node.line :: nodes) = (do
        addSegment (.literal "\n")
        into (fun r _ => Node.line.finished :: r) (walkAll eval options {} false nodes)) := by
      rw [walkAll_of_open eval options rfl, Node.line, walk]
      simp only [goingOn, bind_assoc, pure_bind]
      rfl
    have whole : into (fun r _ => r) (walkAll eval options {} false nodes) = walkAll eval options {} false nodes := bind_pure _
    have gathered : PassState.Like none none s { s with passage := [.literal "\n"] } :=
      { PassState.Like.opening m response with passage := ⟨.inr rfl, rfl⟩ }
    rw [whole] at walks
    rw [body, body', first]
    exact (walks s _ gathered).mono (fun _ _ => id) (fun _ _ h => h.machine) fun _ _ => id

/-- A header that no pass can stop before may as well be known from the start. -/
theorem alike_of_header {nodes rest : List Node} {span : Span} {data : String} {config : Config}
    (bare : Node.headedAll (nodes ++ rest) = false) (untagged : Node.taggedAll nodes = false)
    (reads : Config.ofHeader data = .ok config) (progress : d.progress = e.progress)
    (body : d.body = nodes ++ .config span data none :: rest) (body' : e.body = nodes ++ rest) :
    Matching eval options (some config) none d e where
  progress
  walks m response := by
    rw [Node.headedAll_append, Bool.or_eq_false_iff] at bare
    let header : Node := .config span data none
    have before := walkAll_elsewhere options placeless (LikeAll.refl nodes bare.1) {} false _ _ (.opening m response)
    have goesOn := GoesOn.walkAll eval options {} false nodes (Node.steppedAll_of_untagged nodes untagged) (.opening m response)
    have met : walkAll eval options {} false (header :: rest) = (do
        meetHeader span data
        into (fun r _ => header.finished :: r) (walkAll eval options {} false rest)) := by
      rw [walkAll_of_open eval options rfl, walk]
      simp only [goingOn, bind_assoc, pure_bind]
      rfl
    rw [body, body', walkAll_append, walkAll_append]
    unfold goingOn
    rw [result_bind, result_bind]
    generalize visited : (walkAll eval options {} false nodes).result (.opening m response) = x
    rw [show (walkAll eval options {} false nodes).run.run (.opening m response) = x from visited] at before
    cases before with
    | error here => exact .error rfl
    | @ok a _ s _ _ here =>
      obtain ⟨r, flow⟩ := a
      obtain rfl : flow = .goesOn := goesOn _ _ visited
      have done := isDone_of_goesOn eval options visited
      have walks : Alongside LikeLater (some config) none
          (into (fun r' _ => r ++ r') (into (fun r _ => header.finished :: r) (walkAll eval options {} false rest)))
          (into (fun r' _ => r ++ r') (walkAll eval options {} false rest)) := by
        rw [into_into]
        refine (walkAll_elsewhere options placeless (LikeAll.refl rest bare.2) {} false).into fun _ _ _ like => ?_
        have marked : ∀ n ∈ [header.finished], n.isDone = true := List.forall_mem_singleton.mpr header.isDone_finished
        exact ((LikeAll.later like).append marked (List.forall_mem_nil _)).append done done
      have gathered : PassState.Like (some config) none { s with globalConfig := some config } s :=
        { here with header := rfl }
      dsimp only
      rw [met]
      unfold meetHeader
      rw [reads]
      exact (walks _ _ gathered).mono (fun _ _ => id) (fun _ _ h => h.machine) fun _ _ => id

end Document

/-! ## Chains -/

/-- The fault without its place in a source. -/
def ChainFault.unplaced : ChainFault → ChainFault
  | document diagnostic => document (Diagnostic.of [] ⟨diagnostic.defect, ⟨0, 0⟩⟩)
  | fault => fault

namespace Chain

variable (eval : Evaluator σ) {g g' : Option Config} {chain other : Chain}

/-- What calls of the step give, one after the other, and the world they leave. A fault counts without its place. -/
def answers (responses : List (Option Response)) (chain : Chain) (world : World σ) :
    List (Except ChainFault StepResult) × World σ :=
  let (results, world) := calls eval responses chain world
  (results.map fun result => result.mapError ChainFault.unplaced, world)

/-- Two chains over documents of which passes tell the same. -/
structure Like (g g' : Option Config) (chain other : Chain) : Prop where
  document : Document.Matching eval chain.options g g' chain.document other.document
  config : (g.or chain.config).getD [] = (g'.or other.config).getD []
  others : other = { chain with source := other.source, document := other.document, config := other.config }

namespace Like

variable {eval} (placeless : Expr.Placeless eval)

include placeless

/-- What follows a pass is the same. -/
theorem advance (h : Like eval g g' chain other) (answer : Option Answer) {o o' : Outcome} (same : o.Like g g' o') :
    (∃ fault, chain.advance answer o = .error fault ∧ other.advance answer o' = .error fault) ∨
      ∃ next next' result, chain.advance answer o = .ok (next, result) ∧ other.advance answer o' = .ok (next', result) ∧
        Like eval none none next next' := by
  obtain ⟨-, config, others⟩ := h
  have alike := Document.alike_of_later chain.options placeless same.progress same.body
  have left : (o.globalConfig.or chain.config).getD [] = (o'.globalConfig.or other.config).getD [] := by
    rw [same.header, same.header', config]
  generalize other.source = source, other.document = document, header : other.config = header at others
  subst others
  unfold Chain.advance
  dsimp only
  rw [← same.messages, ← same.completed, ← same.stepConfig, ← same.stash, ← left]
  generalize Format.encode _ _ = x
  cases x with
  | error fault => exact .inl ⟨_, rfl, rfl⟩
  | ok exchange => exact .inr ⟨_, _, _, rfl, rfl, alike, left, rfl⟩

/-- **A step of both chains gives the same.** -/
theorem step (h : Like eval g g' chain other) (response : Option Response) (world : World σ) :
    (∃ fault fault' world', chain.step eval response world = (.error fault, world') ∧
      other.step eval response world = (.error fault', world') ∧ fault.unplaced = fault'.unplaced) ∨
      ∃ next next' result world', chain.step eval response world = (.ok (next, result), world') ∧
        other.step eval response world = (.ok (next', result), world') ∧ Like eval none none next next' := by
  have goesOn := h.advance placeless
  obtain ⟨alike, -, others⟩ := h
  have ready : other.checkTurn response = chain.checkTurn response := by rw [others]; rfl
  have read : other.answer? response = chain.answer? response := by rw [others]; rfl
  have passed (answer : Option Answer) := alike.pass (answer.map Answer.content) ⟨world, chain.scope⟩
  have scope : other.scope = chain.scope := by rw [others]
  have options : other.options = chain.options := by rw [others]
  unfold Chain.step
  rw [ready, read]
  cases chain.checkTurn response >>= fun _ => chain.answer? response with
  | error fault => exact .inl ⟨fault, fault, world, rfl, rfl, rfl⟩
  | ok answer =>
    have passed := passed answer
    dsimp only
    rw [scope, options]
    generalize chain.document.pass _ _ _ _ = x at passed ⊢
    generalize other.document.pass _ _ _ _ = y at passed ⊢
    cases passed with
    | error here =>
      subst here
      exact .inl ⟨_, _, _, rfl, rfl, rfl⟩
    | ok same here =>
      subst here
      dsimp only
      rcases goesOn answer same with ⟨fault, first, second⟩ | ⟨next, next', result, first, second, alike⟩
      · exact .inl ⟨fault, fault, _, by rw [first], by rw [second], rfl⟩
      · exact .inr ⟨next, next', result, _, by rw [first], by rw [second], alike⟩

/-- **Neither do calls tell the chains from each other**, whatever responses are given. -/
theorem answers_eq (h : Like eval g g' chain other) (responses : List (Option Response)) (world : World σ) :
    answers eval responses chain world = answers eval responses other world := by
  induction responses generalizing chain other g g' world with
  | nil => rfl
  | cons response responses ih =>
    unfold answers calls
    rcases h.step placeless response world with
      ⟨fault, fault', world', first, second, same⟩ | ⟨next, next', result, world', first, second, alike⟩
    · have later := Prod.mk.inj (ih h world')
      rw [first, second]
      exact Prod.ext (List.cons_eq_cons.mpr ⟨congrArg Except.error same, later.1⟩) later.2
    · have later := Prod.mk.inj (ih alike world')
      rw [first, second]
      exact Prod.ext (congrArg (Except.ok result :: ·) later.1) later.2

end Like

/-- The chain over other nodes, where the header is known from the start. -/
def knowing (chain : Chain) (config : Config) (nodes : List Node) : Chain :=
  { chain with document := { chain.document with body := nodes }, config := some config }

variable {eval} (placeless : Expr.Placeless eval) {config : Config} {nodes nodes' : List Node}

include placeless

/-- A header that stands before all tags may as well be known from the start. -/
theorem answers_knowing (headed : Node.Headed chain.document.body config nodes) (bare : Node.headedAll nodes = false)
    (fresh : chain.config = none) (responses : List (Option Response)) (world : World σ) :
    answers eval responses chain world = answers eval responses (chain.knowing config nodes) world := by
  generalize whole : chain.document.body = body at headed
  cases headed with
  | without =>
    have same : LikeLater chain.document.body nodes := whole ▸ (LikeAll.refl nodes bare).later
    have like : Like eval none none chain (chain.knowing [] nodes) :=
      ⟨Document.alike_of_later _ placeless rfl same, by rw [fresh]; rfl, rfl⟩
    exact like.answers_eq placeless responses world
  | @header before after _ _ _ untagged reads =>
    have like : Like eval (some config) none chain (chain.knowing config (before ++ after)) :=
      ⟨Document.alike_of_header _ placeless bare untagged reads rfl whole rfl, rfl, rfl⟩
    exact like.answers_eq placeless responses world

/-- **Chains over documents that say the same give the same**, whatever responses are given. Their headers have the same
settings, and the second document may begin with an empty line more. -/
theorem answers_eq_of_likeAll (headed : Node.Headed chain.document.body config nodes)
    (headed' : Node.Headed other.document.body config nodes')
    (like : LikeAll nodes nodes' ∨ LikeAll (Node.line :: nodes) nodes') (fresh : chain.config = none)
    (progress : chain.document.progress = other.document.progress)
    (others : other = { chain with source := other.source, document := other.document }) (responses : List (Option Response))
    (world : World σ) : answers eval responses chain world = answers eval responses other world := by
  have bare : Node.headedAll nodes = false ∧ Node.headedAll nodes' = false := like.elim LikeAll.headedAll LikeAll.headedAll
  have fresh' : other.config = none := by rw [others]; exact fresh
  rw [answers_knowing placeless headed bare.1 fresh, answers_knowing placeless headed' bare.2 fresh']
  have known (nodes : List Node) (h : LikeAll nodes nodes') :
      answers eval responses (chain.knowing config nodes) world = answers eval responses (other.knowing config nodes') world := by
    have same : Like eval none none (chain.knowing config nodes) (other.knowing config nodes') :=
      ⟨Document.alike_of_later _ placeless progress h.later, rfl, by rw [others]; rfl⟩
    exact same.answers_eq placeless responses world
  rcases like with like | like
  · exact known nodes like
  · have line : Like eval none none (chain.knowing config nodes) (chain.knowing config (Node.line :: nodes)) :=
      ⟨Document.alike_of_line _ placeless bare.1 rfl rfl rfl, rfl, rfl⟩
    rw [line.answers_eq placeless responses world]
    exact known _ like

end Chain

end PromptScript
