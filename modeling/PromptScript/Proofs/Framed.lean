import PromptScript.Proofs.Beside
import PromptScript.Proofs.Frames
import PromptScript.Proofs.Straight
import PromptScript.Proofs.Uninterrupted

/-! # Going through a document with frames

The straight walk once more, with the variables on a stack of frames that the caller's state begins with. A branch,
what a loop does without items, and each round of a loop run in a new frame on top of the others; message, content and
step tags run in the frame they stand in; a scope tag begins a stack of its own. There are no tables here and no
cells. -/
namespace PromptScript

namespace PassState

variable {σ : Type}

/-- The frames in view. -/
def frames (s : PassState (Frames × σ)) : Frames := s.machine.host.1

/-- The state with other frames in view. -/
def withFrames (stack : Frames) (s : PassState (Frames × σ)) : PassState (Frames × σ) :=
  { s with machine := { s.machine with host := (stack, s.machine.host.2) } }

end PassState

namespace Pass

variable {σ α : Type}

/-! ## Frames in view -/

/-- Changes the frames. -/
def onFrames (change : Frames → Frames) : Pass (Frames × σ) Unit :=
  modify fun s => s.withFrames (change s.frames)

/-- Runs a part in a new frame. -/
def inFrame (part : Pass (Frames × σ) α) : Pass (Frames × σ) α := do
  onFrames ([] :: ·)
  let a ← part
  onFrames List.tail
  return a

/-- Runs a part on a stack of its own. -/
def onStack (stack : Frames) (part : Pass (Frames × σ) α) : Pass (Frames × σ) α := do
  let outer := (← get).frames
  onFrames fun _ => stack
  let a ← part
  onFrames fun _ => outer
  return a

/-- Gives a name a value. -/
def assign (name : String) (v : Value) : Pass (Frames × σ) Unit := onFrames (·.assign name v)

/-! ## The walk -/

variable (eval : Evaluator (Frames × σ)) (options : Options)

/-- The variables of a round, in its frame. -/
def frameItem (item : Binding) (index : Option Binding) (v : Value) (n : Nat) : Pass (Frames × σ) Unit := do
  onFrames (·.declare item.name v)
  match index with
  | some index => onFrames (·.declare index.name (.number (Float.ofNat n)))
  | none => return ()

/-- The rounds of a loop, the first of which has the number `n`. -/
def framedRounds (item : Binding) (index : Option Binding) (body : Replies → Pass (Frames × σ) (Replies × Flow)) :
    List Value → Nat → Replies → Pass (Frames × σ) (Replies × Flow)
  | [], _, rs => return (rs, .goesOn)
  | v :: r, n, rs =>
    goingOn (inFrame (do frameItem item index v n; body rs)) id fun rs => framedRounds item index body r (n + 1) rs

/-- What the variables of a step take of its response. -/
def assignReply (span : Span) (head : StepHead) (response : List Content) : Pass (Frames × σ) Unit := do
  match head.rawName with
  | some name => assign name (Value.ofJson (Message.toJson ⟨.assistant, response, []⟩))
  | none => pure ()
  match head.resultName with
  | some name => assign name (← responseValue span (Fields.has "schema" head.config) response)
  | none => pure ()

/-- A step: its body, then the variables that take the next response. Without one the walk is cut. -/
def framedStep (around : Surroundings) (span : Span) (tags : List Attribute) (attributes : Attributes)
    (body : Replies → Pass (Frames × σ) (Replies × Flow)) (rs : Replies) : Pass (Frames × σ) (Replies × Flow) := do
  let head ← openStep around span tags attributes
  let _ ← body rs
  leaveSettings head
  flushContent options
  match rs with
  | [] => return ([], .stops)
  | r :: rs => do
    assignReply span head r
    return (rs, .goesOn)

mutual

/-- Goes through a node. -/
def framed (around : Surroundings) : Node → Replies → Pass (Frames × σ) (Replies × Flow)
  | .text _ data _, rs => do
    addSegment (.literal data)
    return (rs, .goesOn)
  | .comment _ _ _, rs => return (rs, .goesOn)
  | .config span data _, rs => do
    meetHeader span data
    return (rs, .goesOn)
  | .interpolation span e _, rs => do
    interpolate eval options around span e
    return (rs, .goesOn)
  | .group _ body _, rs => framedAll around body rs
  | .choice _ test body none _, rs => do
    let holds ← evaluate eval test
    if holds.isTruthy then inFrame (framedAll around body rs) else return (rs, .goesOn)
  | .choice _ test body (some other) _, rs => do
    let holds ← evaluate eval test
    if holds.isTruthy then inFrame (framedAll around body rs) else inFrame (framedAll around other rs)
  | .loop _ items item index body none _, rs => do
    let v ← evaluate eval items
    framedRounds item index (framedAll around body) (← itemsOf items v) 0 rs
  | .loop _ items item index body (some other) _, rs => do
    let v ← evaluate eval items
    match ← itemsOf items v with
    | [] => inFrame (framedAll around other rs)
    | vs => framedRounds item index (framedAll around body) vs 0 rs
  | .element span tag attributes body _, rs => do
    flushPassage options
    let values ← attributeValues eval attributes []
    match tag with
    | .content kind => content options around span kind values (framedAll { around with inContent := true } body rs)
    | .message role => message options around span role values (framedAll { around with inMessage := true } body rs)
    | .scope =>
      match Node.closureFaults (Fields.names values) body with
      | fault :: _ => throw fault
      | [] => onStack [Fields.ofList values] (framedAll around body rs)
    | .step => framedStep options around span attributes values (framedAll { around with inStep := true } body) rs
    | .reference => fail .unresolvedReference span

/-- Goes through nodes in order. -/
def framedAll (around : Surroundings) : List Node → Replies → Pass (Frames × σ) (Replies × Flow)
  | [], rs => return (rs, .goesOn)
  | n :: r, rs => goingOn (framed around n rs) id fun rs => framedAll around r rs

end

end Pass

/-- Goes through a document, and makes a message of what is left over. -/
def Document.framed {σ : Type} (eval : Evaluator (Frames × σ)) (options : Options) (d : Document) (rs : Replies) :
    Pass (Frames × σ) (Replies × Flow) := do
  let left ← Pass.framedAll eval options {} d.body rs
  Pass.flushContent options
  return left

/-! ## Machines that show frames -/

section Shows

open Layout

variable {σ : Type} {top : List (String × Nat)} {rest : Layout} {m : Machine σ} {n : Machine (Frames × σ)}

/-- A machine whose cells hold what the frames of another hold, laid out in some way. -/
structure Shows (layout : Layout) (m : Machine σ) (n : Machine (Frames × σ)) : Prop where
  fits : Fits layout m.scope
  fresh : n.fresh = m.fresh
  host : n.host = (layout.frames m.scope.stash, m.host)

/-- The current frame may have got more entries; those of the frames below are where they were. -/
def Shown (top : List (String × Nat)) (rest : Layout) (m : Machine σ) (n : Machine (Frames × σ)) : Prop :=
  ∃ top', Extends top top' ∧ Shows (top' :: rest) m n

/-- To read and to give values by the table does the same as by the frames, whatever is noted of it. -/
theorem agrees_frames (note : String → Option Value → σ → σ) (host : Host σ) (top : List (String × Nat))
    (rest : Layout) :
    Agrees (fun _ _ => True) (fun _ => Shown top rest) (Variables.inScope.noting note) host
      (Variables.inFrames.noting (noteBeside note)) host.beside where
  failed _ := trivial
  fewer _ here := here
  get? := by
    intro known name _ m n ⟨top', more, shows⟩
    have same : m.scope.get? name = n.host.1.get? name := by
      rw [shows.host]
      exact shows.fits.get?_eq name
    refine .ok ⟨same, top', more, shows.fits, shows.fresh, ?_⟩
    show (n.host.1, note name (n.host.1.get? name) n.host.2) = _
    rw [← same, shows.host]
    rfl
  set := by
    intro known name v m n ⟨top', more, shows⟩
    obtain ⟨top'', more', fits, assigned⟩ := shows.fits.set name v
    refine .ok ⟨top'', more.trans more', fits, shows.fresh, ?_⟩
    show (n.host.1.assign name v, n.host.2) = _
    rw [shows.host]
    exact congrArg (·, m.host) assigned.symm
  call := by
    intro known m n identity args ⟨top', more, shows⟩
    have same : host.beside.call identity args n.host = ((host.call identity args m.host).1,
        (Layout.frames (top' :: rest) m.scope.stash, (host.call identity args m.host).2)) := by
      rw [shows.host]
      rfl
    rw [same]
    exact ⟨rfl, top', more, shows.fits, shows.fresh, rfl⟩
  fresh := by
    intro known m n ⟨top', more, shows⟩
    exact ⟨shows.fresh.symm, top', more, shows.fits, congrArg (· + 1) shows.fresh, shows.host⟩
  now := by
    intro known m n ⟨top', more, shows⟩
    show host.now m.host = host.now n.host.2
    rw [shows.host]

end Shows

namespace Pass

open Layout

variable {σ α β : Type}

/-- A part that keeps variables in frames follows another that keeps them in cells: it gives the same, and in every
state that the machine of the other shows it leaves one that is shown again. -/
def Follows (top : List (String × Nat)) (part : Pass σ α) (part' : Pass (Frames × σ) α) : Prop :=
  ∀ rest, Abreast (fun _ _ => True) (PassState.Beside (Shown top rest)) part part'
    fun a b s t => a = b ∧ s.Beside (Shown top rest) t

variable {top : List (String × Nat)}

theorem follows_pure (a : α) : Follows top (pure a : Pass σ α) (pure a) :=
  fun _ => .pure fun _ _ here => ⟨rfl, here⟩

theorem follows_throw (fault : Fault) : Follows top (throw fault : Pass σ α) (throw fault) :=
  fun _ => .throw fun _ _ _ => trivial

theorem Blind.follows {part : Pass σ α} {part' : Pass (Frames × σ) α} (h : Blind part part') :
    Follows top part part' :=
  fun _ => h fun _ _ _ => trivial

/-- Evaluations ask only for names, on all of which the two agree. -/
theorem Coupled.follows {u : Uses} {part : Pass σ α} {part' : Pass (Frames × σ) α}
    (h : ∀ rest, Coupled (fun _ _ => True) (fun _ => Shown top rest) u part part') : Follows top part part' :=
  fun rest => h rest (fun _ => True) fun _ _ => trivial

theorem Follows.bind {part : Pass σ α} {part' : Pass (Frames × σ) α} {f : α → Pass σ β}
    {g : α → Pass (Frames × σ) β} (first : Follows top part part') (rest : ∀ a, Follows top (f a) (g a)) :
    Follows top (part >>= f) (part' >>= g) :=
  fun below => (first below).bind fun a b => .of_fact fun same => by
    subst same
    exact rest a below

section Flow

variable {part : Pass σ (α × Flow)} {part' : Pass (Frames × σ) (α × Flow)}

theorem Follows.goingOn {left : α → β} {f : α → Pass σ (β × Flow)} {g : α → Pass (Frames × σ) (β × Flow)}
    (first : Follows top part part') (rest : ∀ a, Follows top (f a) (g a)) :
    Follows top (goingOn part left f) (goingOn part' left g) := by
  refine first.bind fun (a, flow) => ?_
  cases flow with
  | stops => exact follows_pure _
  | goesOn => exact rest a

theorem Follows.closing {close : Pass σ Unit} {close' : Pass (Frames × σ) Unit} (first : Follows top part part')
    (last : Follows top close close') : Follows top (closing part close) (closing part' close') :=
  first.goingOn fun _ => last.bind fun _ => follows_pure _

theorem result_within {table : Option Pointers} {s : PassState σ} : (Pass.within table part).result s =
    match part.result (s.withTable (table.getD s.table)) with
      | (.ok a, t) => (.ok a, t.withTable s.table)
      | (.error fault, t) => (.error fault, t) := by
  unfold Pass.within into
  rw [result_bind, result_inView]
  obtain ⟨_ | ⟨a, flow⟩, t⟩ := part.result (s.withTable (table.getD s.table)) <;> rfl

theorem runs_within {table : Option Pointers} {s t : PassState σ} {a : α × Flow} :
    Runs (Pass.within table part) s a t ↔
      ∃ t', Runs part (s.withTable (table.getD s.table)) a t' ∧ t'.withTable s.table = t := by
  unfold Runs
  rw [result_within]
  obtain ⟨_ | b, t'⟩ := part.result (s.withTable (table.getD s.table))
  · exact ⟨nofun, fun ⟨_, ran, _⟩ => nomatch ran⟩
  · constructor
    · intro ran
      obtain ⟨value, rfl⟩ := Prod.mk.inj ran
      exact ⟨t', congrArg (·, t') value, rfl⟩
    · rintro ⟨_, ran, rfl⟩
      obtain ⟨same, rfl⟩ := Prod.mk.inj ran
      exact congrArg (·, t'.withTable s.table) same

theorem result_enclosed {scope : Scope} {s : PassState σ} : (enclosed scope part).result s =
    match part.result (s.withScope scope) with
      | (.ok a, t) => (.ok a, t.withScope s.machine.scope)
      | (.error fault, t) => (.error fault, t) := by
  unfold enclosed into
  rw [result_bind, result_inScope]
  obtain ⟨_ | ⟨a, flow⟩, t⟩ := part.result (s.withScope scope) <;> rfl

theorem result_inFrame {s : PassState (Frames × σ)} : (inFrame part').result s =
    match part'.result (s.withFrames ([] :: s.frames)) with
      | (.ok a, t) => (.ok a, t.withFrames t.frames.tail)
      | (.error fault, t) => (.error fault, t) := by
  unfold inFrame
  rw [show result _ s = result (part' >>= _) (s.withFrames ([] :: s.frames)) from rfl, result_bind]
  obtain ⟨_ | a, t⟩ := part'.result (s.withFrames ([] :: s.frames)) <;> rfl

theorem result_onStack {stack : Frames} {s : PassState (Frames × σ)} : (onStack stack part').result s =
    match part'.result (s.withFrames stack) with
      | (.ok a, t) => (.ok a, t.withFrames s.frames)
      | (.error fault, t) => (.error fault, t) := by
  unfold onStack
  rw [show result _ s = result (part' >>= _) (s.withFrames stack) from rfl, result_bind]
  obtain ⟨_ | a, t⟩ := part'.result (s.withFrames stack) <;> rfl

/-- **A table of its own is a frame of its own.** After the part the table is again the one from before, and so are
the frames below, but for the values that the part has given to names in them. -/
theorem Follows.within (h : Follows [] part part') : Follows top (Pass.within none part) (inFrame part') := by
  intro rest s t here
  obtain ⟨top', more, shows⟩ := here.machine
  have inner : (s.withTable s.table).Beside (Shown [] (top' :: rest)) (t.withFrames ([] :: t.frames)) := by
    refine { here with machine := ⟨[], extends_refl [], shows.fits.push, shows.fresh, ?_⟩ }
    show ([] :: t.machine.host.1, t.machine.host.2) = _
    rw [shows.host]
    rfl
  have both := h (top' :: rest) _ _ inner
  show Meet _ _ ((Pass.within none part).result s) ((inFrame part').result t)
  rw [result_within, result_inFrame]
  change Meet _ _ (part.result (s.withTable (none.getD s.table))) (part'.result _) at both
  generalize part.result (s.withTable (none.getD s.table)) = x at both ⊢
  generalize part'.result (t.withFrames ([] :: t.frames)) = y at both ⊢
  cases both with
  | error => exact .error trivial
  | @ok a b s' t' after =>
    obtain ⟨same, there⟩ := after
    obtain ⟨frame, -, shows'⟩ := there.machine
    refine .ok ⟨same, { there with machine := ⟨top', more, shows'.fits.tail shows.fits.table, shows'.fresh, ?_⟩ }⟩
    show (t'.machine.host.1.tail, t'.machine.host.2) = _
    rw [shows'.host]
    rfl

/-- A scope of its own is a stack of its own, of one frame. -/
theorem Follows.enclosed {entries : List (String × Value)} (h : ∀ top, Follows top part part') :
    Follows top (enclosed (Scope.ofList entries) part) (onStack [Fields.ofList entries] part') := by
  intro rest s t here
  obtain ⟨top', more, shows⟩ := here.machine
  obtain ⟨frame, fits, made⟩ := exists_fits_ofList entries
  have inner : (s.withScope (Scope.ofList entries)).Beside (Shown frame []) (t.withFrames [Fields.ofList entries]) := by
    refine { here with machine := ⟨frame, extends_refl frame, fits, shows.fresh, ?_⟩ }
    show ([Fields.ofList entries], t.machine.host.2) = _
    rw [shows.host, ← made]
    rfl
  have both := h frame [] _ _ inner
  show Meet _ _ ((Pass.enclosed _ part).result s) ((onStack _ part').result t)
  rw [result_enclosed, result_onStack]
  change Meet _ _ (part.result _) (part'.result _) at both
  generalize part.result (s.withScope (Scope.ofList entries)) = x at both ⊢
  generalize part'.result (t.withFrames [Fields.ofList entries]) = y at both ⊢
  cases both with
  | error => exact .error trivial
  | @ok a b s' t' after =>
    obtain ⟨same, there⟩ := after
    obtain ⟨frame', -, shows'⟩ := there.machine
    refine .ok ⟨same, { there with machine := ⟨top', more, shows.fits, shows'.fresh, ?_⟩ }⟩
    show (t.machine.host.1, t'.machine.host.2) = _
    rw [shows.host, shows'.host]
    rfl

end Flow

/-! ## Names -/

section Names

/-- What is done with the scope is done with the frames. -/
theorem follows_modifyScope {change : Scope → Scope} {change' : Frames → Frames}
    (h : ∀ {scope top' rest}, Extends top top' → Fits (top' :: rest) scope → ∃ top'', Extends top top'' ∧
      Fits (top'' :: rest) (change scope) ∧
      frames (top'' :: rest) (change scope).stash = change' (frames (top' :: rest) scope.stash)) :
    Follows top (modifyScope change : Pass σ Unit) (onFrames change') := by
  refine fun rest => .modify fun s t here => ⟨rfl, ?_⟩
  obtain ⟨top', more, shows⟩ := here.machine
  obtain ⟨top'', more, fits, same⟩ := h more shows.fits
  refine { here with machine := ⟨top'', more, fits, shows.fresh, ?_⟩ }
  show (change' t.machine.host.1, t.machine.host.2) = _
  rw [shows.host]
  exact congrArg (·, s.machine.host) same.symm

theorem follows_write (name : String) (v : Value) : Follows top (write name v : Pass σ Unit) (assign name v) := by
  refine follows_modifyScope fun more fits => ?_
  obtain ⟨top'', more', fits', same⟩ := fits.set name v
  exact ⟨top'', more.trans more', fits', same⟩

/-- A frame that was empty may get any entries. -/
theorem follows_declare (name : String) (v : Value) :
    Follows [] (declare name v : Pass σ Unit) (onFrames (·.declare name v)) := by
  refine follows_modifyScope fun _ fits => ?_
  obtain ⟨fits', same⟩ := fits.declare name v
  exact ⟨_, nofun, fits', same⟩

theorem follows_declareItem (item : Binding) (index : Option Binding) (v : Value) (n : Nat) :
    Follows [] (declareItem item index v n : Pass σ Unit) (frameItem item index v n) := by
  refine (follows_declare _ _).bind fun _ => ?_
  cases index with
  | none => exact follows_pure _
  | some index => exact follows_declare _ _

theorem follows_closeStep (span : Span) (head : StepHead) (response : List Content) :
    Follows top (closeStep span head response : Pass σ Unit) (assignReply span head response) := by
  obtain ⟨resultName, rawName, config⟩ := head
  have result : Follows top (match resultName with
      | some name => do write name (← responseValue span (Fields.has "schema" config) response)
      | none => pure () : Pass σ Unit) (match resultName with
      | some name => do assign name (← responseValue span (Fields.has "schema" config) response)
      | none => pure ()) := by
    cases resultName with
    | none => exact follows_pure _
    | some name => exact (blind_responseValue _ _ _).follows.bind fun _ => follows_write _ _
  cases rawName with
  | none => exact (follows_pure ()).bind fun _ => result
  | some name => exact (follows_write _ _).bind fun _ => result

end Names

end Pass
end PromptScript

/-! ## Lexical scoping

The walk with tables and cells does what the walk with frames does: names mean the same, whatever is done. With what
is known of resuming this holds of all the turns of a chain. -/
namespace PromptScript

variable {σ : Type} (note : String → Option Value → σ → σ) (host : Host σ) (options : Options)

/-- The evaluator with variables in the scope in view, of whose reads something is noted. -/
abbrev Expr.evalNoting : Evaluator σ := Expr.evalWith (Variables.inScope.noting note) host

/-- The evaluator with variables in frames. -/
abbrev Expr.evalFramed : Evaluator (Frames × σ) := Expr.evalWith (Variables.inFrames.noting (noteBeside note)) host.beside

/-- A list of reads, and the values that they found, beside the caller's state. -/
def noteRead (name : String) (v : Option Value) (s : List (String × Option Value) × σ) :
    List (String × Option Value) × σ := (s.1 ++ [(name, v)], s.2)

/-- Where nothing is noted this is the evaluator of chains. -/
theorem Expr.evalNoting_nothing : Expr.evalNoting (fun _ _ s => s) host = Expr.eval host := rfl

namespace Pass

open Layout

variable {top : List (String × Nat)}

theorem follows_evaluate (e : Expr) :
    Follows top (evaluate (Expr.evalNoting note host) e) (evaluate (Expr.evalFramed note host) e) :=
  Coupled.follows fun rest => coupled_evaluate (fun e => coupled_evalWith (agrees_frames note host top rest) e) e

theorem follows_interpolate (around : Surroundings) (span : Span) (e : Expr) :
    Follows top (interpolate (Expr.evalNoting note host) options around span e)
      (interpolate (Expr.evalFramed note host) options around span e) :=
  Coupled.follows fun rest => coupled_interpolate (agrees_frames note host top rest).toLasting
    (fun e => coupled_evalWith (agrees_frames note host top rest) e) options around span e

theorem follows_attributeValues (attributes : List Attribute) :
    Follows top (attributeValues (Expr.evalNoting note host) attributes []) (attributeValues (Expr.evalFramed note host) attributes []) :=
  Coupled.follows fun rest => coupled_attributeValues (agrees_frames note host top rest).toLasting
    (fun e => coupled_evalWith (agrees_frames note host top rest) e) attributes []

section Bodies

variable {body : Replies → Pass σ (Replies × Flow)} {body' : Replies → Pass (Frames × σ) (Replies × Flow)}

theorem follows_rounds (bodies : ∀ top rs, Follows top (body rs) (body' rs)) (item : Binding)
    (index : Option Binding) (vs : List Value) (n : Nat) (rs : Replies) :
    Follows top (straightRounds item index body vs n rs) (framedRounds item index body' vs n rs) := by
  induction vs generalizing n rs with
  | nil => exact follows_pure _
  | cons v r ih =>
    exact ((follows_declareItem item index v n).bind fun _ => bodies [] rs).within.goingOn fun rs => ih (n + 1) rs

theorem follows_step (bodies : ∀ top rs, Follows top (body rs) (body' rs)) (around : Surroundings) (span : Span)
    (tags : List Attribute) (attributes : Attributes) (rs : Replies) :
    Follows top (straightStep options around span tags attributes body rs)
      (framedStep options around span tags attributes body' rs) := by
  refine (blind_openStep _ _ _ _).follows.bind fun head => (bodies top rs).bind fun _ =>
    (blind_leaveSettings _).follows.bind fun _ => (blind_flushContent _).follows.bind fun _ => ?_
  cases rs with
  | nil => exact follows_pure _
  | cons r rs => exact (follows_closeStep _ _ _).bind fun _ => follows_pure _

end Bodies

mutual

/-- Through a node both walks go alike. -/
theorem follows_straight (around : Surroundings) (top : List (String × Nat)) : ∀ (n : Node) (rs : Replies),
    Follows top (straight (Expr.evalNoting note host) options around n rs) (framed (Expr.evalFramed note host) options around n rs)
  | .text .., rs => (blind_addSegment _).follows.bind fun _ => follows_pure _
  | .comment .., rs => follows_pure _
  | .config .., rs => (blind_meetHeader _ _).follows.bind fun _ => follows_pure _
  | .interpolation .., rs => (follows_interpolate note host options _ _ _).bind fun _ => follows_pure _
  | .group _ body _, rs => follows_straightAll around top body rs
  | .choice _ test body none _, rs => by
    refine (follows_evaluate note host test).bind fun holds => ?_
    by_cases truthy : holds.isTruthy = true
    · rw [if_pos truthy, if_pos truthy]
      exact (follows_straightAll around [] body rs).within
    · rw [if_neg truthy, if_neg truthy]
      exact follows_pure _
  | .choice _ test body (some other) _, rs => by
    refine (follows_evaluate note host test).bind fun holds => ?_
    by_cases truthy : holds.isTruthy = true
    · rw [if_pos truthy, if_pos truthy]
      exact (follows_straightAll around [] body rs).within
    · rw [if_neg truthy, if_neg truthy]
      exact (follows_straightAll around [] other rs).within
  | .loop _ items item index body none _, rs =>
    (follows_evaluate note host items).bind fun v => (blind_itemsOf _ _).follows.bind fun vs =>
      follows_rounds (fun top => follows_straightAll around top body) item index vs 0 rs
  | .loop _ items item index body (some other) _, rs => by
    refine (follows_evaluate note host items).bind fun v => (blind_itemsOf _ _).follows.bind fun vs => ?_
    cases vs with
    | nil => exact (follows_straightAll around [] other rs).within
    | cons v vs => exact follows_rounds (fun top => follows_straightAll around top body) item index (v :: vs) 0 rs
  | .element span tag attributes body _, rs => by
    refine (blind_flushPassage _).follows.bind fun _ => ?_
    refine (follows_attributeValues note host attributes).bind fun values => ?_
    cases tag with
    | content kind =>
      exact (blind_openContent _ _ _ _).follows.bind fun (kind, values) =>
        (follows_straightAll { around with inContent := true } top body rs).closing (blind_closeContent _ _ _ _).follows
    | message role =>
      exact (blind_openMessage _ _ _ _ _).follows.bind fun (role, values) =>
        (follows_straightAll { around with inMessage := true } top body rs).closing (blind_closeMessage _ _ _ _).follows
    | scope =>
      -- Before the part is run the names that it reads are checked.
      show Follows top (newScope values body >>= fun scope => enclosed scope _) _
      unfold newScope
      cases Node.closureFaults (Fields.names values) body with
      | cons fault _ => exact follows_throw fault
      | nil => exact Follows.enclosed fun top => follows_straightAll around top body rs
    | step => exact follows_step options (fun top => follows_straightAll { around with inStep := true } top body) _ _ _ _ rs
    | reference => exact follows_throw _

theorem follows_straightAll (around : Surroundings) (top : List (String × Nat)) : ∀ (nodes : List Node) (rs : Replies),
    Follows top (straightAll (Expr.evalNoting note host) options around nodes rs)
      (framedAll (Expr.evalFramed note host) options around nodes rs)
  | [], _ => follows_pure _
  | n :: r, rs => (follows_straight around top n rs).goingOn fun rs => follows_straightAll around top r rs

end

end Pass

open Pass Layout

/-- The walk over a document with frames does what the straight walk does. Names that were known before have at its
end the values that the frames give them. -/
theorem Document.framed_of_straight (d : Document) {rs rest : Replies} {flow : Flow} {s t : PassState σ}
    {s' : PassState (Frames × σ)} {top : List (String × Nat)} (beside : s.Beside (Shows [top]) s')
    (ran : Runs (d.straight (Expr.evalNoting note host) options rs) s (rest, flow) t) :
    ∃ t', Runs (d.framed (Expr.evalFramed note host) options rs) s' (rest, flow) t' ∧
      t.Beside (fun m n => n.fresh = m.fresh ∧ n.host.2 = m.host ∧ m.scope.pointers = s.table ∧
        ∀ name, (s.table.find? name).isSome = true → m.scope.get? name = n.host.1.get? name) t' := by
  obtain ⟨⟨rest, flow⟩, s₁, walked, last⟩ := runs_bind.mp ran
  obtain ⟨⟨⟩, s₂, flushed, last⟩ := runs_bind.mp last
  obtain ⟨same, rfl⟩ := runs_pure.mp last
  obtain ⟨rfl, rfl⟩ := Prod.mk.inj same
  -- The straight walk has a table of its own, and the table from before is there again when it is over.
  obtain ⟨t₀, inside, rfl⟩ := runs_within.mp walked
  have shown : (s.withTable s.table).Beside (Shown top []) s' :=
    { beside with machine := ⟨top, extends_refl top, beside.machine⟩ }
  obtain ⟨_, t₀', inside', rfl, there⟩ :=
    (follows_straightAll note host options {} top d.body rs []).ok_of_ok shown inside
  obtain ⟨top', more, shows⟩ := there.machine
  -- What is left over becomes a message, and no machine is asked for that.
  have still : (t₀.withTable s.table).Beside (fun m n => m = (t₀.withTable s.table).machine ∧ n = t₀'.machine) t₀' :=
    { there with machine := ⟨rfl, rfl⟩ }
  obtain ⟨⟨⟩, t', flushed', -, last⟩ :=
    (@blind_flushContent σ (Frames × σ) options (fun _ _ => True) _ fun _ _ _ => trivial).ok_of_ok still flushed
  obtain ⟨left, right⟩ := last.machine
  refine ⟨t', runs_bind.mpr ⟨_, _, inside', runs_bind.mpr ⟨(), t', flushed', rfl⟩⟩, { last with machine := ?_ }⟩
  rw [left, right]
  refine ⟨shows.fresh, congrArg Prod.snd shows.host, rfl, fun name known => ?_⟩
  obtain ⟨cell, found⟩ := Option.isSome_iff_exists.mp known
  -- The name has the cell that it had before.
  have before : Stack.get? name [top] = some cell := (beside.machine.fits.table name).symm.trans found
  have after : t₀.table.find? name = some cell := by
    refine (shows.fits.table name).trans ?_
    rw [Stack.get?_singleton] at before ⊢
    exact more name cell before
  rw [shows.host]
  refine Eq.trans ?_ (shows.fits.get?_eq name)
  show (s.table.find? name).map _ = (t₀.table.find? name).map _
  rw [found, after]
  rfl

namespace Chain

variable {note host options}

/-- Turns leave the table of the chain as it is. -/
theorem Run.pointers_eq {eval : Evaluator σ} {first last : Chain} {world world' : World σ}
    {turns : List (Option Response × Turn)} (run : Run eval first world turns last world') :
    last.scope.pointers = first.scope.pointers := by
  induction run with
  | none => rfl
  | turn _ _ ih => exact ih

/-- The state before all passes, with the parameters in a single frame. -/
def framedOpening (parameters : List (String × Value)) (world : World σ) : PassState (Frames × σ) :=
  .opening ⟨⟨world.fresh, ([Fields.ofList parameters], world.host)⟩, .empty⟩ none

/-- **Lexical scoping.** Turns from the start of a chain emit all together the messages of one walk that keeps the
variables on a stack of frames; the walk begins with one frame, which holds the parameters. What is noted of each read
of a name, in the order of the reads and among the calls of the caller's functions, is the same, so every read finds
the value that the frames give the name. At the end the parameters have the values that they have in the frames. -/
theorem lexical_scoping {source : String} {parameters : List (String × Value)} {format : Format} {first last : Chain}
    {world world' : World σ} {response : Option Response} {turn : Turn} {turns : List (Option Response × Turn)}
    (begins : start source parameters format options = .ok first)
    (run : Run (Expr.evalNoting note host) first world ((response, turn) :: turns) last world') :
    ∃ rest flow u,
      Runs (first.document.framed (Expr.evalFramed note host) first.options
        (Turn.replies ((response, turn) :: turns))) (framedOpening parameters world) (rest, flow) u ∧
      u.messages.toList = Turn.emittedAll ((response, turn) :: turns) ∧
      (⟨u.machine.fresh, u.machine.host.2⟩ : World σ) = world' ∧
      ∀ name ∈ parameters.map Prod.fst, last.scope.get? name = u.frames.get? name := by
  obtain ⟨-, -, -, -, -, -, -, scope⟩ := start_eq_ok begins
  obtain ⟨rest, flow, t, walks, emitted, stash, rfl⟩ := run.straight begins
  obtain ⟨top, fits, made⟩ := exists_fits_ofList parameters
  rw [← scope] at fits made
  have beside : (first.opening world).Beside (Shows [top]) (framedOpening parameters world) := by
    refine ⟨⟨fits, rfl, ?_⟩, rfl, rfl, rfl, rfl, rfl, rfl⟩
    exact congrArg (·, world.host) made.symm
  obtain ⟨u, walks', same⟩ := first.document.framed_of_straight note host first.options beside walks
  obtain ⟨fresh, noted, table, names⟩ := same.machine
  refine ⟨rest, flow, u, walks', ?_, ?_, fun name member => ?_⟩
  · rw [← same.messages, emitted]
  · rw [fresh, noted]
  · have known : ((first.opening world).table.find? name).isSome = true := by
      have has : (Stack.get? name [Fields.ofList parameters]).isSome = true := by
        rw [Stack.get?_singleton]
        cases found : Fields.get? name (Fields.ofList parameters) with
        | some v => rfl
        | none => exact absurd (Fields.mem_names_ofList.mpr member) (Fields.get?_eq_none_iff.mp found)
      rwa [← made, frames, Stack.get?_map, Option.isSome_map, ← fits.table] at has
    refine Eq.trans ?_ (names name known)
    unfold Scope.get?
    rw [stash, table, run.pointers_eq]
    rfl

/-- Each round has a `y` of its own, and after the loop there is none; `x` is then the parameter of that name again,
and what the rounds have added to `said`, each after a stop in it, is there. -/
theorem scoped_in_rounds : ∃ first last turns world,
    start "\x7b\x7b for x in items \x7d\x7d\x7b\x7b y = x \x7d\x7d<step as=\"r\">\x7b\x7b y \x7d\x7d</step>\x7b\x7b said = said + r \x7d\x7d\x7b\x7b endfor \x7d\x7d\x7b\x7b y \x7d\x7d\x7b\x7b x \x7d\x7d\x7b\x7b said \x7d\x7d"
        [("items", .array [.string "a", .string "b"]), ("x", .string "p"), ("said", .string "")] .canonical {} = .ok first ∧
      Run (Expr.evalNoting noteRead Host.idle.beside) first ⟨0, ([], ())⟩ turns last world ∧
      turns.map Prod.fst = [none, some (.text "1"), some (.text "2")] ∧
      last.history.map Message.text = ["a", "1", "b", "2", "p12"] ∧
      ∃ rest flow u,
        Runs (first.document.framed (Expr.evalFramed noteRead Host.idle.beside) first.options (Turn.replies turns))
          (framedOpening [("items", .array [.string "a", .string "b"]), ("x", .string "p"), ("said", .string "")]
            ⟨0, ([], ())⟩) (rest, flow) u ∧
        u.messages.toList = Turn.emittedAll turns ∧ u.machine.host.2.1 = world.host.1 := by
  have made : reaches (Expr.evalNoting noteRead Host.idle.beside)
      "\x7b\x7b for x in items \x7d\x7d\x7b\x7b y = x \x7d\x7d<step as=\"r\">\x7b\x7b y \x7d\x7d</step>\x7b\x7b said = said + r \x7d\x7d\x7b\x7b endfor \x7d\x7d\x7b\x7b y \x7d\x7d\x7b\x7b x \x7d\x7d\x7b\x7b said \x7d\x7d"
      [("items", .array [.string "a", .string "b"]), ("x", .string "p"), ("said", .string "")] .canonical {}
      [none, some (.text "1"), some (.text "2")] ⟨0, ([], ())⟩
      (fun last _ => last.history.map Message.text = ["a", "1", "b", "2", "p12"]) := by
    decide +kernel
  obtain ⟨first, last, turns, world, begins, run, answers, texts⟩ := exists_run_of_reaches made
  refine ⟨first, last, turns, world, begins, run, answers, of_decide_eq_true texts, ?_⟩
  obtain _ | ⟨⟨response, turn⟩, turns⟩ := turns
  · cases answers
  · obtain ⟨rest, flow, u, walks, emitted, same, -⟩ := lexical_scoping begins run
    exact ⟨rest, flow, u, walks, emitted, congrArg (fun w => w.host.1) same⟩

end Chain
end PromptScript
