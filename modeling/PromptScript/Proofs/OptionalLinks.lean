import PromptScript.Proofs.Places
import PromptScript.Proofs.Shapes
import PromptScript.Proofs.Turns

/-! # Optional links

A run of members and calls is an expression with links after it. Where the reading of a run has met an optional link, the
whole run is a chain; the evaluation goes from link to link, and a link that finds nothing to go on from ends the chain, and
nothing more. -/
namespace PromptScript

/-- A link: a member of what stands before it, or a call of it. -/
inductive Link where
  | member (span : Span) (key : Key) (optional : Bool)
  | call (span : Span) (arguments : List Expr) (optional : Bool)

namespace Link

/-- The expression with the link after it. -/
def after : Link → Expr → Expr
  | member span key optional, e => .member span e key optional
  | call span arguments optional, e => .call span e arguments optional

def optional : Link → Bool
  | member _ _ optional | call _ _ optional => optional

/-- The link without the mark of an optional one. -/
def plain : Link → Link
  | member span key _ => member span key false
  | call span arguments _ => call span arguments false

end Link

/-- An expression with links after it. -/
def Expr.linked (head : Expr) (links : List Link) : Expr := links.foldl (fun e l => l.after e) head

theorem Expr.linked_concat (head : Expr) (links : List Link) (l : Link) :
    head.linked (links ++ [l]) = l.after (head.linked links) := List.foldl_append ..

theorem Expr.linked_append (head : Expr) (links more : List Link) :
    head.linked (links ++ more) = (head.linked links).linked more := List.foldl_append ..

/-! ## The reading of links -/

namespace Grammar

variable {n start : Nat} {met : Bool} {e x : Expr} {c c' : Cursor}

/-- A run of links, as one chain if one of them is optional. -/
def gather (head : Expr) (links : List Link) : Expr := readLinks.finish (links.any Link.optional) (head.linked links)

theorem gives_readLink_after {l : LinkStart} (h : Gives (readLink n start e l) c x c') :
    ∃ k : Link, x = k.after e ∧ ∀ met, l.optionalAfter met = (k.optional || met) := by
  cases l with
  | optional =>
    obtain ⟨_, _, -, h⟩ := gives_bind.mp h
    obtain ⟨_, _, -, h⟩ := gives_bind.mp h
    obtain ⟨_, _, -, h⟩ := gives_bind.mp h
    split at h
    · obtain ⟨arguments, _, -, h⟩ := gives_bind.mp h
      obtain ⟨_, _, -, h⟩ := gives_bind.mp h
      obtain ⟨rfl, -⟩ := gives_pure.mp h
      exact ⟨.call _ arguments true, rfl, fun _ => rfl⟩
    · obtain ⟨key, _, -, h⟩ := gives_bind.mp h
      obtain ⟨_, _, -, h⟩ := gives_bind.mp h
      obtain ⟨rfl, -⟩ := gives_pure.mp h
      exact ⟨.member _ (.computed key) true, rfl, fun _ => rfl⟩
    · obtain ⟨name, _, -, h⟩ := gives_bind.mp h
      obtain ⟨_, _, -, h⟩ := gives_bind.mp h
      obtain ⟨rfl, -⟩ := gives_pure.mp h
      exact ⟨.member _ (.named name) true, rfl, fun _ => rfl⟩
  | member =>
    obtain ⟨_, _, -, h⟩ := gives_bind.mp h
    obtain ⟨_, _, -, h⟩ := gives_bind.mp h
    obtain ⟨name, _, -, h⟩ := gives_bind.mp h
    obtain ⟨_, _, -, h⟩ := gives_bind.mp h
    obtain ⟨rfl, -⟩ := gives_pure.mp h
    exact ⟨.member _ (.named name) false, rfl, fun _ => rfl⟩
  | computed =>
    obtain ⟨key, _, -, h⟩ := gives_bind.mp h
    obtain ⟨_, _, -, h⟩ := gives_bind.mp h
    obtain ⟨rfl, -⟩ := gives_pure.mp h
    exact ⟨.member _ (.computed key) false, rfl, fun _ => rfl⟩
  | call =>
    obtain ⟨arguments, _, -, h⟩ := gives_bind.mp h
    obtain ⟨_, _, -, h⟩ := gives_bind.mp h
    obtain ⟨rfl, -⟩ := gives_pure.mp h
    exact ⟨.call _ arguments false, rfl, fun _ => rfl⟩

/-- All links that follow are taken, up to where none starts. -/
theorem gives_readLinks_linked (h : Gives (readLinks n start met e) c x c') :
    ∃ links : List Link, x = readLinks.finish (links.any Link.optional || met) (e.linked links) ∧ linkAt? c'.rest = none := by
  induction n generalizing met e c with
  | zero => exact (not_gives_failEnd h).elim
  | succ n ih =>
    rw [readLinks_succ] at h
    obtain ⟨_, _, -, h⟩ := gives_bind.mp h
    obtain ⟨_, _, text, h⟩ := gives_bind.mp h
    obtain ⟨rfl, rfl⟩ := gives_rest.mp text
    split at h
    · next none =>
      obtain ⟨rfl, rfl⟩ := gives_pure.mp h
      exact ⟨[], rfl, none⟩
    · obtain ⟨_, _, link, h⟩ := gives_bind.mp h
      obtain ⟨k, rfl, marks⟩ := gives_readLink_after link
      obtain ⟨links, rfl, ends⟩ := ih h
      refine ⟨k :: links, ?_, ends⟩
      rw [marks, List.any_cons, Bool.or_left_comm, ← Bool.or_assoc]
      rfl

/-- What is read with the links and the update after it. -/
structure Gathered (c : Cursor) (e : Expr) (c' : Cursor) : Prop where
  split : ∃ n head links c₁ c₂, Gives (readPrimary n) c head c₁ ∧ linkAt? c₂.rest = none ∧
    (e = gather head links ∧ c' = c₂ ∨ ∃ span op, e = .update span op false (gather head links))

theorem gathered_of_readPostfix (h : Gives (readPostfix n) c e c') : Gathered c e c' := by
  cases n with
  | zero => exact (not_gives_failEnd h).elim
  | succ n =>
    obtain ⟨head, c₁, primary, h⟩ := gives_bind.mp h
    obtain ⟨x, c₂, links, h⟩ := gives_bind.mp h
    obtain ⟨run, rfl, ends⟩ := gives_readLinks_linked links
    rw [Bool.or_false] at h
    obtain ⟨_, _, text, h⟩ := gives_bind.mp h
    obtain ⟨rfl, rfl⟩ := gives_rest.mp text
    refine ⟨n, head, run, c₁, _, primary, ends, ?_⟩
    split at h
    · next op _ =>
      obtain ⟨_, _, -, h⟩ := gives_bind.mp h
      obtain ⟨_, _, -, h⟩ := gives_bind.mp h
      obtain ⟨_, _, -, h⟩ := gives_bind.mp h
      obtain ⟨rfl, -⟩ := gives_pure.mp h
      exact .inr ⟨_, op, rfl⟩
    · obtain ⟨rfl, rfl⟩ := gives_pure.mp h
      exact .inl ⟨rfl, rfl⟩

end Grammar

/-! ## The evaluation of links -/

namespace Expr

variable {σ : Type} (vars : Variables σ) (host : Host σ)

/-- What a link does with the value before it, whose text messages show. -/
def follow (label : String) (place : Span) (l : Link) (v : Value) : Eval σ (Option Value) := do
  match l with
  | .member span key optional =>
    if optional && v.isNullish then return none
    let name ← evalKey vars host key
    match ← readMember? v name with
    | some v => return some v
    | none => fail (.propertyNotExists label name.toText) span
  | .call span arguments optional =>
    if optional && v.isNullish then return none
    let args ← evalItems vars host arguments
    match ← callFunction? host v args with
    | none => fail (.notAFunction label) place
    | some (.error reason) => fail (.functionCallFailed reason) span
    | some (.ok v) => return some v

/-- A link goes on from what is before it, if there is something to go on from. -/
theorem link_after (e : Expr) (l : Link) : link vars host (l.after e) = (do
    match ← link vars host e with
    | none => return none
    | some v => follow vars host e.describe e.span l v) := by
  cases l with
  | member | call => rfl

variable {vars host} {m m' : Machine σ} {e head : Expr} {l : Link} {v : Value}

theorem follow_stops (optional : l.optional = true) (nothing : v.isNullish = true) (label : String) (place : Span) :
    (follow vars host label place l v).run.run m = (.ok none, m) := by
  cases l with
  | member | call =>
    subst optional
    unfold follow
    rw [nothing]
    rfl

/-- A chain that has stopped takes no further link. -/
theorem link_linked_stopped (links : List Link) (stopped : (link vars host e).run.run m = (.ok none, m')) :
    (link vars host (e.linked links)).run.run m = (.ok none, m') := by
  induction links generalizing e with
  | nil => exact stopped
  | cons l r ih =>
    refine ih ?_
    rw [link_after, run_bind_of_ok stopped]
    rfl

/-- A chain that has stopped in a machine: to what it is a part of, it is undefined, and the machine is left as it was. A
link of the parenthesised chain goes on from there, with what is undefined. -/
structure Stopped (vars : Variables σ) (host : Host σ) (chained : Expr) (m m' : Machine σ) : Prop where
  value : (evalWith vars host chained).run.run m = (.ok .undefined, m')
  part : (link vars host chained).run.run m = (.ok (some .undefined), m')
  member (span : Span) (key : Key) : (link vars host (.member span chained key false)).run.run m = (do
    let name ← evalKey vars host key
    let _ ← readMember? .undefined name
    fail (.propertyNotExists chained.describe name.toText) span : Eval σ (Option Value)).run.run m'
  call (span : Span) (arguments : List Expr) : (link vars host (.call span chained arguments false)).run.run m = (do
    let _ ← evalItems vars host arguments
    fail (.notAFunction chained.describe) chained.span : Eval σ (Option Value)).run.run m'
  again (l : Link) (optional : l.optional = true) : (link vars host (l.after chained)).run.run m = (.ok none, m')

theorem stopped_of_link (span : Span) (stops : (link vars host e).run.run m = (.ok none, m')) :
    Stopped vars host (.chain span e) m m' := by
  have part : (link vars host (.chain span e)).run.run m = (.ok (some .undefined), m') := run_bind_of_ok stops _
  have next (l : Link) : (link vars host (l.after (.chain span e))).run.run m =
      (follow vars host e.describe span l .undefined).run.run m' := by
    rw [link_after]
    exact run_bind_of_ok part _
  exact {
    value := run_bind_of_ok part _
    part := part
    member := fun at_ key => next (.member at_ key false)
    call := fun at_ arguments => next (.call at_ arguments false)
    again := fun l optional => (next l).trans (follow_stops optional rfl _ _) }

/-- No optional link finds nothing where it is reached. -/
def Uninterrupted (vars : Variables σ) (host : Host σ) (head : Expr) (links : List Link) (m : Machine σ) : Prop :=
  ∀ before l after v m', links = before ++ l :: after → l.optional = true →
    (link vars host (head.linked before)).run.run m = (.ok (some v), m') → v.isNullish = false

/-- The outcomes of a run of links and of the same links without marks: the same, but that a message names what a link could
not go on from as it is written. -/
inductive Likewise {α : Type} (head : Expr) (links : List Link) : Except Fault α × Machine σ → Except Fault α × Machine σ → Prop
  | same (x : Except Fault α × Machine σ) : Likewise head links x x
  | member {before after : List Link} (split : links = before ++ after) (name : String) (span : Span) (m : Machine σ) :
    Likewise head links (.error ⟨.propertyNotExists (head.linked before).describe name, span⟩, m)
      (.error ⟨.propertyNotExists (head.linked (before.map .plain)).describe name, span⟩, m)
  | call {before after : List Link} (split : links = before ++ after) (span : Span) (m : Machine σ) :
    Likewise head links (.error ⟨.notAFunction (head.linked before).describe, span⟩, m)
      (.error ⟨.notAFunction (head.linked (before.map .plain)).describe, span⟩, m)

theorem Likewise.bind {α β : Type} {links : List Link} {c d : Eval σ α} {f g : α → Eval σ β}
    (first : Likewise head links (c.run.run m) (d.run.run m))
    (rest : ∀ a m', c.run.run m = (.ok a, m') → Likewise head links ((f a).run.run m') ((g a).run.run m')) :
    Likewise head links ((c >>= f).run.run m) ((d >>= g).run.run m) := by
  generalize ran : c.run.run m = x at first rest
  generalize ran' : d.run.run m = y at first
  cases first with
  | member split name span m' =>
    rw [run_bind_of_error ran, run_bind_of_error ran']
    exact .member split name span m'
  | call split span m' =>
    rw [run_bind_of_error ran, run_bind_of_error ran']
    exact .call split span m'
  | same =>
    obtain ⟨fault | a, m'⟩ := x
    · rw [run_bind_of_error ran, run_bind_of_error ran']
      exact .same _
    · rw [run_bind_of_ok ran, run_bind_of_ok ran']
      exact rest a m' rfl

/-- After the same computation. -/
theorem Likewise.next {α β : Type} {links : List Link} (c : Eval σ α) {f g : α → Eval σ β}
    (rest : ∀ a m', Likewise head links ((f a).run.run m') ((g a).run.run m')) :
    Likewise head links ((c >>= f).run.run m) ((c >>= g).run.run m) :=
  .bind (.same _) fun a m' _ => rest a m'

theorem span_linked_plain (head : Expr) (links : List Link) :
    (head.linked (links.map .plain)).span = (head.linked links).span := by
  have spans (l : Link) (a b : Expr) : (l.plain.after a).span = (l.after b).span := by cases l <;> rfl
  have same (a b : Expr) (start : a.span = b.span) : (a.linked (links.map .plain)).span = (b.linked links).span := by
    induction links generalizing a b with
    | nil => exact start
    | cons l r ih => exact ih _ _ (spans l a b)
  exact same head head rfl

/-- The mark of a link does not matter where there is something to go on from. -/
theorem follow_plain (goes : l.optional = true → v.isNullish = false) (label : String) (place : Span) :
    follow vars host label place l v = follow vars host label place l.plain v := by
  have passes (optional : Bool) (goes : optional = true → v.isNullish = false) :
      (optional && v.isNullish) = (false && v.isNullish) := by
    cases optional with
    | false => rfl
    | true =>
      rw [goes rfl]
      rfl
  cases l with
  | member span key optional | call span arguments optional =>
    unfold follow Link.plain
    dsimp only
    rw [passes optional goes]

/-- Nor does what messages show, but for the messages. -/
theorem likewise_follow {links before after : List Link} (split : links = before ++ after) (l : Link) (place : Span) (v : Value)
    (m : Machine σ) : Likewise head links ((follow vars host (head.linked before).describe place l v).run.run m)
      ((follow vars host (head.linked (before.map .plain)).describe place l v).run.run m) := by
  cases l with
  | member span key optional =>
    unfold follow
    dsimp only
    split
    · exact .same _
    · refine .next _ fun name m => .next _ fun found m => ?_
      cases found with
      | none => exact .member split _ _ m
      | some v => exact .same _
  | call span arguments optional =>
    unfold follow
    dsimp only
    split
    · exact .same _
    · refine .next _ fun args m => .next _ fun answer m => ?_
      rcases answer with _ | _ | _
      · exact .call split _ m
      · exact .same _
      · exact .same _

/-- One more link. -/
theorem likewise_after {links before after : List Link} (uninterrupted : Uninterrupted vars host head links m)
    (split : links = before ++ l :: after) (ih : Likewise head links ((link vars host (head.linked before)).run.run m)
      ((link vars host (head.linked (before.map .plain))).run.run m)) :
    Likewise head links ((link vars host (head.linked (before ++ [l]))).run.run m)
      ((link vars host (head.linked ((before ++ [l]).map .plain))).run.run m) := by
  rw [List.map_append, List.map_singleton, linked_concat, linked_concat, link_after, link_after]
  refine .bind ih fun found m' reached => ?_
  cases found with
  | none => exact .same _
  | some v =>
    dsimp only
    rw [span_linked_plain, ← follow_plain fun optional => uninterrupted before l after v m' split optional reached]
    exact likewise_follow split l _ v m'

/-- The value of a chain is that of the links in it. -/
theorem evalWith_chain (vars : Variables σ) (host : Host σ) (span : Span) (e : Expr) :
    evalWith vars host (.chain span e) = evalWith vars host e := by
  show (link vars host e >>= fun v => pure (some (settled v))) >>= (fun v => pure (settled v)) = evalWith vars host e
  rw [bind_assoc]
  simp only [pure_bind]
  rfl

theorem likewise_linked {links : List Link} (uninterrupted : Uninterrupted vars host head links m) (rest : List Link) :
    ∀ before, links = before ++ rest → Likewise head links ((link vars host (head.linked before)).run.run m)
      ((link vars host (head.linked (before.map .plain))).run.run m) →
    Likewise head links ((link vars host (head.linked links)).run.run m)
      ((link vars host (head.linked (links.map .plain))).run.run m) := by
  induction rest with
  | nil =>
    rintro before split so
    rw [List.append_nil] at split
    rw [split]
    exact split ▸ so
  | cons l r ih =>
    intro before split so
    exact ih (before ++ [l]) (by rw [split, List.append_assoc]; rfl) (likewise_after uninterrupted split so)

/-- **An optional chain stops cleanly.** A reading takes all the links after an expression, and makes one chain of them if
one is optional. A chain is undefined if the value before one of its optional links, where that link is reached, is null or
undefined; nothing after it is evaluated then, and no link outside of the chain is stopped with it. Otherwise the marks of
its links make no difference but to what messages show. -/
theorem chain_stops_cleanly (vars : Variables σ) (host : Host σ) :
    (∀ n c e c', Gives (Grammar.readPostfix n) c e c' → Grammar.Gathered c e c') ∧
    ∀ (span : Span) (head : Expr) (links : List Link) (m : Machine σ),
      (∀ before l after v m', links = before ++ l :: after → l.optional = true →
        (link vars host (head.linked before)).run.run m = (.ok (some v), m') → v.isNullish = true →
        Stopped vars host (.chain span (head.linked links)) m m') ∧
      (Uninterrupted vars host head links m →
        Likewise head links ((evalWith vars host (.chain span (head.linked links))).run.run m)
          ((evalWith vars host (head.linked (links.map .plain))).run.run m)) := by
  refine ⟨fun n c e c' => Grammar.gathered_of_readPostfix, fun span head links m => ⟨?_, fun uninterrupted => ?_⟩⟩
  · rintro before l after v m' rfl optional reached nothing
    -- The link stops, and the links after it are passed over.
    refine stopped_of_link span ?_
    rw [linked_append]
    refine link_linked_stopped after ?_
    rw [link_after, run_bind_of_ok reached]
    exact follow_stops optional nothing _ _
  · rw [evalWith_chain]
    exact .bind (likewise_linked uninterrupted links [] rfl (.same _)) fun v m' _ => .same _

/-- The links of `a?.b[f()].c`. -/
def threeLinks : List Link :=
  [.member ⟨0, 4⟩ (.named "b") true, .member ⟨0, 9⟩ (.computed (.call ⟨5, 8⟩ (.identifier ⟨5, 6⟩ "f") [] false)) false,
    .member ⟨0, 11⟩ (.named "c") false]

/-- A name for nothing. -/
def holdingNothing : Machine Unit := ⟨⟨0, ()⟩, .ofList [("a", .null)]⟩

/-- Where `a` is null all of the chain is undefined, and `f` is not called. -/
theorem chain_stops_at_null :
    parse "a?.b[f()].c".toList = .ok (.chain ⟨0, 11⟩ ((identifier ⟨0, 1⟩ "a").linked threeLinks)) ∧
    Stopped .inScope Host.idle (.chain ⟨0, 11⟩ ((identifier ⟨0, 1⟩ "a").linked threeLinks)) holdingNothing holdingNothing := by
  refine ⟨rfl, ?_⟩
  have reached : (link .inScope Host.idle (identifier ⟨0, 1⟩ "a")).run.run holdingNothing =
      (.ok (some .null), holdingNothing) := rfl
  exact ((chain_stops_cleanly .inScope Host.idle).2 _ _ _ _).1 [] _ _ .null _ rfl rfl reached rfl

/-- The links of `a?.b.c`. -/
def twoLinks : List Link := [.member ⟨0, 4⟩ (.named "b") true, .member ⟨0, 6⟩ (.named "c") false]

/-- A name for an object with a null in it. -/
def holdingNull : Machine Unit := ⟨⟨0, ()⟩, .ofList [("a", .object [("b", .null)])]⟩

/-- Where no link stops the chain `a?.b.c`, a message still names `a?.b`, and without the mark `a.b`. -/
theorem message_shows_mark :
    parse "a?.b.c".toList = .ok (.chain ⟨0, 6⟩ ((identifier ⟨0, 1⟩ "a").linked twoLinks)) ∧
    Uninterrupted .inScope Host.idle (identifier ⟨0, 1⟩ "a") twoLinks holdingNull ∧
    ∃ m, (eval Host.idle (.chain ⟨0, 6⟩ ((identifier ⟨0, 1⟩ "a").linked twoLinks))).run.run holdingNull =
        (.error ⟨.propertyNotExists "a?.b" "c", ⟨0, 6⟩⟩, m) ∧
      (eval Host.idle ((identifier ⟨0, 1⟩ "a").linked (twoLinks.map .plain))).run.run holdingNull =
        (.error ⟨.propertyNotExists "a.b" "c", ⟨0, 6⟩⟩, m) := by
  refine ⟨rfl, ?_, _, rfl, rfl⟩
  intro before l after v m' split optional reached
  match before with
  | [] =>
    cases reached
    rfl
  | [_] =>
    cases split
    cases optional
  | [_, _] | _ :: _ :: _ :: _ => cases split

end Expr
end PromptScript
