import PromptScript.Proofs.Faithful
import PromptScript.Proofs.OptionalLinks
import PromptScript.Proofs.Variables

/-! # Spines of chains

The spine of a chain is the run of members and calls that it goes along. In all that is read, each optional link is on the
spine of a chain, each chain has an optional link on its spine, and only variables and members that are not optional are
assigned or updated. So a link that finds nothing to go on from stops the chain on whose spine it is, and nothing else:
whatever is not on the spine of a chain has a value, if it does not fail. -/
namespace PromptScript

namespace Expr

/-- Whether an expression is an optional link. -/
def isOptional : Expr → Bool
  | member _ _ _ optional | call _ _ _ optional => optional
  | _ => false

/-- The parts of an expression that are evaluated for values of their own: all but what a link goes on from, and the links
of a chain. -/
def asides : Expr → List Expr
  | member _ _ key _ => key.parts
  | call _ _ arguments _ => arguments
  | chain _ _ => []
  | e => e.parts

/-- What stands in an expression, each part where it stands: on the spine of a chain, which is given, or on none. -/
inductive Contains (e : Expr) : Option Expr → Expr → Prop
  | whole : Contains e none e
  | spine {on : Option Expr} {span : Span} {inner : Expr} (chained : Contains e on (.chain span inner)) :
    Contains e (some (.chain span inner)) inner
  | base {on : Option Expr} {span : Span} {base : Expr} {key : Key} {optional : Bool}
    (link : Contains e on (.member span base key optional)) : Contains e on base
  | callee {on : Option Expr} {span : Span} {callee : Expr} {arguments : List Expr} {optional : Bool}
    (link : Contains e on (.call span callee arguments optional)) : Contains e on callee
  | aside {on : Option Expr} {p q : Expr} (around : Contains e on p) (there : q ∈ p.asides) : Contains e none q

variable {e p q : Expr} {on : Option Expr}

/-- A part stands on the spine that the whole is on, on that of the whole, or on none. -/
theorem Contains.part (around : e.Contains on q) (there : p ∈ q.parts) : ∃ on, e.Contains on p := by
  cases q with
  | member span base key optional =>
    rcases List.mem_cons.mp there with rfl | inKey
    · exact ⟨_, around.base⟩
    · exact ⟨_, around.aside inKey⟩
  | call span callee arguments optional =>
    rcases List.mem_cons.mp there with rfl | argument
    · exact ⟨_, around.callee⟩
    · exact ⟨_, around.aside argument⟩
  | chain span inner =>
    obtain rfl := List.mem_singleton.mp there
    exact ⟨_, around.spine⟩
  | _ => exact ⟨_, around.aside there⟩

theorem Contains.within (around : e.Contains on q) (within : p.Within q) : ∃ on, e.Contains on p := by
  induction within generalizing on with
  | self => exact ⟨on, around⟩
  | inside there _ ih =>
    obtain ⟨_, part⟩ := around.part there
    exact ih part

/-- What is on the spine of a chain is what the chain has links after. -/
theorem Contains.exists_links {c : Expr} (there : e.Contains (some c) p) :
    ∃ span links on, c = .chain span (p.linked links) ∧ e.Contains on c := by
  generalize spine : some c = place at there
  induction there with
  | whole | aside _ _ => cases spine
  | spine chained =>
    cases spine
    exact ⟨_, [], _, rfl, chained⟩
  | base _ ih =>
    obtain ⟨span, links, on, rfl, chained⟩ := ih spine
    exact ⟨span, .member _ _ _ :: links, on, rfl, chained⟩
  | callee _ ih =>
    obtain ⟨span, links, on, rfl, chained⟩ := ih spine
    exact ⟨span, .call _ _ _ :: links, on, rfl, chained⟩

/-! ## The shape of what is read -/

/-- Off the spine there is nothing but what is formed on its own. -/
theorem Formed.aside {chained : Bool} (formed : p.Formed chained) (there : q ∈ p.asides) : q.Formed false := by
  cases p with
  | literal | identifier | chain => cases there
  | array span items => exact itemsFormed_mem formed there
  | sequence span items => exact itemsFormed_mem formed.2 there
  | object span fields =>
    obtain ⟨⟨key, value⟩, field, there⟩ := List.mem_flatMap.mp there
    obtain ⟨valued, keyed⟩ := fieldsFormed_mem formed field
    rcases List.mem_append.mp there with inKey | isValue
    · cases key with
      | named => cases inKey
      | computed k => exact List.mem_singleton.mp inKey ▸ keyed k rfl
    · exact List.mem_singleton.mp isValue ▸ valued
  | unary span op a => exact List.mem_singleton.mp there ▸ formed
  | update span op before a => exact List.mem_singleton.mp there ▸ formed.2
  | binary span op a b | logical span op a b =>
    rcases List.mem_cons.mp there with rfl | there
    · exact formed.1
    · exact List.mem_singleton.mp there ▸ formed.2
  | assignment span op target value =>
    obtain ⟨-, -, target, value⟩ := formed
    rcases List.mem_cons.mp there with rfl | there
    · exact target
    · exact List.mem_singleton.mp there ▸ value
  | conditional span test a b =>
    obtain ⟨test, first, second⟩ := formed
    rcases List.mem_cons.mp there with rfl | there
    · exact test
    · rcases List.mem_cons.mp there with rfl | there
      · exact first
      · exact List.mem_singleton.mp there ▸ second
  | member span base key optional =>
    obtain ⟨-, -, keyed⟩ := formed
    cases key with
    | named => cases there
    | computed k => exact List.mem_singleton.mp there ▸ keyed
  | call span callee arguments optional => exact itemsFormed_mem formed.2.2 there

/-- What is formed is so at every place in it. -/
theorem Formed.contains (formed : e.Formed false) (there : e.Contains on p) : p.Formed on.isSome := by
  induction there with
  | whole => exact formed
  | spine _ ih => exact ih.2
  | base _ ih => exact ih.2.1
  | callee _ ih => exact ih.2.1
  | aside _ there ih => exact ih.aside there

/-- The targets, optional links and chains in an expression are as they are read. -/
structure WellChained (e : Expr) : Prop where
  assigned : ∀ span op target value, (assignment span op target value).Within e → target.isTarget = true
  updated : ∀ span op before argument, (update span op before argument).Within e → argument.isTarget = true
  /-- An optional link is on the spine of a chain: between the two there are links only. -/
  spined : ∀ on p, e.Contains on p → p.isOptional = true →
    ∃ span links outer, on = some (chain span (p.linked links)) ∧ e.Contains outer (chain span (p.linked links))
  marked : ∀ span inner, (chain span inner).Within e → inner.hasOptional = true

theorem Formed.wellChained (formed : e.Formed false) : e.WellChained where
  assigned span op target value within := by
    obtain ⟨on, there⟩ := Contains.whole.within within
    exact (formed.contains there).2.1
  updated span op before argument within := by
    obtain ⟨on, there⟩ := Contains.whole.within within
    exact (formed.contains there).1
  spined on p there optional := by
    -- Only on a spine an optional link is formed.
    have chained : on.isSome = true := by
      have here := formed.contains there
      cases p with
      | member | call => exact here.1 optional
      | _ => cases optional
    obtain ⟨c, rfl⟩ := Option.isSome_iff_exists.mp chained
    obtain ⟨span, links, outer, rfl, chain⟩ := there.exists_links
    exact ⟨span, links, outer, rfl, chain⟩
  marked span inner within := by
    obtain ⟨on, there⟩ := Contains.whole.within within
    exact (formed.contains there).1

/-! ## Links that last -/

section Lasting

variable {σ α : Type} {vars : Variables σ} {host : Host σ}

/-- A link that does not stop. -/
def Lasts (x : Eval σ (Option Value)) : Prop := ∀ m m', x.run.run m ≠ (.ok none, m')

theorem Lasts.some (v : Value) : Lasts (pure (some v) : Eval σ _) := by
  intro m m' stopped
  cases stopped

theorem Lasts.fail (defect : Defect) (span : Span) : Lasts (fail defect span : Eval σ _) := by
  intro m m' stopped
  cases stopped

theorem Lasts.bind {x : Eval σ α} {f : α → Eval σ (Option Value)} (rest : ∀ a, Lasts (f a)) : Lasts (x >>= f) := by
  intro m m' stopped
  obtain ⟨a, m₁, -, after⟩ := run_bind_eq_ok.mp stopped
  exact rest a m₁ m' after

theorem Lasts.ite {p : Prop} [Decidable p] {x y : Eval σ (Option Value)} (hx : Lasts x) (hy : Lasts y) :
    Lasts (if p then x else y) := by
  split
  · exact hx
  · exact hy

/-- A link without a mark goes on from everything. -/
theorem lasts_follow {l : Link} (plain : l.optional = false) (label : String) (place : Span) (v : Value) :
    Lasts (follow vars host label place l v) := by
  cases l with
  | member span key optional =>
    obtain rfl : optional = false := plain
    simp only [follow, Bool.false_and, Bool.false_eq_true, if_false]
    refine .bind fun name => .bind fun found => ?_
    cases found with
    | none => exact .fail _ _
    | some v => exact .some v
  | call span arguments optional =>
    obtain rfl : optional = false := plain
    simp only [follow, Bool.false_and, Bool.false_eq_true, if_false]
    refine .bind fun args => .bind fun answer => ?_
    rcases answer with _ | _ | _
    · exact .fail _ _
    · exact .fail _ _
    · exact .some _

/-- A link without a mark stops only with what is before it. -/
theorem Lasts.after {l : Link} (before : Lasts (link vars host e)) (plain : l.optional = false) :
    Lasts (link vars host (l.after e)) := by
  rw [link_after]
  intro m m' stopped
  obtain ⟨found, m₁, reached, after⟩ := run_bind_eq_ok.mp stopped
  cases found with
  | none => exact before m m₁ reached
  | some v => exact lasts_follow plain _ _ v m₁ m' after

/-- Outside of chains nothing stops. -/
theorem Formed.lasts (vars : Variables σ) (host : Host σ) : ∀ {e : Expr}, e.Formed false → Lasts (link vars host e)
  | literal _ _, _ => .some _
  | identifier _ _, _ | array _ _, _ | object _ _, _ | sequence _ _, _ | unary _ _ _, _ | chain _ _, _ =>
    .bind fun _ => .some _
  | binary _ _ _ _, _ => .bind fun _ => .bind fun _ => .some _
  | logical _ _ _ _, _ => .bind fun _ => .ite (.some _) (.bind fun _ => .some _)
  | conditional _ _ _ _, _ => .bind fun _ => .ite (.bind fun _ => .some _) (.bind fun _ => .some _)
  | assignment _ .assign target _, _ => by
    cases target with
    | identifier => exact .bind fun _ => .bind fun _ => .some _
    | _ => exact .bind fun _ => .bind fun _ => .bind fun _ => .some _
  | assignment _ (.binary _) _ _, _ =>
    .bind fun _ => .bind fun _ => .bind fun _ => .bind fun _ => .bind fun _ => .some _
  | assignment _ (.logical _) _ _, _ =>
    .bind fun _ => .bind fun _ => .ite (.some _) (.bind fun _ => .bind fun _ => .bind fun _ => .some _)
  | update _ _ _ _, _ => by
    refine .bind fun found => ?_
    cases found with
    | none => exact .fail _ _
    | some place => exact .bind fun _ => .some _
  | member span base key optional, formed => by
    obtain ⟨plain, before, -⟩ := formed
    have unmarked : optional = false := Bool.eq_false_iff.mpr fun mark => Bool.noConfusion (plain mark)
    exact Lasts.after (l := .member span key optional) (lasts vars host before) unmarked
  | call span callee arguments optional, formed => by
    obtain ⟨plain, before, -⟩ := formed
    have unmarked : optional = false := Bool.eq_false_iff.mpr fun mark => Bool.noConfusion (plain mark)
    exact Lasts.after (l := .call span arguments optional) (lasts vars host before) unmarked

end Lasting

/-- What stops in an expression stops the chain on whose spine it is, and nothing else. -/
structure StopsInChains (e : Expr) : Prop where
  lasts : ∀ {σ : Type} (vars : Variables σ) (host : Host σ) (p : Expr), e.Contains none p →
    ∀ m m', (link vars host p).run.run m ≠ (.ok none, m')
  stops : ∀ {σ : Type} (vars : Variables σ) (host : Host σ) (c p : Expr), e.Contains (some c) p →
    ∀ m m', (link vars host p).run.run m = (.ok none, m') → (link vars host c).run.run m = (.ok (some .undefined), m')

theorem Formed.stopsInChains (formed : e.Formed false) : e.StopsInChains where
  lasts vars host p there := (formed.contains there).lasts vars host
  stops vars host c p there m m' stopped := by
    obtain ⟨span, links, on, rfl, -⟩ := there.exists_links
    exact (stopped_of_link span (link_linked_stopped links stopped)).part

/-- **What is read is well chained**, each expression of its own and each in a document: only variables and members that are
not optional are assigned or updated, each optional link is on the spine of a chain, and each chain has one on its spine.
Hence a link that finds nothing stops the chain that it is on, and what is on the spine of no chain never stops. -/
theorem parsed_wellChained (source : List Char) :
    (∀ e, parse source = .ok e → e.WellChained ∧ e.StopsInChains) ∧
      ∀ d, Document.parse source = .ok d → ∀ n ∈ d.body, n.AllFine fun e => e.WellChained ∧ e.StopsInChains := by
  have both {e : Expr} (formed : e.Formed false) : e.WellChained ∧ e.StopsInChains :=
    ⟨formed.wellChained, formed.stopsInChains⟩
  refine ⟨fun e parsed => both (formed_of_parse parsed), fun d parsed n there e within => ?_⟩
  have formed : Makes Grammar.readExpr (Formed false) := .past fun text => (Grammar.forms _).sequence
  exact both (Node.builtFrom_allFine.of_parse formed parsed n there e within)

/-- A link after a chain in parentheses is a target, and the marks are those of the chains: in an expression, and where an
interpolation has one. -/
theorem parsed_wellChained_around :
    let a (o : Nat) : Expr := .chain ⟨o, o + 4⟩ (.member ⟨o, o + 4⟩ (.identifier ⟨o, o + 1⟩ "a") (.named "b") true)
    let e : Expr := .assignment ⟨1, 15⟩ .assign (.member ⟨1, 8⟩ (a 1) (.named "c") false) (a 11)
    let n : Node := .interpolation ⟨0, 8⟩ (a 2) none
    parse "(a?.b).c = a?.b".toList = .ok e ∧ e.WellChained ∧ e.StopsInChains ∧
      Document.parse "\x7b\x7ba?.b\x7d\x7d".toList = .ok ⟨⟨0, 8⟩, [n], none⟩ ∧
      n.AllFine fun e => e.WellChained ∧ e.StopsInChains := by
  intro a e n
  have parsed : parse "(a?.b).c = a?.b".toList = .ok e := rfl
  have parsed' : Document.parse "\x7b\x7ba?.b\x7d\x7d".toList = .ok ⟨⟨0, 8⟩, [n], none⟩ := rfl
  obtain ⟨chained, stops⟩ := (parsed_wellChained _).1 _ parsed
  exact ⟨parsed, chained, stops, parsed', (parsed_wellChained _).2 _ parsed' n (List.mem_singleton_self n)⟩

end Expr
end PromptScript
