import PromptScript.Proofs.Reprinted

/-! # Printing and reading again

Every expression that has been read comes back from its own text: the reading of what is printed gives an expression that
differs from it in its spans alone. The proof goes from the parts of an expression to the whole. An expression stands in
two places: on its own, and, where further links of a chain may follow, as the start of such links. -/
namespace PromptScript
namespace Grammar

variable {digits : Float → List Char} {e base : Expr} {more : List Char} {optional : Bool} {make : Expr → Expr → Prop}

/-- The text of an expression goes on with links as those of that expression. -/
def Starts (digits : Float → List Char) (e : Expr) : Prop :=
  ∀ rest, (∀ d ∈ rest.head?, isNameChar d = false) → ∀ k,
    ∃ a, Alike e a ∧ Heads (e.printed digits true) rest k a e.hasOptional

/-- The text of a link, whatever follows it. -/
def Links (more : List Char) (optional : Bool) (make : Expr → Expr → Prop) : Prop :=
  ∀ rest : List Char, (∀ d ∈ rest.head?, isNameChar d = false) → Linked more rest optional make

/-- Between parentheses, any expression may have links after it. -/
theorem starts_of_comes (h : Comes digits e) (shown : e.printed digits true = Expr.enclosed (e.printed digits false))
    (none : e.hasOptional = false) : Starts digits e := by
  intro rest _ k
  obtain ⟨n, a, alike, reads⟩ := h.primary rest k
  rw [shown, none]
  exact ⟨a, alike, .of_primary reads⟩

/-- A link of an expression, outside of a chain. -/
theorem comes_linked (h : Comes digits base) (link : Links more false make)
    (shown : e.printed digits false = Expr.enclosed (base.printed digits false) ++ more)
    (same : ∀ a x, Alike base a → make a x → Alike e x) : Comes digits e := by
  intro rest closes
  rw [shown]
  refine Rereads.whole (.unary (fun k => ?_) (plain_open _)) closes
  obtain ⟨n, a, alike, reads⟩ := h.primary (more ++ rest) k
  obtain ⟨x, made, heads⟩ := (Heads.of_primary reads).linked (link rest closes.apart)
  obtain ⟨m, reads⟩ := heads.postfixed closes.stops.toQuiet
  exact ⟨m, x, same a x alike made, reads⟩

/-- A link of a chain. -/
theorem starts_linked (h : Starts digits base) (link : Links more optional make)
    (shown : e.printed digits true = base.printed digits true ++ more) (has : e.hasOptional = (optional || base.hasOptional))
    (same : ∀ a x, Alike base a → make a x → Alike e x) : Starts digits e := by
  intro rest apart k
  have linked := link rest apart
  obtain ⟨a, alike, heads⟩ := h (more ++ rest) (fun d here => (linked.head d here).2) k
  obtain ⟨x, made, heads⟩ := heads.linked linked
  rw [shown, has]
  exact ⟨x, same a x alike made, heads⟩

/-- What a chain starts with is between parentheses. -/
theorem printed_chained (digits : Float → List Char) : ∀ e : Expr, ∃ r, e.printed digits true = '(' :: r
  | .member _ base key optional =>
    have ⟨r, here⟩ := printed_chained digits base
    ⟨r ++ Expr.linkPrinted digits optional key, congrArg (· ++ Expr.linkPrinted digits optional key) here⟩
  | .call _ callee arguments optional =>
    have ⟨r, here⟩ := printed_chained digits callee
    ⟨r ++ (Expr.mark optional ++ '(' :: (Expr.itemsPrinted digits arguments ++ [')'])), congrArg (· ++ _) here⟩
  | .literal .. | .identifier .. | .array .. | .object .. | .sequence .. | .unary .. | .binary .. | .logical ..
  | .assignment .. | .update .. | .conditional .. | .chain .. => ⟨_, rfl⟩

theorem comes_chain (h : Starts digits e) (has : e.hasOptional = true) (span : Span) : Comes digits (.chain span e) := by
  intro rest closes
  obtain ⟨r, start⟩ := printed_chained digits e
  have shown : (Expr.chain span e).printed digits false = e.printed digits true := rfl
  rw [shown]
  refine Rereads.whole (.unary (fun k => ?_) (start ▸ plain_open _)) closes
  obtain ⟨a, alike, heads⟩ := h rest closes.apart k
  rw [has] at heads
  obtain ⟨n, reads⟩ := heads.postfixed closes.stops.toQuiet
  exact ⟨n, .chain a.span a, congrArg (Expr.chain ⟨0, 0⟩) alike, reads⟩

/-! ## Words -/

theorem comes_identifier (span : Span) {name : String} (named : isName name.toList = true) (free : name ∉ Expr.words) :
    Comes digits (.identifier span name) := by
  simp only [Expr.words, List.mem_cons, List.not_mem_nil, or_false, not_or] at free
  obtain ⟨true_, false_, null, undefined, typeOf, void, in_⟩ := free
  have noValue : wordValue? name = none := by
    unfold wordValue?
    split <;> simp_all
  have noKeyword : name ∉ reservedWords := by simp [reservedWords, typeOf, void, in_]
  exact comes_word rfl named ⟨typeOf, void⟩ fun span => ⟨.identifier span name, rfl, wordExpr?_name noValue noKeyword span⟩

theorem comes_literal (span : Span) {value : Value} (single : value.isSingle = true)
    (numbers : ∀ x, value = .number x → Expr.IsDecimal (digits x) ∧ Number.readDecimal? (digits x) = some x) :
    Comes digits (.literal span value) := by
  have word (word : String) (shown : Expr.literalText digits value = word.toList) (named : isName word.toList = true)
      (free : word ≠ "typeof" ∧ word ≠ "void") (meant : wordValue? word = some value) :
      Comes digits (.literal span value) :=
    comes_word shown named free fun span => ⟨.literal span value, rfl, wordExpr?_value meant span⟩
  cases value with
  | undefined => exact word "undefined" rfl rfl (by decide) rfl
  | null => exact word "null" rfl rfl (by decide) rfl
  | bool b =>
    cases b with
    | true => exact word "true" rfl rfl (by decide) rfl
    | false => exact word "false" rfl rfl (by decide) rfl
  | string s => exact comes_string span s
  | number x => exact comes_number span (numbers x rfl).1 (numbers x rfl).2
  | _ => cases single

/-! ## Expressions -/

/-- An expression comes back where it may stand: on its own, or as the start of the links of a chain. -/
structure Returns (digits : Float → List Char) (e : Expr) : Prop where
  comes : e.Formed false → Comes digits e
  starts : e.Formed true → Starts digits e

/-- It is enough for what is no link that it comes back on its own. -/
theorem Returns.of_comes (h : e.Formed false → Comes digits e) (loose : e.Formed true → e.Formed false)
    (shown : e.printed digits true = Expr.enclosed (e.printed digits false)) (none : e.hasOptional = false) :
    Returns digits e :=
  ⟨h, fun formed => starts_of_comes (h (loose formed)) shown none⟩

end Grammar

namespace Expr

variable {digits : Float → List Char} {e : Expr}

theorem itemsFormed_mem {items : List Expr} (h : itemsFormed items) (there : e ∈ items) : e.Formed false := by
  induction items with
  | nil => cases there
  | cons first r ih =>
    rcases List.mem_cons.mp there with rfl | later
    · exact h.1
    · exact ih h.2 later

theorem fieldsFormed_mem {fields : List (Key × Expr)} (h : fieldsFormed fields) {key : Key} (there : (key, e) ∈ fields) :
    e.Formed false ∧ ∀ p, key = .computed p → p.Formed false := by
  induction fields with
  | nil => cases there
  | cons first r ih =>
    obtain ⟨key', e'⟩ := first
    cases key' with
    | named name =>
      rcases List.mem_cons.mp there with same | later
      · cases same
        exact ⟨h.1, nofun⟩
      · exact ih h.2 later
    | computed p =>
      rcases List.mem_cons.mp there with same | later
      · cases same
        exact ⟨h.2.1, by rintro _ ⟨⟩; exact h.1⟩
      · exact ih h.2.2 later

theorem sizeOf_key_parts {key : Key} {p : Expr} (there : p ∈ key.parts) : sizeOf p < sizeOf key := by
  cases key with
  | named name => cases there
  | computed e =>
    obtain rfl := List.mem_singleton.mp there
    simp

theorem sizeOf_partsOfFields {fields : List (Key × Expr)} {p : Expr} (there : p ∈ partsOfFields fields) :
    sizeOf p < sizeOf fields := by
  obtain ⟨⟨key, e⟩, field, there⟩ := List.mem_flatMap.mp there
  have small := List.sizeOf_lt_of_mem field
  have pair : sizeOf (key, e) = 1 + sizeOf key + sizeOf e := rfl
  rcases List.mem_append.mp there with inKey | last
  · have within : sizeOf p < sizeOf key := sizeOf_key_parts inKey
    omega
  · obtain rfl := List.mem_singleton.mp last
    omega

/-- A part is smaller than the whole. -/
theorem sizeOf_parts {e p : Expr} (there : p ∈ e.parts) : sizeOf p < sizeOf e := by
  cases e with
  | literal | identifier => cases there
  | array _ items | sequence _ items =>
    have small : sizeOf p < sizeOf items := List.sizeOf_lt_of_mem there
    simp only [array.sizeOf_spec, sequence.sizeOf_spec]
    omega
  | object _ fields =>
    have small : sizeOf p < sizeOf fields := sizeOf_partsOfFields there
    simp only [object.sizeOf_spec]
    omega
  | unary | update | chain =>
    obtain rfl := List.mem_singleton.mp there
    simp only [unary.sizeOf_spec, update.sizeOf_spec, chain.sizeOf_spec]
    omega
  | binary | logical | assignment =>
    simp only [parts, List.mem_cons, List.not_mem_nil, or_false] at there
    simp only [binary.sizeOf_spec, logical.sizeOf_spec, assignment.sizeOf_spec]
    rcases there with rfl | rfl <;> omega
  | member _ base key =>
    simp only [member.sizeOf_spec]
    rcases List.mem_cons.mp there with rfl | inKey
    · omega
    · have := sizeOf_key_parts inKey
      omega
  | conditional =>
    simp only [parts, List.mem_cons, List.not_mem_nil, or_false] at there
    simp only [conditional.sizeOf_spec]
    rcases there with rfl | rfl | rfl <;> omega
  | call _ callee arguments =>
    simp only [call.sizeOf_spec]
    rcases List.mem_cons.mp there with rfl | argument
    · omega
    · have := List.sizeOf_lt_of_mem argument
      omega

/-- What holds of an expression if it holds of its parts holds of every expression. -/
theorem parts_induction {motive : Expr → Prop} (whole : ∀ e, (∀ p ∈ e.parts, motive p) → motive e) (e : Expr) : motive e :=
  whole e fun p _ => parts_induction whole p
termination_by sizeOf e
decreasing_by exact sizeOf_parts ‹_›

end Expr

namespace Grammar

variable {digits : Float → List Char} {e : Expr}

/-- An expression returns if its parts do. -/
theorem returns_of_parts (printable : e.Printable digits) (parts : ∀ p ∈ e.parts, Returns digits p) : Returns digits e := by
  cases e with
  | literal span value =>
    refine .of_comes (fun formed => comes_literal span formed ?_) id rfl rfl
    rintro x rfl
    exact printable.numbers span x .self
  | identifier span name =>
    obtain ⟨named, free⟩ := printable.names span name .self
    exact .of_comes (fun _ => comes_identifier span named free) id rfl rfl
  | array span items =>
    refine .of_comes (fun formed => comes_array (fun e there => ?_) span) id rfl rfl
    exact (parts e there).comes (Expr.itemsFormed_mem formed there)
  | sequence span items =>
    refine .of_comes (fun formed => comes_sequence (fun e there => ?_) formed.1 span) id rfl rfl
    exact (parts e there).comes (Expr.itemsFormed_mem formed.2 there)
  | object span fields =>
    refine .of_comes (fun formed => comes_object (fun field there => ?_) (fun field there => ?_) span) id rfl rfl
    · rintro p key
      have inKey : p ∈ field.1.parts ++ [field.2] := by
        rw [key]
        exact List.mem_cons_self
      exact (parts p (List.mem_flatMap.mpr ⟨field, there, inKey⟩)).comes ((Expr.fieldsFormed_mem formed there).2 p key)
    · have last : field.2 ∈ field.1.parts ++ [field.2] := List.mem_append_right _ List.mem_cons_self
      exact (parts _ (List.mem_flatMap.mpr ⟨field, there, last⟩)).comes (Expr.fieldsFormed_mem formed there).1
  | unary span op a =>
    exact .of_comes (fun formed => comes_unary ((parts a List.mem_cons_self).comes formed) span op) id rfl rfl
  | binary span op a b =>
    refine .of_comes (fun formed => ?_) id rfl rfl
    have ha := (parts a List.mem_cons_self).comes formed.1
    have hb := (parts b (List.mem_cons_of_mem _ List.mem_cons_self)).comes formed.2
    refine comes_infix (.binary op) ha hb rfl fun a' b' alike alike' => ?_
    show Expr.binary ⟨0, 0⟩ op a'.unplaced b'.unplaced = .binary ⟨0, 0⟩ op a.unplaced b.unplaced
    rw [alike, alike']
  | logical span op a b =>
    refine .of_comes (fun formed => ?_) id rfl rfl
    have ha := (parts a List.mem_cons_self).comes formed.1
    have hb := (parts b (List.mem_cons_of_mem _ List.mem_cons_self)).comes formed.2
    refine comes_infix (.logical op) ha hb rfl fun a' b' alike alike' => ?_
    show Expr.logical ⟨0, 0⟩ op a'.unplaced b'.unplaced = .logical ⟨0, 0⟩ op a.unplaced b.unplaced
    rw [alike, alike']
  | assignment span op target value =>
    refine .of_comes (fun formed => ?_) id rfl rfl
    obtain ⟨written, targets, first, second⟩ := formed
    have ht := (parts target List.mem_cons_self).comes first
    have hv := (parts value (List.mem_cons_of_mem _ List.mem_cons_self)).comes second
    exact comes_assignment ht hv targets span written
  | update span op before a =>
    exact .of_comes (fun formed => comes_update ((parts a List.mem_cons_self).comes formed.2) formed.1 span op before) id rfl rfl
  | conditional span test a b =>
    refine .of_comes (fun formed => ?_) id rfl rfl
    have ht := (parts test List.mem_cons_self).comes formed.1
    have ha := (parts a (List.mem_cons_of_mem _ List.mem_cons_self)).comes formed.2.1
    have hb := (parts b (List.mem_cons_of_mem _ (List.mem_cons_of_mem _ List.mem_cons_self))).comes formed.2.2
    exact comes_conditional ht ha hb span
  | member span base key optional =>
    have link (formed : Expr.keyFormed key) : Links (Expr.linkPrinted digits optional key) optional (MemberOf key optional) := by
      intro rest apart
      cases key with
      | named name => exact linked_named formed apart optional
      | computed p => exact linked_computed ((parts p (List.mem_cons_of_mem _ List.mem_cons_self)).comes formed) optional
    have same (a x : Expr) (alike : Alike base a) (made : MemberOf key optional a x) :
        Alike (.member span base key optional) x := by
      obtain ⟨span', key', key_same, rfl⟩ := made
      show Expr.member ⟨0, 0⟩ a.unplaced (Expr.keyUnplaced key') optional =
        .member ⟨0, 0⟩ base.unplaced (Expr.keyUnplaced key) optional
      rw [alike, key_same]
    refine ⟨fun ⟨plain, formed, keyed⟩ => ?_, fun ⟨_, formed, keyed⟩ => ?_⟩
    · cases optional with
      | true => cases plain rfl
      | false => exact comes_linked ((parts base List.mem_cons_self).comes formed) (link keyed) rfl same
    · exact starts_linked ((parts base List.mem_cons_self).starts formed) (link keyed) rfl rfl same
  | call span callee arguments optional =>
    have link (formed : Expr.itemsFormed arguments) :
        Links (Expr.mark optional ++ '(' :: (Expr.itemsPrinted digits arguments ++ [')'])) optional
          (CallOf arguments optional) := by
      refine fun rest _ => linked_call (fun e there => ?_) optional
      exact (parts e (List.mem_cons_of_mem _ there)).comes (Expr.itemsFormed_mem formed there)
    have same (a x : Expr) (alike : Alike callee a) (made : CallOf arguments optional a x) :
        Alike (.call span callee arguments optional) x := by
      obtain ⟨span', arguments', items_same, rfl⟩ := made
      show Expr.call ⟨0, 0⟩ a.unplaced (Expr.itemsUnplaced arguments') optional =
        .call ⟨0, 0⟩ callee.unplaced (Expr.itemsUnplaced arguments) optional
      rw [alike, items_same]
    refine ⟨fun ⟨plain, formed, given⟩ => ?_, fun ⟨_, formed, given⟩ => ?_⟩
    · cases optional with
      | true => cases plain rfl
      | false => exact comes_linked ((parts callee List.mem_cons_self).comes formed) (link given) rfl same
    · exact starts_linked ((parts callee List.mem_cons_self).starts formed) (link given) rfl rfl same
  | chain span a =>
    exact .of_comes (fun formed => comes_chain ((parts a List.mem_cons_self).starts formed.2) formed.1 span) id rfl rfl

theorem returns (e : Expr) : e.Printable digits → Returns digits e := by
  induction e using Expr.parts_induction with
  | whole e ih => exact fun printable => returns_of_parts printable fun p there => ih p there (printable.part there)

/-- A text that stands for an expression is a source of it. -/
theorem Standing.parse {P : Expr → Prop} {text : List Char} (h : Standing P text) : ∃ e, Expr.parse text = .ok e ∧ P e := by
  obtain ⟨n, e, holds, reads⟩ := h [] (.inl rfl) 0
  rw [List.append_nil] at reads
  exact ⟨e, parse_of_ended reads, holds⟩

end Grammar

/-- **Expressions survive printing and reading again.** -/
theorem Expr.parse_printed {digits : Float → List Char} {source : List Char} {e : Expr} (parsed : parse source = .ok e)
    (printable : e.Printable digits) : ∃ a, parse (e.printed digits false) = .ok a ∧ a.unplaced = e.unplaced :=
  ((Grammar.returns e printable).comes (formed_of_parse parsed)).parse

/-- What is read from `a?.b[1](-x, '"')`. -/
def Expr.optionalCall (one : Float) : Expr :=
  .chain ⟨0, 16⟩ (.call ⟨0, 16⟩
    (.member ⟨0, 7⟩ (.member ⟨0, 4⟩ (.identifier ⟨0, 1⟩ "a") (.named "b") true)
      (.computed (.literal ⟨5, 6⟩ (.number one))) false)
    [.unary ⟨8, 10⟩ .minus (.identifier ⟨9, 10⟩ "x"), .literal ⟨12, 15⟩ (.string "\"")] false)

/-- Its links stay those of one chain. -/
theorem Expr.parse_printed_chain : ∃ digits e a, parse "a?.b[1](-x, '\"')".toList = .ok e ∧
    e.printed digits false = "(a)?.b[(1)]((-(x)),(\"\\\"\"))".toList ∧
    parse "(a)?.b[(1)]((-(x)),(\"\\\"\"))".toList = .ok a ∧ a.unplaced = e.unplaced := by
  obtain ⟨one, value⟩ : ∃ one, Number.readDecimal? ['1'] = some one := ⟨_, rfl⟩
  have parsed : parse "a?.b[1](-x, '\"')".toList = .ok (optionalCall one) := by
    cases value
    rfl
  let digits : Float → List Char := fun _ => ['1']
  have decimal : IsDecimal ['1'] :=
    ⟨['1'], [], [], rfl, ⟨List.cons_ne_nil _ _, List.forall_mem_cons.mpr ⟨rfl, List.forall_mem_nil _⟩⟩, .inl rfl, .inl rfl⟩
  have single {p : Expr} (hp : p.Printable digits) : ∀ e ∈ [p], e.Printable digits := List.forall_mem_cons.mpr ⟨hp, nofun⟩
  have a : (identifier ⟨0, 1⟩ "a").Printable digits := .of_parts (by rintro _ _ ⟨⟩; decide) nofun nofun
  have x : (identifier ⟨9, 10⟩ "x").Printable digits := .of_parts (by rintro _ _ ⟨⟩; decide) nofun nofun
  have index : (literal ⟨5, 6⟩ (.number one)).Printable digits :=
    .of_parts nofun (by rintro _ _ ⟨⟩; exact ⟨decimal, value⟩) nofun
  have printable : (optionalCall one).Printable digits := by
    refine .of_parts nofun nofun (single (.of_parts nofun nofun (List.forall_mem_cons.mpr ⟨?base, ?arguments⟩)))
    case base => exact .of_parts nofun nofun (List.forall_mem_cons.mpr ⟨.of_parts nofun nofun (single a), single index⟩)
    case arguments =>
      refine List.forall_mem_cons.mpr ⟨.of_parts nofun nofun (single x), ?_⟩
      exact single (.of_parts nofun nofun nofun)
  obtain ⟨e, again, same⟩ := parse_printed parsed printable
  exact ⟨digits, _, e, parsed, rfl, again, same⟩

end PromptScript
