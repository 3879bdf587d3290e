import PromptScript.Proofs.Elsewhere
import PromptScript.Proofs.Shapes

/-! # Printed expressions

Every expression that has a part has it between parentheses, but for the links of a chain, which are written one after
another. How a number is written is left open: it has to be a decimal that is read as that number. -/
namespace PromptScript

/-- How an assignment is written. -/
def AssignOp.symbol : AssignOp → String
  | assign => "="
  | binary op => op.symbol ++ "="
  | logical op => op.symbol ++ "="

namespace Expr

/-- A text between parentheses. -/
def enclosed (text : List Char) : List Char := '(' :: (text ++ [')'])

/-- A character of a string as it stands between quotes. -/
def escape (c : Char) : List Char :=
  if c = '\\' then ['\\', '\\'] else if c = '"' then ['\\', '"'] else if c = '\n' then ['\\', 'n'] else [c]

/-- A string between quotes. -/
def quoted (s : String) : List Char := '"' :: (s.toList.flatMap escape ++ ['"'])

/-- What a link starts with that is optional. -/
def mark (optional : Bool) : List Char := if optional then ['?', '.'] else []

variable (digits : Float → List Char)

/-- A value as a literal. -/
def literalText : Value → List Char
  | .undefined => "undefined".toList
  | .null => "null".toList
  | .bool b => if b then "true".toList else "false".toList
  | .string s => quoted s
  | .number x => digits x
  | _ => []

/-- A text that is not a link, as one or as the start of the links of a chain. -/
def headed (chained : Bool) (text : List Char) : List Char := if chained then enclosed text else text

mutual

/-- An expression as text, or the same as the start of further links of a chain. -/
def printed (chained : Bool) : Expr → List Char
  | literal _ value => headed chained (literalText digits value)
  | identifier _ name => headed chained name.toList
  | array _ items => headed chained ('[' :: (itemsPrinted items ++ [']']))
  | object _ fields => headed chained ('\x7b' :: (fieldsPrinted fields ++ ['\x7d']))
  | sequence _ items => headed chained (itemsPrinted items)
  | unary _ op e => headed chained (op.symbol.toList ++ enclosed (printed false e))
  | binary _ op a b => headed chained (enclosed (printed false a) ++ (op.symbol.toList ++ enclosed (printed false b)))
  | logical _ op a b => headed chained (enclosed (printed false a) ++ (op.symbol.toList ++ enclosed (printed false b)))
  | assignment _ op target value =>
    headed chained (enclosed (printed false target) ++ (op.symbol.toList ++ enclosed (printed false value)))
  | update _ op before e =>
    headed chained (if before then op.symbol.toList ++ enclosed (printed false e)
      else enclosed (printed false e) ++ op.symbol.toList)
  | conditional _ test a b =>
    headed chained (enclosed (printed false test) ++ '?' :: (enclosed (printed false a) ++ ':' :: enclosed (printed false b)))
  | member _ base key optional =>
    (if chained then printed true base else enclosed (printed false base)) ++ linkPrinted optional key
  | call _ callee arguments optional =>
    (if chained then printed true callee else enclosed (printed false callee)) ++
      (mark optional ++ '(' :: (itemsPrinted arguments ++ [')']))
  | chain _ e => headed chained (printed true e)

/-- Expressions between parentheses, with commas between them. -/
def itemsPrinted : List Expr → List Char
  | [] => []
  | e :: r => enclosed (printed false e) ++ moreItemsPrinted r

def moreItemsPrinted : List Expr → List Char
  | [] => []
  | e :: r => ',' :: (enclosed (printed false e) ++ moreItemsPrinted r)

def fieldsPrinted : List (Key × Expr) → List Char
  | [] => []
  | (key, e) :: r => keyPrinted key ++ ':' :: (enclosed (printed false e) ++ moreFieldsPrinted r)

def moreFieldsPrinted : List (Key × Expr) → List Char
  | [] => []
  | (key, e) :: r => ',' :: (keyPrinted key ++ ':' :: (enclosed (printed false e) ++ moreFieldsPrinted r))

/-- The key of a field: a string, or an expression between brackets. -/
def keyPrinted : Key → List Char
  | .named name => quoted name
  | .computed e => '[' :: (enclosed (printed false e) ++ [']'])

/-- The link of a member. -/
def linkPrinted (optional : Bool) : Key → List Char
  | .named name => (if optional then ['?', '.'] else ['.']) ++ name.toList
  | .computed e => mark optional ++ '[' :: (enclosed (printed false e) ++ [']'])

end

/-! ## What may be printed -/

/-- A decimal number: digits, digits after a point, and an exponent. -/
structure IsDecimal (text : List Char) : Prop where
  split : ∃ whole places power, text = whole ++ (places ++ power) ∧
    (whole ≠ [] ∧ ∀ d ∈ whole, d.isDigit = true) ∧
    (places = [] ∨ ∃ ds, places = '.' :: ds ∧ ds ≠ [] ∧ ∀ d ∈ ds, d.isDigit = true) ∧
    (power = [] ∨ ∃ letter sign ds, power = letter :: (sign ++ ds) ∧ (letter = 'e' ∨ letter = 'E') ∧
      (sign = [] ∨ sign = ['+'] ∨ sign = ['-']) ∧ ds ≠ [] ∧ ∀ d ∈ ds, d.isDigit = true)

/-- Being a part of an expression, at any depth, or the expression itself. -/
inductive Within (part : Expr) : Expr → Prop
  | self : Within part part
  | inside {p e : Expr} (there : p ∈ e.parts) (deeper : Within part p) : Within part e

/-- The names that mean something else than a variable. -/
def words : List String := ["true", "false", "null", "undefined", "typeof", "void", "in"]

/-- The variables of an expression have names that are no words, and its numbers are written as decimals that are read as
these numbers. -/
structure Printable (e : Expr) : Prop where
  names : ∀ span name, (identifier span name).Within e → Grammar.isName name.toList = true ∧ name ∉ words
  numbers : ∀ span x, (literal span (.number x)).Within e → IsDecimal (digits x) ∧ Number.readDecimal? (digits x) = some x

theorem Printable.part {digits : Float → List Char} {e p : Expr} (h : e.Printable digits) (there : p ∈ e.parts) :
    p.Printable digits where
  names span name within := h.names span name (.inside there within)
  numbers span x within := h.numbers span x (.inside there within)

theorem Printable.of_parts {digits : Float → List Char} {e : Expr}
    (name : ∀ span name, e = identifier span name → Grammar.isName name.toList = true ∧ name ∉ words)
    (number : ∀ span x, e = literal span (.number x) → IsDecimal (digits x) ∧ Number.readDecimal? (digits x) = some x)
    (parts : ∀ p ∈ e.parts, p.Printable digits) : e.Printable digits where
  names span v within := by
    cases within with
    | self => exact name span v rfl
    | inside there deeper => exact (parts _ there).names span v deeper
  numbers span x within := by
    cases within with
    | self => exact number span x rfl
    | inside there deeper => exact (parts _ there).numbers span x deeper

end Expr
end PromptScript

/-! ## Words, strings and numbers as they are printed

What follows a word or a number does not go on with it. -/
namespace PromptScript
namespace Grammar

variable {rest : List Char}

theorem gives_takeWhile_append {p : Char → Bool} {text : List Char} (all : ∀ d ∈ text, p d = true)
    (stops : ∀ d ∈ rest.head?, p d = false) (k : Nat) :
    Gives (takeWhile p) ⟨k, text ++ rest⟩ text ⟨k + Text.byteLength text, rest⟩ := by
  have last : rest.takeWhile p = [] ∧ rest.dropWhile p = rest := by
    cases rest with
    | nil => exact ⟨rfl, rfl⟩
    | cons d r =>
      have apart : ¬ p d = true := by simp [stops d rfl]
      exact ⟨List.takeWhile_cons_of_neg apart, List.dropWhile_cons_of_neg apart⟩
  refine gives_takeWhile.mpr ⟨?_, ?_⟩
  · show (text ++ rest).takeWhile p = text
    rw [List.takeWhile_append_of_pos all, last.1, List.append_nil]
  · rw [Cursor.skipWhile_eq]
    show (⟨k + Text.byteLength ((text ++ rest).takeWhile p), (text ++ rest).dropWhile p⟩ : Cursor) = _
    rw [List.takeWhile_append_of_pos all, List.dropWhile_append_of_pos all, last.1, last.2, List.append_nil]

/-! ### Names -/

theorem isName_cons {name : List Char} (h : isName name = true) :
    ∃ d r, name = d :: r ∧ isNameStart d = true ∧ ∀ a ∈ name, isNameChar a = true := by
  cases name with
  | nil => cases h
  | cons d r =>
    obtain ⟨start, more⟩ := Bool.and_eq_true_iff.mp h
    refine ⟨d, r, rfl, start, fun a there => ?_⟩
    rcases List.mem_cons.mp there with rfl | there
    · rw [isNameChar, start]
      rfl
    · exact List.all_eq_true.mp more a there

theorem gives_readName {name : List Char} (h : isName name = true) (apart : ∀ d ∈ rest.head?, isNameChar d = false) (k : Nat) :
    Gives readName ⟨k, name ++ rest⟩ (String.ofList name) ⟨k + Text.byteLength name, rest⟩ := by
  obtain ⟨d, r, rfl, start, all⟩ := isName_cons h
  refine .current? ?_
  show Gives (if isNameStart d = true then _ else _) _ _ _
  rw [if_pos start]
  exact .bind (gives_takeWhile_append all apart k) (gives_pure.mpr ⟨rfl, rfl⟩)

/-- What a word means: a value, or a variable if it is not reserved. -/
def wordExpr? (span : Span) (word : String) : Option Expr :=
  match wordValue? word with
  | some v => some (.literal span v)
  | none => if word ∈ reservedWords then none else some (.identifier span word)

theorem wordExpr?_value {word : String} {v : Value} (value : wordValue? word = some v) (span : Span) :
    wordExpr? span word = some (.literal span v) := by
  rw [wordExpr?, value]

theorem wordExpr?_name {word : String} (none : wordValue? word = none) (free : word ∉ reservedWords) (span : Span) :
    wordExpr? span word = some (.identifier span word) := by
  rw [wordExpr?, none]
  exact if_neg free

theorem gives_readWord {name : String} (h : isName name.toList = true) (apart : ∀ d ∈ rest.head?, isNameChar d = false)
    (k : Nat) {e : Expr} (meant : wordExpr? ⟨k, k + Text.byteLength name.toList⟩ name = some e) :
    Gives readWord ⟨k, name.toList ++ rest⟩ e ⟨k + Text.byteLength name.toList, rest⟩ := by
  have reads := gives_readName h apart k
  rw [String.ofList_toList] at reads
  refine .offset (.bind reads ?_)
  refine .offset ?_
  dsimp only
  rcases Option.eq_none_or_eq_some (wordValue? name) with none | ⟨v, value⟩
  · by_cases reserved : name ∈ reservedWords
    · rw [wordExpr?, none] at meant
      dsimp only at meant
      rw [if_pos reserved] at meant
      cases meant
    · rw [wordExpr?_name none reserved] at meant
      rw [none]
      dsimp only
      rw [if_neg reserved]
      exact gives_pure.mpr ⟨Option.some.inj meant, rfl⟩
  · rw [wordExpr?_value value] at meant
    rw [value]
    exact gives_pure.mpr ⟨Option.some.inj meant, rfl⟩

/-! ### Strings -/

/-- A character is written in a string: as it is, or as an escape. -/
inductive Spells (quote c : Char) : List Char → Prop
  | plain (other : c ≠ quote) (backslash : c ≠ '\\') (newline : c ≠ '\n') : Spells quote c [c]
  | escape {e : Char} (stands : escaped e = c) (plain : e ≠ 'u') : Spells quote c ['\\', e]

theorem Spells.length_pos {quote c : Char} {text : List Char} (h : Spells quote c text) : 1 ≤ text.length := by
  cases h with
  | plain | escape => exact Nat.succ_pos _

variable {quote : Char} {spell : Char → List Char}

theorem gives_readStringBody (apart : '\\' ≠ quote) {s : List Char} (spells : ∀ c ∈ s, Spells quote c (spell c)) {n : Nat}
    (enough : s.length < n) (k : Nat) : Gives (readStringBody quote n) ⟨k, s.flatMap spell ++ quote :: rest⟩ s
      ⟨k + Text.byteLength (s.flatMap spell ++ [quote]), rest⟩ := by
  induction s generalizing n k with
  | nil =>
    obtain ⟨n, rfl⟩ := Nat.exists_eq_succ_of_ne_zero (Nat.ne_of_gt enough)
    refine .current? (.skip ?_)
    rw [if_pos rfl]
    exact gives_pure.mpr ⟨rfl, rfl⟩
  | cons c s ih =>
    obtain ⟨n, rfl⟩ := Nat.exists_eq_succ_of_ne_zero (Nat.ne_of_gt (Nat.lt_of_le_of_lt (Nat.zero_le _) enough))
    obtain ⟨first, later⟩ := List.forall_mem_cons.mp spells
    have more := ih later (Nat.lt_of_succ_lt_succ enough) (k + Text.byteLength (spell c))
    rw [Nat.add_assoc, ← Text.byteLength_append, ← List.append_assoc] at more
    rw [List.flatMap_cons, List.append_assoc]
    generalize spell c = written at first more ⊢
    cases first with
    | plain other backslash newline =>
      refine .current? (.skip ?_)
      rw [if_neg other, if_neg backslash, if_neg newline]
      exact gives_bind.mpr ⟨s, _, more, gives_pure.mpr ⟨rfl, rfl⟩⟩
    | @escape e stands plain =>
      refine .current? (.skip ?_)
      rw [if_neg apart, if_pos rfl]
      refine .current? (.skip ?_)
      dsimp only
      rw [if_neg plain]
      refine .bind (gives_pure.mpr ⟨stands, rfl⟩) (gives_bind.mpr ⟨s, _, ?_, gives_pure.mpr ⟨rfl, rfl⟩⟩)
      rw [show k + Text.byteLength ['\\', e] = k + '\\'.utf8Size + e.utf8Size from (Nat.add_assoc ..).symm] at more
      exact more

/-- A string is what is written between its quotes. -/
theorem gives_readString (apart : '\\' ≠ quote) {s : List Char} (spells : ∀ c ∈ s, Spells quote c (spell c)) (k : Nat) :
    Gives (readString quote) ⟨k, quote :: (s.flatMap spell ++ quote :: rest)⟩ (String.ofList s)
      ⟨k + Text.byteLength (quote :: (s.flatMap spell ++ [quote])), rest⟩ := by
  have least : s.length ≤ (s.flatMap spell).length := by
    clear apart
    induction s with
    | nil => exact Nat.le_refl _
    | cons c r ih =>
      obtain ⟨first, later⟩ := List.forall_mem_cons.mp spells
      have one := first.length_pos
      have more := ih later
      rw [List.flatMap_cons, List.length_append, List.length_cons]
      omega
  have enough : s.length < (s.flatMap spell ++ quote :: rest).length + 1 := by
    rw [List.length_append]
    omega
  refine .skip (.rest ?_)
  refine .bind (gives_readStringBody apart spells enough _) ?_
  exact gives_pure.mpr ⟨rfl, congrArg (Cursor.mk · rest) (Nat.add_assoc ..)⟩

theorem spells_escape (c : Char) : Spells '"' c (Expr.escape c) := by
  unfold Expr.escape
  split
  · next backslash => exact .escape backslash.symm (by decide)
  · next backslash =>
    split
    · next other => exact .escape other.symm (by decide)
    · next other =>
      split
      · next newline => exact .escape newline.symm (by decide)
      · next newline => exact .plain other backslash newline

theorem gives_readString_quoted (s : String) (k : Nat) : Gives (readString '"') ⟨k, Expr.quoted s ++ rest⟩ s
    ⟨k + Text.byteLength (Expr.quoted s), rest⟩ := by
  have reads := @gives_readString rest _ _ (by decide) s.toList (fun c _ => spells_escape c) k
  rw [String.ofList_toList] at reads
  rw [Expr.quoted, List.cons_append, List.append_assoc]
  exact reads

/-! ### Numbers -/

/-- What ends a number that is printed. -/
def endsNumber (rest : List Char) : Prop := rest = [] ∨ ∃ r, rest = ')' :: r

theorem endsNumber.head {rest : List Char} (h : endsNumber rest) {p : Char → Bool} (last : p ')' = false) :
    ∀ d ∈ rest.head?, p d = false := by
  rcases h with rfl | ⟨r, rfl⟩
  · rintro _ ⟨⟩
  · rintro _ ⟨⟩
    exact last

theorem gives_readPower {power : List Char} (ends : endsNumber rest)
    (shape : power = [] ∨ ∃ letter sign ds, power = letter :: (sign ++ ds) ∧ (letter = 'e' ∨ letter = 'E') ∧
      (sign = [] ∨ sign = ['+'] ∨ sign = ['-']) ∧ ds ≠ [] ∧ ∀ d ∈ ds, d.isDigit = true) (k : Nat) :
    Gives readPower ⟨k, power ++ rest⟩ power ⟨k + Text.byteLength power, rest⟩ := by
  refine .rest ?_
  rcases shape with rfl | ⟨letter, sign, ds, rfl, isLetter, isSign, some, all⟩
  · rcases ends with rfl | ⟨r, rfl⟩ <;> exact gives_pure.mpr ⟨rfl, rfl⟩
  · obtain ⟨d, r, rfl⟩ := List.exists_cons_of_ne_nil some
    have digit := all d List.mem_cons_self
    have apart : d ≠ '+' ∧ d ≠ '-' := ⟨(by rintro rfl; cases digit), (by rintro rfl; cases digit)⟩
    have signed : powerSign (sign ++ (d :: r) ++ rest) = sign := by
      rcases isSign with rfl | rfl | rfl
      · show powerSign (d :: (r ++ rest)) = []
        unfold powerSign
        split <;> simp_all
      · rfl
      · rfl
    simp only [List.cons_append, isLetter, if_true]
    show Gives (powerFrom letter (powerSign (sign ++ (d :: r) ++ rest))
      ((sign ++ (d :: r) ++ rest).drop (powerSign (sign ++ (d :: r) ++ rest)).length)) _ _ _
    rw [signed, List.append_assoc, List.drop_left]
    show Gives (if d.isDigit = true then _ else _) _ _ _
    rw [if_pos digit]
    refine gives_bind.mpr ⟨(), ⟨k + Text.byteLength (letter :: sign), d :: r ++ rest⟩, gives_skip.mpr ?_, ?_⟩
    · rw [Nat.add_comm, ← List.cons_append]
      exact Cursor.skip_append (letter :: sign) (d :: r ++ rest) k
    · refine .bind (gives_takeWhile_append all (ends.head rfl) _) (gives_pure.mpr ⟨rfl, ?_⟩)
      rw [Nat.add_assoc, ← Text.byteLength_append]
      rfl

theorem gives_readPlaces {places power : List Char}
    (shape : places = [] ∨ ∃ ds, places = '.' :: ds ∧ ds ≠ [] ∧ ∀ d ∈ ds, d.isDigit = true)
    (later : ∀ d ∈ (power ++ rest).head?, d.isDigit = false ∧ d ≠ '.') (k : Nat) :
    Gives readPlaces ⟨k, places ++ (power ++ rest)⟩ places ⟨k + Text.byteLength places, power ++ rest⟩ := by
  refine .rest ?_
  rcases shape with rfl | ⟨ds, rfl, some, all⟩
  · dsimp only [List.nil_append]
    split
    · next here => exact ((later '.' (by rw [here]; rfl)).2 rfl).elim
    · next here => exact ((later '.' (by rw [here]; rfl)).2 rfl).elim
    · exact gives_pure.mpr ⟨rfl, rfl⟩
  · obtain ⟨d, r, rfl⟩ := List.exists_cons_of_ne_nil some
    show Gives (if d.isDigit = true then _ else _) _ _ _
    rw [if_pos (all d List.mem_cons_self)]
    refine .skip ?_
    refine .bind (gives_takeWhile_append all (fun d head => (later d head).1) _) (gives_pure.mpr ⟨rfl, ?_⟩)
    rw [Nat.add_assoc]
    rfl

theorem gives_readNumber {text : List Char} {x : Float} (decimal : Expr.IsDecimal text)
    (value : Number.readDecimal? text = some x) (ends : endsNumber rest) (k : Nat) :
    Gives readNumber ⟨k, text ++ rest⟩ x ⟨k + Text.byteLength text, rest⟩ := by
  obtain ⟨whole, places, power, rfl, ⟨some, all⟩, point, letter⟩ := decimal
  -- Each part ends where the next one starts, with a character that cannot be part of it.
  have afterPower : ∀ d ∈ (power ++ rest).head?, d.isDigit = false ∧ d ≠ '.' ∧ (d == '_') = false ∧ d ≠ 'x' ∧ d ≠ 'X' := by
    rcases letter with rfl | ⟨letter, sign, ds, rfl, isLetter, -⟩
    · rcases ends with rfl | ⟨r, rfl⟩
      · exact nofun
      · rintro _ ⟨⟩
        decide
    · rintro _ ⟨⟩
      rcases isLetter with rfl | rfl <;> decide
  have afterWhole : ∀ d ∈ (places ++ (power ++ rest)).head?, d.isDigit = false ∧ (d == '_') = false ∧ d ≠ 'x' ∧ d ≠ 'X' := by
    rcases point with rfl | ⟨ds, rfl, -⟩
    · exact fun d head => ⟨(afterPower d head).1, (afterPower d head).2.2⟩
    · rintro _ ⟨⟩
      decide
  have nohex (tail : List Char) (letter : Char) (hex : letter = 'x' ∨ letter = 'X')
      (here : whole ++ (places ++ (power ++ rest)) = '0' :: letter :: tail) : False := by
    obtain ⟨d, r, rfl⟩ := List.exists_cons_of_ne_nil some
    obtain ⟨-, here⟩ := List.cons.inj here
    cases r with
    | nil =>
      replace here : places ++ (power ++ rest) = letter :: tail := here
      have apart := afterWhole letter (by rw [here]; rfl)
      rcases hex with rfl | rfl
      · exact apart.2.2.1 rfl
      · exact apart.2.2.2 rfl
    | cons a r =>
      obtain ⟨rfl, -⟩ := List.cons.inj here
      have digit := all a (List.mem_cons_of_mem _ List.mem_cons_self)
      rcases hex with rfl | rfl <;> cases digit
  have solid (ds : List Char) (h : ∀ d ∈ ds, d.isDigit = true) : ∀ d ∈ ds, (d.isDigit || d == '_') = true :=
    fun d there => by rw [h d there]; rfl
  have plain : whole.filter (· != '_') = whole :=
    List.filter_eq_self.mpr fun d there => bne_iff_ne.mpr (by rintro rfl; cases all _ there)
  rw [List.append_assoc, List.append_assoc]
  refine .rest ?_
  split
  · next tail here => exact (nohex tail 'x' (.inl rfl) here).elim
  · next tail here => exact (nohex tail 'X' (.inr rfl) here).elim
  · refine .offset ?_
    refine gives_bind.mpr ⟨whole, _, gives_takeWhile_append (solid whole all) (fun d head => ?_) k, ?_⟩
    · rw [(afterWhole d head).1, (afterWhole d head).2.1]
      rfl
    · refine .bind (gives_readPlaces point (fun d head => ⟨(afterPower d head).1, (afterPower d head).2.1⟩) _) ?_
      refine .bind (gives_readPower ends letter _) ?_
      rw [plain, List.append_assoc, value]
      refine gives_pure.mpr ⟨rfl, ?_⟩
      rw [Text.byteLength_append, Text.byteLength_append, Nat.add_assoc, Nat.add_assoc]

end Grammar
end PromptScript
