import PromptScript.Expr.Basic
import PromptScript.Grammar.Cursor

/-! # The grammar of expressions

Reads an expression by precedence climbing, and stops at the first character that cannot go on with it. The
functions that read nested parts take a bound on the depth of the reading; `boundFor` a text is more than any
reading of it needs. -/
namespace PromptScript.Grammar

/-- An operator between two operands. -/
inductive Infix where
  | binary (op : BinaryOp)
  | logical (op : LogicalOp)
  deriving DecidableEq, Repr, Inhabited

/-- How tightly an operator binds. -/
def Infix.precedence : Infix → Nat
  | .logical .nullish => 1
  | .logical .or => 2
  | .logical .and => 3
  | .binary op => match op with
    | .bitOr => 4
    | .bitXor => 5
    | .bitAnd => 6
    | .looseEq | .looseNe | .strictEq | .strictNe => 7
    | .lt | .le | .gt | .ge | .member => 8
    | .shl | .shr | .ushr => 9
    | .add | .sub => 10
    | .mul | .div | .rem => 11
    | .pow => 12

/-- The precedence that an operator in the right operand has to exceed: `**` groups from the right. -/
def Infix.rightBound (op : Infix) : Nat :=
  if op = .binary .pow then op.precedence - 1 else op.precedence

/-- The expression of an operator and its operands. -/
def Infix.apply (op : Infix) (left right : Expr) : Expr :=
  let span := left.span.hull right.span
  match op with
  | .binary op => .binary span op left right
  | .logical op => .logical span op left right

/-- The symbols between operands, longer ones first. -/
def infixSymbols : List (String × Infix) :=
  [(">>>", .binary .ushr), ("===", .binary .strictEq), ("!==", .binary .strictNe),
    ("**", .binary .pow), ("==", .binary .looseEq), ("!=", .binary .looseNe), ("<=", .binary .le),
    (">=", .binary .ge), ("<<", .binary .shl), (">>", .binary .shr), ("&&", .logical .and),
    ("||", .logical .or), ("??", .logical .nullish), ("+", .binary .add), ("-", .binary .sub),
    ("*", .binary .mul), ("/", .binary .div), ("%", .binary .rem), ("<", .binary .lt),
    (">", .binary .gt), ("&", .binary .bitAnd), ("|", .binary .bitOr), ("^", .binary .bitXor)]

/-- The symbols of assignments that combine, longer ones first. -/
def assignSymbols : List (String × AssignOp) :=
  [(">>>=", .binary .ushr), ("**=", .binary .pow), ("<<=", .binary .shl), (">>=", .binary .shr),
    ("&&=", .logical .and), ("||=", .logical .or), ("??=", .logical .nullish), ("+=", .binary .add),
    ("-=", .binary .sub), ("*=", .binary .mul), ("/=", .binary .div), ("%=", .binary .rem),
    ("&=", .binary .bitAnd), ("|=", .binary .bitOr), ("^=", .binary .bitXor)]

/-- The first symbol of a table that a text starts with. -/
def symbolAt? {α : Type} (table : List (String × α)) (text : List Char) : Option (String × α) :=
  table.find? fun entry => Text.startsWith entry.1.toList text

/-- The infix operator that a text starts with; the symbol of an assignment is none. -/
def infixAt? (text : List Char) : Option (String × Infix) :=
  if startsWithWord "in" text then some ("in", .binary .member)
  else if (symbolAt? assignSymbols text).isSome then none
  else symbolAt? infixSymbols text

/-- The assignment operator that a text starts with; `==` and `=>` are none. -/
def assignAt? (text : List Char) : Option (String × AssignOp) :=
  match symbolAt? assignSymbols text with
  | some found => some found
  | none =>
    match text with
    | '=' :: '=' :: _ => none
    | '=' :: '>' :: _ => none
    | '=' :: _ => some ("=", .assign)
    | _ => none

/-- The operator in front of an operand that a text starts with. -/
def unaryAt? (text : List Char) : Option (String × UnaryOp) :=
  match text with
  | '!' :: _ => some ("!", .not)
  | '-' :: _ => some ("-", .minus)
  | '+' :: _ => some ("+", .plus)
  | '~' :: _ => some ("~", .bitNot)
  | text =>
    if startsWithWord "typeof" text then some ("typeof", .typeOf)
    else if startsWithWord "void" text then some ("void", .void)
    else none

/-- The update operator that a text starts with. -/
def updateAt? (text : List Char) : Option UpdateOp :=
  match text with
  | '+' :: '+' :: _ => some .increment
  | '-' :: '-' :: _ => some .decrement
  | _ => none

/-- Variables and members that are not optional can be updated. -/
def checkUpdateTarget (target : Expr) : Reading Unit :=
  match target with
  | .identifier _ _ => return ()
  | .member _ _ _ false => return ()
  | target => failAt (.syntaxFault "Invalid left-hand side expression in update operation") target.span

/-- Variables and members that are not optional can be assigned. -/
def checkAssignTarget (target : Expr) : Reading Unit :=
  match target with
  | .identifier _ _ => return ()
  | .member _ _ _ false => return ()
  | .chain span _ =>
    failAt (.syntaxFault "Invalid left-hand side in assignment: optional chains cannot be assigned") span
  | target => failAt (.syntaxFault "Invalid left-hand side in assignment") target.span

/-! ## Literals -/

/-- Reads the four bytes of a unicode escape: hexadecimal digits, after an optional plus sign. -/
def readUnicodeEscape : Reading Char := do
  let four := Text.takeBytes 4 (← rest)
  let digits := match four with
    | '+' :: r => r
    | r => r
  match Number.readHex? digits with
  | none => failHere "Invalid unicode escape"
  | some code =>
    if Text.byteLength four ≠ 4 then failHere "Invalid unicode escape"
    else
      skip four.length
      if code < 0xD800 ∨ 0xE000 ≤ code then return Char.ofNat code
      else failHere "Invalid unicode escape"

/-- The character that an escape stands for, by the character after the backslash. -/
def escaped (c : Char) : Char :=
  match c with
  | 'n' => '\n'
  | 'r' => '\r'
  | 't' => '\t'
  | 'b' => Char.ofNat 8
  | 'f' => Char.ofNat 12
  | 'v' => Char.ofNat 11
  | '0' => Char.ofNat 0
  | c => c

/-- Reads the rest of a string up to its closing quote. A string may not hold a bare newline. -/
def readStringBody (quote : Char) : Nat → Reading (List Char)
  | 0 => failEnd
  | fuel + 1 => do
    match ← current? with
    | none => failEnd
    | some c =>
      skip 1
      if c = quote then return []
      else if c = '\\' then
        match ← current? with
        | none => failEnd
        | some e =>
          skip 1
          let value ← if e = 'u' then readUnicodeEscape else pure (escaped e)
          return value :: (← readStringBody quote fuel)
      else if c = '\n' then failHere "Unterminated string literal"
      else return c :: (← readStringBody quote fuel)

/-- Reads a string that starts at the cursor. -/
def readString (quote : Char) : Reading String := do
  skip 1
  return String.ofList (← readStringBody quote ((← rest).length + 1))

/-- Reads hexadecimal digits as a number below `2 ^ 63`. -/
def readHexLiteral : Reading Float := do
  skip 2
  let digits ← takeWhile fun c => (Number.hexValue? c).isSome
  match Number.readHex? digits with
  | some n => if n < Nat.pow 2 63 then return Number.ofInt n else failHere "Invalid hexadecimal literal"
  | none => failHere "Invalid hexadecimal literal"

/-- Reads the point of a number and the digits after it. A point without digits belongs to the number unless
a name follows. -/
def readPlaces : Reading (List Char) := do
  match ← rest with
  | '.' :: c :: _ =>
    if c.isDigit then
      skip 1
      return '.' :: (← takeWhile Char.isDigit)
    -- In `1.name` the point opens a member.
    else if isNameStart c then return []
    else
      skip 1
      return ['.']
  | ['.'] =>
    skip 1
    return ['.']
  | _ => return []

/-- Reads the exponent of a number, if digits follow. -/
def readPower : Reading (List Char) := do
  match ← rest with
  | e :: r =>
    -- Without digits the letter is no part of the number.
    if e = 'e' ∨ e = 'E' then
      let sign := match r with
        | '+' :: _ => ['+']
        | '-' :: _ => ['-']
        | _ => []
      match r.drop sign.length with
      | d :: _ =>
        if d.isDigit then
          skip (1 + sign.length)
          return e :: (sign ++ (← takeWhile Char.isDigit))
        else return []
      | [] => return []
    else return []
  | [] => return []

/-- Reads a number. Underscores may stand between the digits of its whole part. -/
def readNumber : Reading Float := do
  match ← rest with
  | '0' :: 'x' :: _ => readHexLiteral
  | '0' :: 'X' :: _ => readHexLiteral
  | _ =>
    let start ← offset
    let whole ← takeWhile fun c => c.isDigit || c == '_'
    let places ← readPlaces
    let power ← readPower
    match Number.readDecimal? (whole.filter (· != '_') ++ places ++ power) with
    | some x => return x
    | none => failAt (.syntaxFault "Invalid number literal") ⟨start, ← offset⟩

/-- Words that are no names of variables. -/
def reservedWords : List String := ["typeof", "void", "in"]

/-- The value that a word is a literal of. -/
def wordValue? (word : String) : Option Value :=
  match word with
  | "true" => some (.bool true)
  | "false" => some (.bool false)
  | "null" => some .null
  | "undefined" => some .undefined
  | _ => none

/-- Reads a variable, or a word that stands for a value. -/
def readWord : Reading Expr := do
  let start ← offset
  let word ← readName
  let span := Span.mk start (← offset)
  match wordValue? word with
  | some v => return .literal span v
  | none =>
    if word ∈ reservedWords then failAt (.syntaxFault ("Unexpected keyword '" ++ word ++ "'")) span
    else return .identifier span word

/-! ## Compound expressions -/

/-- A bound on the depth of the reading of a text. -/
def boundFor (text : List Char) : Nat := 16 * (text.length + 1)

mutual

/-- Reads expressions between commas. -/
def readSequence : Nat → Reading Expr
  | 0 => failEnd
  | fuel + 1 => do
    let first ← readAssignment fuel
    skipSpaces
    if (← current?) = some ',' then
      let more ← readMore fuel
      return .sequence ⟨first.span.start, ← offset⟩ (first :: more)
    else return first

/-- Reads further expressions, each after a comma. -/
def readMore : Nat → Reading (List Expr)
  | 0 => failEnd
  | fuel + 1 => do
    if (← current?) = some ',' then
      skip 1
      let e ← readAssignment fuel
      skipSpaces
      return e :: (← readMore fuel)
    else return []

/-- Reads a conditional, or the assignment of a value to one. -/
def readAssignment : Nat → Reading Expr
  | 0 => failEnd
  | fuel + 1 => do
    let target ← readConditional fuel
    skipSpaces
    match assignAt? (← rest) with
    | none => return target
    | some (symbol, op) =>
      skip symbol.length
      checkAssignTarget target
      let value ← readAssignment fuel
      return .assignment (target.span.hull value.span) op target value

/-- Reads an operation, or a choice between two expressions by one. -/
def readConditional : Nat → Reading Expr
  | 0 => failEnd
  | fuel + 1 => do
    let test ← readOperation fuel 0
    skipSpaces
    match ← rest with
    -- `??` is an operator, and `?.` is no mark of a choice even where no link follows.
    | '?' :: '?' :: _ => return test
    | '?' :: '.' :: _ => return test
    | '?' :: _ =>
      skip 1
      let consequent ← readAssignment fuel
      skipSpaces
      expect ':'
      let alternate ← readAssignment fuel
      return .conditional (test.span.hull alternate.span) test consequent alternate
    | _ => return test

/-- Reads an operand and the operators after it that bind tighter than `least`. -/
def readOperation : Nat → Nat → Reading Expr
  | 0, _ => failEnd
  | fuel + 1, least => do
    let left ← readUnary fuel
    readOperators fuel least left

/-- Reads the operators after a left operand that bind tighter than `least`. -/
def readOperators : Nat → Nat → Expr → Reading Expr
  | 0, _, _ => failEnd
  | fuel + 1, least, left => do
    skipSpaces
    match infixAt? (← rest) with
    | none => return left
    | some (symbol, op) =>
      if op.precedence ≤ least then return left
      else
        skip symbol.length
        -- The right operand takes all operators that bind tighter than this one.
        let right ← readOperation fuel op.rightBound
        readOperators fuel least (op.apply left right)

/-- Reads an operand with the operators in front of it. -/
def readUnary : Nat → Reading Expr
  | 0 => failEnd
  | fuel + 1 => do
    skipSpaces
    let start ← offset
    let text ← rest
    match updateAt? text with
    | some op =>
      skip 2
      let argument ← readUnary fuel
      checkUpdateTarget argument
      return .update ⟨start, argument.span.stop⟩ op true argument
    | none =>
      match unaryAt? text with
      | some (symbol, op) =>
        skip symbol.length
        let argument ← readUnary fuel
        return .unary ⟨start, argument.span.stop⟩ op argument
      | none => readPostfix fuel

/-- Reads a chain of members and calls, and an update operator after it. -/
def readPostfix : Nat → Reading Expr
  | 0 => failEnd
  | fuel + 1 => do
    let first ← readPrimary fuel
    let argument ← readLinks fuel first.span.start false first
    match updateAt? (← rest) with
    | some op =>
      checkUpdateTarget argument
      skip 2
      return .update ⟨argument.span.start, ← offset⟩ op false argument
    | none => return argument

/-- Reads the members and calls after an expression that starts at an offset; `optional` tells whether an
optional one has been met. -/
def readLinks : Nat → Nat → Bool → Expr → Reading Expr
  | 0, _, _, _ => failEnd
  | fuel + 1, start, optional, e => do
    skipSpaces
    let text ← rest
    if Text.startsWith ['?', '.'] text && !((text.drop 2).head?.any Char.isDigit) then
      skip 2
      skipSpaces
      match ← current? with
      | some '(' =>
        let arguments ← readArguments fuel
        readLinks fuel start true (.call ⟨start, ← offset⟩ e arguments true)
      | some '[' =>
        let key ← readComputed fuel
        readLinks fuel start true (.member ⟨start, ← offset⟩ e (.computed key) true)
      | _ =>
        let name ← readName
        readLinks fuel start true (.member ⟨start, ← offset⟩ e (.named name) true)
    else
      match text with
      | '.' :: '.' :: _ => return finish optional e
      | '.' :: _ =>
        skip 1
        skipSpaces
        let name ← readName
        readLinks fuel start optional (.member ⟨start, ← offset⟩ e (.named name) false)
      | '[' :: _ =>
        let key ← readComputed fuel
        readLinks fuel start optional (.member ⟨start, ← offset⟩ e (.computed key) false)
      | '(' :: _ =>
        let arguments ← readArguments fuel
        readLinks fuel start optional (.call ⟨start, ← offset⟩ e arguments false)
      | _ => return finish optional e
where
  /-- A run of links with an optional one among them is a chain. -/
  finish (optional : Bool) (e : Expr) : Expr := if optional then .chain e.span e else e

/-- Reads a key between brackets. -/
def readComputed : Nat → Reading Expr
  | 0 => failEnd
  | fuel + 1 => do
    expect '['
    let key ← readSequence fuel
    skipSpaces
    expect ']'
    return key

/-- Reads the arguments of a call between parentheses. -/
def readArguments : Nat → Reading (List Expr)
  | 0 => failEnd
  | fuel + 1 => do
    expect '('
    readItems fuel ')' "Expected ',' or ')' in argument list"

/-- Reads expressions up to a closing character, with a comma between them and perhaps one at the end. -/
def readItems : Nat → Char → String → Reading (List Expr)
  | 0, _, _ => failEnd
  | fuel + 1, close, message => do
    skipSpaces
    if (← current?) = some close then
      skip 1
      return []
    else
      let e ← readAssignment fuel
      skipSpaces
      match ← current? with
      | none => failEnd
      | some c =>
        if c = ',' then skip 1
        else if c ≠ close then failHere message
        return e :: (← readItems fuel close message)

/-- Reads an expression without operators. An expression between parentheses keeps its own span. -/
def readPrimary : Nat → Reading Expr
  | 0 => failEnd
  | fuel + 1 => do
    skipSpaces
    let start ← offset
    match ← rest with
    | [] => failEnd
    | c :: r =>
      if c.isDigit || (c == '.' && r.head?.any Char.isDigit) then
        let x ← readNumber
        return .literal ⟨start, ← offset⟩ (.number x)
      else if c = '"' ∨ c = '\'' then
        let s ← readString c
        return .literal ⟨start, ← offset⟩ (.string s)
      else if c = '(' then
        skip 1
        let inner ← readSequence fuel
        skipSpaces
        expect ')'
        return inner
      else if c = '[' then
        skip 1
        let items ← readItems fuel ']' "Expected ',' or ']' in array literal"
        return .array ⟨start, ← offset⟩ items
      else if c = '\x7b' then
        skip 1
        let fields ← readFields fuel
        return .object ⟨start, ← offset⟩ fields
      else if isNameStart c then readWord
      else failHere ("Unexpected token '" ++ String.ofList [c] ++ "'")

/-- Reads the fields of an object up to the closing brace. A name without a value stands for the variable of
that name. -/
def readFields : Nat → Reading (List (Key × Expr))
  | 0 => failEnd
  | fuel + 1 => do
    skipSpaces
    let start ← offset
    let text ← rest
    if text.head? = some '\x7d' then
      skip 1
      return []
    else
      let key ← readKey fuel
      let keySpan := Span.mk start (← offset)
      let written := Text.takeBytes (keySpan.stop - keySpan.start) text
      skipSpaces
      let value ← (do
        if (← current?) = some ':' then
          skip 1
          readAssignment fuel
        else
          match key with
          -- A string or a number as the key needs a value, also where its text is a name.
          | .named name =>
            if written = name.toList then return .identifier keySpan name
            else failHere "Expected ':' after property key"
          | .computed _ => failHere "Expected ':' after property key")
      skipSpaces
      match ← current? with
      | none => failEnd
      | some c =>
        if c = ',' then skip 1
        else if c ≠ '\x7d' then failHere "Expected ',' or '\x7d' in object literal"
        return (key, value) :: (← readFields fuel)

/-- Reads the key of a field: an expression between brackets, a string, a number or a name. -/
def readKey : Nat → Reading Key
  | 0 => failEnd
  | fuel + 1 => do
    match ← current? with
    | none => failEnd
    | some c =>
      if c = '[' then
        skip 1
        let key ← readAssignment fuel
        skipSpaces
        expect ']'
        return .computed key
      else if c = '"' ∨ c = '\'' then return .named (← readString c)
      else if c.isDigit then return .named (Number.format (← readNumber))
      else return .named (← readName)

end

/-- Reads an expression at the cursor. -/
def readExpr : Reading Expr := do readSequence (boundFor (← rest))

/-- Reads a source that is one expression. -/
def readWhole : Reading Expr := do
  let e ← readExpr
  skipSpaces
  if (← rest) = [] then return e
  else failHere "Unexpected token after expression"

end Grammar

/-- Reads a text that is one expression. -/
def Expr.parse (source : List Char) : Except Diagnostic Expr :=
  match Grammar.readWhole.run (.start source) with
  | .ok (e, _) => .ok e
  | .error fault => .error (Diagnostic.of source fault)

end PromptScript
