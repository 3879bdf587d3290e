import PromptScript.Number.Reading

/-! # The tokens of a YAML text

Cuts a text into the marks and scalars of YAML. Indentation is turned into tokens that open and close blocks.
What stands before a `:` is known to be a key only once the `:` is met, so the scanner remembers where a key
may start and puts the token for it there afterwards. A text that has no tokens is `none`. -/
namespace PromptScript.Yaml

/-- How a scalar is written: bare, or with quotes or as a block. -/
inductive Style where
  | plain | quoted
  deriving DecidableEq, Repr, Inhabited

inductive Token where
  | documentStart
  | documentEnd
  | streamEnd
  | blockSequenceStart
  | blockMappingStart
  | blockEnd
  | flowSequenceStart
  | flowSequenceEnd
  | flowMappingStart
  | flowMappingEnd
  | blockEntry
  | flowEntry
  | key
  | value
  | alias (name : String)
  | anchor (name : String)
  /-- The handle and the rest of a tag; a tag in angle brackets has no handle. -/
  | tag (handle suffix : String)
  | scalar (style : Style) (text : String)
  deriving DecidableEq, Repr, Inhabited

/-- A place where a key may start. -/
structure KeyPlace where
  /-- A key has to start here. -/
  required : Bool
  /-- How many tokens come before it. -/
  tokens : Nat
  index : Nat
  line : Nat
  column : Nat
  deriving Inhabited, Repr

/-- A place in the text, the tokens before it, and what they leave open. -/
structure Scanner where
  rest : List Char
  index : Nat
  line : Nat
  column : Nat
  tokens : Array Token
  /-- The column of the innermost open block, or -1. -/
  indent : Int
  /-- The columns of the blocks around it. -/
  outer : List Int
  /-- Whether a key may start here. -/
  keyAllowed : Bool
  /-- Where a key may start in each open flow collection, the innermost first; the last is that of the
  blocks. -/
  keys : List (Option KeyPlace)
  deriving Inhabited

abbrev Scan := StateT Scanner Option

/-! ## Characters -/

/-- Line breaks: carriage return, newline, and the three of Unicode. -/
def isBreak (c : Char) : Bool :=
  c == '\n' || c == '\r' || c.toNat == 0x85 || c.toNat == 0x2028 || c.toNat == 0x2029

/-- A blank within a line. -/
def isBlank (c : Char) : Bool := c == ' ' || c == '\t'

/-- Whether the text ends here or goes on with a blank or a line break. -/
def atGap : List Char → Bool
  | [] => true
  | c :: _ => isBlank c || isBreak c

/-- Characters of the names of anchors and of the handles of tags. -/
def isWordChar (c : Char) : Bool := c.isAlphanum || c == '-' || c == '_'

/-- Characters that may stand in a text at all. -/
def isAllowed (c : Char) : Bool :=
  let n := c.toNat
  n == 9 || n == 10 || n == 13 || (0x20 ≤ n && n ≤ 0x7E) || n == 0x85 ||
    (0xA0 ≤ n && n ≤ 0xFFFD) || 0x10000 ≤ n

/-- Whether a text starts with three times the character `c`, and nothing is attached to them. -/
def startsWithMark (c : Char) (text : List Char) : Bool :=
  Text.startsWith [c, c, c] text && atGap (text.drop 3)

/-! ## Moving -/

def rest : Scan (List Char) := return (← get).rest

/-- Fails. -/
def refuse {α : Type} : Scan α := fun _ => none

/-- The scanner after one character that is no line break. -/
def Scanner.step (s : Scanner) : Scanner :=
  { s with rest := s.rest.drop 1, index := s.index + 1, column := s.column + 1 }

/-- Moves over `n` characters that are no line breaks. -/
def skip : Nat → Scan Unit
  | 0 => return ()
  | n + 1 => do
    modify Scanner.step
    skip n

/-- Moves over the characters of this line that satisfy `p`, and gives them. -/
def takeWhile (p : Char → Bool) : Scan (List Char) := do
  let taken := (← rest).takeWhile p
  skip taken.length
  return taken

/-- Moves over a line break, if there is one here, and gives the break that it stands for. -/
def takeBreak : Scan (List Char) := do
  let s ← get
  let newLine := fun (n : Nat) (r : List Char) =>
    { s with rest := r, index := s.index + n, line := s.line + 1, column := 0 }
  match s.rest with
  | '\r' :: '\n' :: r =>
    set (newLine 2 r)
    return ['\n']
  | c :: r =>
    if isBreak c then
      set (newLine 1 r)
      return [if c.toNat == 0x2028 || c.toNat == 0x2029 then c else '\n']
    else return []
  | [] => return []

/-- How many flow collections are open. -/
def flowLevel : Scan Nat := return (← get).keys.length - 1

/-! ## Tokens and blocks -/

/-- Adds a token at the end. -/
def emit (t : Token) : Scan Unit := modify fun s => { s with tokens := s.tokens.push t }

/-- Puts a token after the first `n`. -/
def insertToken (n : Nat) (t : Token) : Scan Unit := modify fun s =>
  { s with tokens := (s.tokens.extract 0 n).push t ++ s.tokens.extract n s.tokens.size }

/-- Opens a block at a column, if it lies further in than the block it is in. -/
def openBlock (column : Nat) (tokens : Nat) (t : Token) : Scan Unit := do
  if (← flowLevel) = 0 ∧ (← get).indent < column then
    modify fun s => { s with outer := s.indent :: s.outer, indent := column }
    insertToken tokens t

/-- Closes the blocks that lie further in than a column. -/
def closeBlocks (column : Int) : Scan Unit := do
  if (← flowLevel) = 0 then
    modify fun s => go s s.outer
where
  /-- Closes the innermost block, and those around it in turn. -/
  go (s : Scanner) : List Int → Scanner
    | [] => s
    | i :: r =>
      if column < s.indent then go { s with tokens := s.tokens.push .blockEnd, indent := i, outer := r } r
      else s

/-- Forgets the place where a key might have started. A key that had to start there is missing. -/
def dropKey : Scan Unit := do
  match (← get).keys with
  | some k :: r => if k.required then refuse else modify fun s => { s with keys := none :: r }
  | _ => return ()

/-- Remembers that a key may start here. -/
def markKey : Scan Unit := do
  let s ← get
  if s.keyAllowed then
    dropKey
    let required := (← flowLevel) = 0 && s.indent == s.column
    modify fun s =>
      { s with keys := some ⟨required, s.tokens.size, s.index, s.line, s.column⟩ :: s.keys.drop 1 }

/-- Keys lie on one line and are at most 1024 characters long: forgets the places that are too far back. -/
def dropStaleKeys : Scan Unit := do
  let s ← get
  let stale := fun (k : KeyPlace) => k.line < s.line || k.index + 1024 < s.index
  if s.keys.any fun key => key.any fun k => stale k && k.required then refuse
  else set { s with keys := s.keys.map fun (key : Option KeyPlace) => key.filter fun k => !stale k }

def allowKey (b : Bool) : Scan Unit := modify fun s => { s with keyAllowed := b }

/-- A mark that may stand before the text. -/
def byteOrderMark : Char := Char.ofNat 0xFEFF

/-- Moves over blanks, comments and line breaks up to the next token. -/
def skipToToken : Nat → Scan Unit
  | 0 => return ()
  | fuel + 1 => do
    let s ← get
    if s.index = 0 ∧ s.rest.head? = some byteOrderMark then skip 1
    let tabs := 0 < (← flowLevel) || !s.keyAllowed
    let _ ← takeWhile fun c => c == ' ' || (tabs && c == '\t')
    if (← rest).head? = some '#' then
      let _ ← takeWhile fun c => !isBreak c
    match ← takeBreak with
    | [] => return ()
    | _ =>
      if (← flowLevel) = 0 then allowKey true
      skipToToken fuel

/-! ## Scalars -/

/-- Blanks and line breaks within a scalar: the blanks before the first break, the first break, and the
further ones. -/
structure Gap where
  blanks : List Char := []
  broken : Bool := false
  first : List Char := []
  more : List Char := []

/-- The text that a gap stands for: a single break is a blank, of several the first is left out. -/
def Gap.fold (g : Gap) : List Char :=
  if !g.broken then g.blanks
  else if g.first = ['\n'] then (if g.more = [] then [' '] else g.more)
  else g.first ++ g.more

/-- Moves over blanks and line breaks. Where `least` is given, tabs are refused before that column of a later
line. -/
def takeGap (least : Option Int) : Nat → Gap → Scan Gap
  | 0, g => return g
  | fuel + 1, g => do
    let s ← get
    match s.rest with
    | c :: _ =>
      if isBlank c then
        if g.broken && c == '\t' && least.any ((s.column : Int) < ·) then refuse
        else
          skip 1
          takeGap least fuel (if g.broken then g else { g with blanks := g.blanks ++ [c] })
      else if isBreak c then
        let b ← takeBreak
        takeGap least fuel
          (if g.broken then { g with more := g.more ++ b } else { g with broken := true, first := b })
      else return g
    | [] => return g

/-- The character that a one-letter escape of a double-quoted scalar stands for. -/
def escapeOf? (c : Char) : Option Char :=
  match c with
  | '0' => some (Char.ofNat 0)
  | 'a' => some (Char.ofNat 7)
  | 'b' => some (Char.ofNat 8)
  | 't' => some '\t'
  | '\t' => some '\t'
  | 'n' => some '\n'
  | 'v' => some (Char.ofNat 11)
  | 'f' => some (Char.ofNat 12)
  | 'r' => some '\r'
  | 'e' => some (Char.ofNat 27)
  | ' ' => some ' '
  | '"' => some '"'
  | '/' => some '/'
  | '\\' => some '\\'
  | 'N' => some (Char.ofNat 0x85)
  | '_' => some (Char.ofNat 0xA0)
  | 'L' => some (Char.ofNat 0x2028)
  | 'P' => some (Char.ofNat 0x2029)
  | _ => none

/-- The number of hexadecimal digits of an escape. -/
def escapeDigits (c : Char) : Nat :=
  match c with
  | 'x' => 2
  | 'u' => 4
  | 'U' => 8
  | _ => 0

/-- Reads an escape after its backslash. -/
def takeEscape : Scan Char := do
  match ← rest with
  | [] => refuse
  | c :: r =>
    match escapeOf? c with
    | some e =>
      skip 1
      return e
    | none =>
      let n := escapeDigits c
      match Number.readHex? (r.take n) with
      | some code =>
        if n = 0 ∨ (r.take n).length < n then refuse
        else if (0xD800 ≤ code ∧ code ≤ 0xDFFF) ∨ 0x10FFFF < code then refuse
        else
          skip (n + 1)
          return Char.ofNat code
      | none => refuse

/-- Reads the characters of a quoted scalar up to a blank, a line break or the closing quote; `true` if an
escaped line break ended them. -/
def takeQuotedRun (single : Bool) : Nat → Scan (List Char × Bool)
  | 0 => return ([], false)
  | fuel + 1 => do
    match ← rest with
    | [] => return ([], false)
    | c :: r =>
      if isBlank c || isBreak c then return ([], false)
      else if single && c == '\'' then
        match r with
        | '\'' :: _ =>
          skip 2
          let (more, b) ← takeQuotedRun single fuel
          return ('\'' :: more, b)
        | _ => return ([], false)
      else if !single && c == '"' then return ([], false)
      else if !single && c == '\\' then
        if r.head?.any isBreak then
          skip 1
          let _ ← takeBreak
          return ([], true)
        else
          skip 1
          let e ← takeEscape
          let (more, b) ← takeQuotedRun single fuel
          return (e :: more, b)
      else
        skip 1
        let (more, b) ← takeQuotedRun single fuel
        return (c :: more, b)

/-- Reads a quoted scalar after its opening quote. -/
def takeQuoted (single : Bool) : Nat → Scan (List Char)
  | 0 => refuse
  | fuel + 1 => do
    let s ← get
    if s.column = 0 ∧ (startsWithMark '-' s.rest || startsWithMark '.' s.rest) then refuse
    else if s.rest = [] then refuse
    else
      let (run, escaped) ← takeQuotedRun single (s.rest.length + 1)
      match ← rest with
      | c :: _ =>
        if c = (if single then '\'' else '"') then
          skip 1
          return run
        else
          let gap ← takeGap none (s.rest.length + 1) { broken := escaped }
          return run ++ gap.fold ++ (← takeQuoted single fuel)
      | [] => refuse

/-- Whether a bare scalar ends at a character with something after it. -/
def endsPlain (flow : Bool) (c : Char) (after : List Char) : Bool :=
  (c == ':' && atGap after) || (flow && [',', '[', ']', '\x7b', '\x7d'].contains c)

/-- Reads the characters of a bare scalar up to a blank or a line break. -/
def takePlainRun (flow : Bool) : Nat → Scan (List Char)
  | 0 => return []
  | fuel + 1 => do
    match ← rest with
    | [] => return []
    | c :: r =>
      if isBlank c || isBreak c then return []
      else if flow && c == ':' && r.head?.any [',', '?', '[', ']', '\x7b', '\x7d'].contains then refuse
      else if endsPlain flow c r then return []
      else
        skip 1
        return c :: (← takePlainRun flow fuel)

/-- Reads a bare scalar. `gap` is what came between the text so far and here. -/
def takePlain (flow : Bool) (indent : Int) : Nat → Gap → Scan (List Char)
  | 0, _ => return []
  | fuel + 1, gap => do
    let s ← get
    let atMark := s.column = 0 ∧ (startsWithMark '-' s.rest || startsWithMark '.' s.rest)
    if atMark ∨ s.rest.head? = some '#' then
      if gap.broken then allowKey true
      return []
    else
      let run ← takePlainRun flow (s.rest.length + 1)
      let text := if run = [] then [] else gap.fold ++ run
      let gap := if run = [] then gap else {}
      if atGap (← rest) && (← rest) != [] then
        let gap ← takeGap (some indent) (s.rest.length + 1) gap
        if !flow && ((← get).column : Int) < indent then
          if gap.broken then allowKey true
          return text
        else return text ++ (← takePlain flow indent fuel gap)
      else
        if gap.broken then allowKey true
        return text

/-- Moves over the blanks that indent a block scalar and over the lines of nothing else. Without an
indentation yet, it is found: that of the first line with text, or of the widest line before it. -/
def takeIndent (indent : Option Nat) : Nat → Nat → List Char → Scan (Nat × List Char)
  | 0, widest, breaks => return (indent.getD widest, breaks)
  | fuel + 1, widest, breaks => do
    let start ← get
    let room := match indent with
      | some n => n - start.column
      | none => start.rest.length
    skip ((start.rest.take room).takeWhile (· == ' ')).length
    let s ← get
    let widest := max widest s.column
    let short := indent.all (s.column < ·)
    if short && s.rest.head? == some '\t' then refuse
    else
      match ← takeBreak with
      | [] => return (indent.getD (max (max widest (s.indent + 1).toNat) 1), breaks)
      | b => takeIndent indent fuel widest (breaks ++ b)

/-- Reads the lines of a block scalar. `lead` is the break after the line before, `breaks` the empty lines
since, `spaced` tells whether that line started with a blank. Gives the text, and the breaks after it. -/
def takeBlockLines (literal : Bool) (indent : Nat) : Nat → List Char → List Char → Bool →
    Scan (List Char × List Char × List Char)
  | 0, lead, breaks, _ => return ([], lead, breaks)
  | fuel + 1, lead, breaks, spaced => do
    let s ← get
    if s.column = indent ∧ s.rest ≠ [] then
      let blank := s.rest.head?.any isBlank
      -- In a folded text a break becomes a blank, but those beside an indented line stay.
      let joint :=
        if !literal && lead == ['\n'] && !spaced && !blank then (if breaks = [] then [' '] else [])
        else lead
      let line ← takeWhile fun c => !isBreak c
      let next ← takeBreak
      let (_, more) ← takeIndent (some indent) (s.rest.length + 1) 0 []
      let (text, lead', breaks') ← takeBlockLines literal indent fuel next more blank
      return (joint ++ breaks ++ line ++ text, lead', breaks')
    else return ([], lead, breaks)

/-- What happens to the breaks at the end of a block scalar. -/
inductive Chomp where
  | strip | clip | keep
  deriving DecidableEq, Repr, Inhabited

/-- Reads the marks after the sign of a block scalar: how its end is treated, and its indentation. -/
def blockHead : List Char → Option (Chomp × Option Nat × Nat)
  | cs =>
    let chomp? := fun (c : Char) => if c = '+' then some Chomp.keep else if c = '-' then some .strip else none
    let digit? := fun (c : Char) =>
      if c.isDigit then some (c.toNat - '0'.toNat) else none
    match cs with
    | a :: b :: _ =>
      match chomp? a, digit? a with
      | some m, _ =>
        match digit? b with
        | some 0 => none
        | some n => some (m, some n, 2)
        | none => some (m, none, 1)
      | _, some 0 => none
      | _, some n => some ((chomp? b).getD .clip, some n, if (chomp? b).isSome then 2 else 1)
      | _, _ => some (.clip, none, 0)
    | [a] =>
      match chomp? a, digit? a with
      | some m, _ => some (m, none, 1)
      | _, some 0 => none
      | _, some n => some (.clip, some n, 1)
      | _, _ => some (.clip, none, 0)
    | [] => some (.clip, none, 0)

/-- Reads a block scalar after its sign. -/
def takeBlock (literal : Bool) : Scan (List Char) := do
  match blockHead (← rest) with
  | none => refuse
  | some (chomp, increment, length) =>
    skip length
    let _ ← takeWhile isBlank
    if (← rest).head? = some '#' then
      let _ ← takeWhile fun c => !isBreak c
    if !((← rest).head?.all isBreak) then refuse
    else
      let _ ← takeBreak
      let s ← get
      let given := increment.map fun n => (if 0 ≤ s.indent then s.indent.toNat + n else n)
      let bound := s.rest.length + 1
      let (indent, breaks) ← takeIndent given bound 0 []
      let (text, lead, more) ← takeBlockLines literal indent bound [] breaks false
      return text ++ (if chomp = .strip then [] else lead) ++ (if chomp = .keep then more else [])

/-! ## Tags and anchors -/

/-- Reads the name of an anchor or an alias after its sign. -/
def takeName : Scan String := do
  let name ← takeWhile isWordChar
  let after ← rest
  if name = [] then refuse
  else if atGap after || after.head?.any ['?', ':', ',', ']', '\x7d', '%', '@', Char.ofNat 0x60].contains then
    return String.ofList name
  else refuse

/-- Characters of the rest of a tag. Those that end an item of a flow collection belong only to tags in angle
brackets. -/
def isTagChar (bracketed : Bool) (c : Char) : Bool :=
  isWordChar c || [';', '/', '?', ':', '@', '&', '=', '+', '$', '.', '!', '~', '*', '\'', '(', ')', '%'].contains c
    || (bracketed && [',', '[', ']'].contains c)

/-- Reads a tag. -/
def takeTag : Scan Token := do
  let flow ← flowLevel
  let finish := fun (t : Token) => (do
    let after ← rest
    if atGap after || (0 < flow && after.head? == some ',') then return t else refuse : Scan Token)
  match ← rest with
  | '!' :: '<' :: _ =>
    skip 2
    let uri ← takeWhile (isTagChar true)
    match ← rest with
    | '>' :: _ =>
      skip 1
      if uri = [] then refuse else finish (.tag "" (String.ofList uri))
    | _ => refuse
  | _ =>
    skip 1
    let word ← takeWhile isWordChar
    match ← rest with
    | '!' :: _ =>
      skip 1
      let suffix ← takeWhile (isTagChar false)
      if suffix = [] then refuse
      else finish (.tag (String.ofList ('!' :: (word ++ ['!']))) (String.ofList suffix))
    | _ =>
      let suffix ← takeWhile (isTagChar false)
      let all := word ++ suffix
      if all = [] then finish (.tag "" "!")
      else finish (.tag "!" (String.ofList all))

/-! ## The next token -/

/-- Adds the token of a mark of one character. -/
def emitMark (t : Token) : Scan Unit := do
  skip 1
  emit t

/-- Opens a flow collection. -/
def openFlow (t : Token) : Scan Unit := do
  markKey
  modify fun s => { s with keys := none :: s.keys }
  allowKey true
  emitMark t

/-- Closes a flow collection. -/
def closeFlow (t : Token) : Scan Unit := do
  dropKey
  modify fun s => { s with keys := if s.keys.length ≤ 1 then s.keys else s.keys.drop 1 }
  allowKey false
  emitMark t

/-- Adds a scalar that may be a key. -/
def emitScalar (style : Style) (read : Scan (List Char)) : Scan Unit := do
  markKey
  allowKey false
  let text ← read
  emit (.scalar style (String.ofList text))

/-- The `-` of an item of a block. -/
def scanEntry : Scan Unit := do
  let s ← get
  if (← flowLevel) = 0 then
    if !s.keyAllowed then refuse
    else openBlock s.column s.tokens.size .blockSequenceStart
  dropKey
  allowKey true
  emitMark .blockEntry

/-- The `?` of a key. -/
def scanKey : Scan Unit := do
  let s ← get
  let inBlock := (← flowLevel) = 0
  if inBlock then
    if !s.keyAllowed then refuse
    else openBlock s.column s.tokens.size .blockMappingStart
  dropKey
  allowKey inBlock
  emitMark .key

/-- The `:` of a value. -/
def scanValue : Scan Unit := do
  let s ← get
  match s.keys with
  -- Only now is it known that a key started there, and perhaps a block with it.
  | some k :: r =>
    insertToken k.tokens .key
    openBlock k.column k.tokens .blockMappingStart
    modify fun s => { s with keys := none :: r }
    allowKey false
  | _ =>
    let inBlock := (← flowLevel) = 0
    if inBlock then
      if !s.keyAllowed then refuse
      else openBlock s.column s.tokens.size .blockMappingStart
    allowKey inBlock
  emitMark .value

/-- Whether a bare scalar may start at a character with something after it. -/
def startsPlain (flow : Bool) (c : Char) (after : List Char) : Bool :=
  let indicator := ['-', '?', ':', ',', '[', ']', '\x7b', '\x7d', '#', '&', '*', '!', '|', '>', '\'', '"', '%', '@',
    Char.ofNat 0x60].contains c
  (!indicator && !isBlank c) || (c == '-' && !after.head?.any isBlank) || (!flow && (c == '?' || c == ':') && !atGap after)

/-- Adds the next token; `true` at the end of the text. -/
def scanToken : Scan Bool := do
  skipToToken ((← rest).length + 1)
  dropStaleKeys
  closeBlocks (← get).column
  let s ← get
  let flow := 0 < (← flowLevel)
  let bound := s.rest.length + 1
  match s.rest with
  | [] =>
    -- Every open block lies further in than this column.
    closeBlocks (-1)
    dropKey
    emit .streamEnd
    return true
  | c :: r =>
    if s.column = 0 ∧ c = '%' then refuse
    else if s.column = 0 ∧ (startsWithMark '-' s.rest || startsWithMark '.' s.rest) then
      closeBlocks (-1)
      dropKey
      allowKey false
      skip 3
      emit (if c = '-' then .documentStart else .documentEnd)
    else if c = '[' then openFlow .flowSequenceStart
    else if c = '\x7b' then openFlow .flowMappingStart
    else if c = ']' then closeFlow .flowSequenceEnd
    else if c = '\x7d' then closeFlow .flowMappingEnd
    else if c = ',' then
      dropKey
      allowKey true
      emitMark .flowEntry
    else if c = '-' && atGap r then scanEntry
    else if c = '?' && (flow || atGap r) then scanKey
    else if c = ':' && (flow || atGap r) then scanValue
    else if c = '*' || c = '&' then
      markKey
      allowKey false
      skip 1
      let name ← takeName
      emit (if c = '*' then .alias name else .anchor name)
    else if c = '!' then
      markKey
      allowKey false
      let t ← takeTag
      emit t
    else if (c = '|' || c = '>') && !flow then
      dropKey
      allowKey true
      skip 1
      let text ← takeBlock (c == '|')
      emit (.scalar .quoted (String.ofList text))
    else if c = '\'' || c = '"' then
      emitScalar .quoted do
        skip 1
        takeQuoted (c == '\'') bound
    else if startsPlain flow c r then emitScalar .plain (takePlain flow (s.indent + 1) bound {})
    else refuse
    return false

/-- Adds the tokens from here to the end of the text. -/
def scanAll : Nat → Scan Unit
  | 0 => refuse
  | fuel + 1 => do if ← scanToken then return () else scanAll fuel

/-- The tokens of a text. -/
def tokens? (text : List Char) : Option (List Token) :=
  if text.all isAllowed then
    let start : Scanner := ⟨text, 0, 0, 0, #[], -1, [], true, [none]⟩
    ((scanAll (text.length + 2)).run start).map fun (_, s) => s.tokens.toList
  else none

end PromptScript.Yaml
