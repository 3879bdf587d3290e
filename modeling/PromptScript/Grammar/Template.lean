import PromptScript.Document.Node
import PromptScript.Grammar.Expression

/-! # The grammar of documents

Reads a source into its tree: text, comments, the header, interpolations, choices, loops and tags. What is
none of these, a tag of another name among it, is text, and a backslash makes text of the character after
it. -/
namespace PromptScript.Grammar

/-- What a reading of nodes knows of the document before them. -/
structure Seen where
  /-- There was a header. -/
  header : Bool
  /-- There was text other than blanks. -/
  content : Bool
  deriving DecidableEq, Repr, Inhabited

/-- Why a run of sibling nodes ends. -/
inductive Ending where
  | source
  | elseMark (span : Span)
  | endIf (span : Span)
  | endFor (span : Span)
  | close (tag : Tag) (span : Span)
  deriving DecidableEq, Repr, Inhabited

/-- Whether a name in a tag may end before a text. -/
def endsTagName : List Char → Bool
  | [] => true
  | c :: _ => isSpace c || c == '/' || c == '>'

/-- The tag whose name a text starts with. -/
def tagAt? (text : List Char) : Option Tag :=
  Tag.all.find? fun tag =>
    match Text.dropLead? tag.name.toList text with
    | some r => endsTagName r
    | none => false

/-- The tag that opens or closes where a text starts; `true` if it closes. -/
def tagMarkAt? (text : List Char) : Option (Tag × Bool) :=
  match text with
  | '<' :: '/' :: r => (tagAt? r).map (·, true)
  | '<' :: r => (tagAt? r).map (·, false)
  | _ => none

/-- Whether a text starts with exactly three dashes. -/
def atHeaderMark (text : List Char) : Bool :=
  match text with
  | '-' :: '-' :: '-' :: '-' :: _ => false
  | '-' :: '-' :: '-' :: _ => true
  | _ => false

/-- Whether something other than text starts where a text starts, a header apart. -/
def endsText (text : List Char) : Bool :=
  Text.startsWith ['\x7b', '\x7b'] text || Text.startsWith ['/', '*'] text ||
    Text.startsWith "<!--".toList text || (tagMarkAt? text).isSome

/-! ## Leaves -/

/-- Where the scan of a text stands: at its first character, after a backslash, within a run of dashes, or
elsewhere. -/
inductive TextState where
  | first | escaped | dashes | inside
  deriving DecidableEq, Repr

/-- The data of a text node, and the cursor after it. `blank` tells whether there were none but blanks so far;
a header mark then ends the text, as long as the document has no content. -/
def scanText (content : Bool) : TextState → Bool → Nat → List Char → List Char × Cursor
  | .escaped, _, o, [] => (['\\'], ⟨o, []⟩)
  | _, _, o, [] => ([], ⟨o, []⟩)
  | .escaped, blank, o, c :: r =>
    let (data, stop) := scanText content .inside (blank && Text.isBlank c) (o + c.utf8Size) r
    (c :: data, stop)
  | state, blank, o, c :: r =>
    if c = '\\' then scanText content .escaped blank (o + c.utf8Size) r
    -- What stands at the start has been refused as anything but text.
    else if state ≠ .first && endsText (c :: r) then ([], ⟨o, c :: r⟩)
    else if state == .inside && atHeaderMark (c :: r) && !content && blank then ([], ⟨o, c :: r⟩)
    else
      let next := if c = '-' then .dashes else .inside
      let (data, stop) := scanText content next (blank && Text.isBlank c) (o + c.utf8Size) r
      (c :: data, stop)

/-- Reads a text node, and whether the document has content after it. -/
def readText (content : Bool) : Reading (Node × Bool) := do
  let start ← get
  let (data, stop) := scanText content .first true start.offset start.rest
  set stop
  return (.text ⟨start.offset, stop.offset⟩ (String.ofList data) none, content || !Text.allBlank data)

/-- The text before the first place where `mark` stands. -/
def before? (mark : List Char) : List Char → Option (List Char)
  | [] => if mark = [] then some [] else none
  | c :: r => if Text.startsWith mark (c :: r) then some [] else (before? mark r).map (c :: ·)

/-- The offset where the source ends. -/
def sourceEnd : Reading Nat := do
  let c ← get
  return c.offset + Text.byteLength c.rest

/-- Reads a comment between two marks. -/
def readComment (opening closing : List Char) : Reading Node := do
  let start ← offset
  let last ← sourceEnd
  skip opening.length
  match before? closing (← rest) with
  | none => failAt .unexpectedEnd ⟨start, last⟩
  | some data =>
    skip (data.length + closing.length)
    return .comment ⟨start, ← offset⟩ (String.ofList data) none

/-- The text before the first line that starts with exactly three dashes; `fresh` tells whether a line starts
here. -/
def beforeHeaderMark? : Bool → List Char → Option (List Char)
  | _, [] => none
  | fresh, c :: r =>
    if fresh && atHeaderMark (c :: r) then some []
    else (beforeHeaderMark? (c == '\n') r).map (c :: ·)

/-- Reads the header. -/
def readHeader : Reading Node := do
  let start ← offset
  let last ← sourceEnd
  skip 3
  match beforeHeaderMark? false (← rest) with
  | none => failAt .unexpectedEnd ⟨start, last⟩
  | some data =>
    skip (data.length + 3)
    return .config ⟨start, ← offset⟩ (String.ofList data) none

/-- Moves over the two braces that end an interpolation. -/
def expectClose : Reading Unit := do
  skipSpaces
  match ← rest with
  | [] => failEnd
  | '\x7d' :: '\x7d' :: _ => skip 2
  | _ => failHere "Expected '\x7d\x7d'"

/-- Reads the rest of an interpolation that starts at an offset. -/
def readInterpolation (start : Nat) : Reading Node := do
  skipSpaces
  let e ← readExpr
  expectClose
  return .interpolation ⟨start, ← offset⟩ e none

/-- Reads a variable that a loop declares. -/
def readBinding : Reading Binding := do
  let start ← offset
  match ← current? with
  | none => failHere "Expected identifier"
  | some c =>
    if isNameStart c then
      let name ← readName
      return ⟨name, ⟨start, ← offset⟩⟩
    else failHere "Expected identifier"

/-! ## Tags -/

/-- Reads the rest of a closing tag. -/
def readClosing (tag : Tag) : Reading Span := do
  let start ← offset
  skip (2 + tag.name.length)
  skipSpaces
  match ← current? with
  | none => failAt .unexpectedEnd ⟨start, ← offset⟩
  | some '>' =>
    skip 1
    return ⟨start, ← offset⟩
  | some _ => failHere "Expected '>'"

/-- A text node of an attribute, left out if it is empty. -/
def attributeText (start stop : Nat) (data : List Char) : List Node :=
  if data = [] then [] else [.text ⟨start, stop⟩ (String.ofList data) none]

/-- Reads the parts of a quoted value up to its closing quote. `start` is where the text at the cursor
began, `data` that text in reverse. -/
def readQuoted (opening : Nat) (quote : Char) : Nat → Nat → List Char → Reading (List Node)
  | 0, _, _ => failEnd
  | fuel + 1, start, data => do
    match ← rest with
    | [] => failAt .unexpectedEnd ⟨opening, ← offset⟩
    | c :: r =>
      if c = quote then return attributeText start (← offset) data.reverse
      else if c = '\\' then
        match r with
        | [] =>
          skip 1
          readQuoted opening quote fuel start data
        | e :: _ =>
          skip 2
          readQuoted opening quote fuel start (e :: data)
      else if Text.startsWith ['\x7b', '\x7b'] (c :: r) then
        let here ← offset
        skip 2
        let value ← readInterpolation here
        let more ← readQuoted opening quote fuel (← offset) []
        return attributeText start here data.reverse ++ value :: more
      else
        skip 1
        readQuoted opening quote fuel start (c :: data)

/-- Reads a quoted value. An empty one is an empty text. -/
def readQuotedValue (quote : Char) : Reading (List Node) := do
  let opening ← offset
  skip 1
  let start ← offset
  let parts ← readQuoted opening quote ((← rest).length + 1) start []
  let stop ← offset
  skip 1
  return if parts.isEmpty then [.text ⟨start, stop⟩ "" none] else parts

/-- Characters of the name of an attribute. -/
def isAttributeChar (c : Char) : Bool := isNameChar c || c == '-' || c == ':' || c == '.'

/-- Reads an attribute: a name, and perhaps a value after `=`. -/
def readAttribute : Reading Attribute := do
  let start ← offset
  let name ← takeWhile isAttributeChar
  if name = [] then
    failHere ("Unexpected character '" ++ String.ofList [((← current?).getD ' ')] ++ "' in tag")
  else
    let name := String.ofList name
    let bare ← get
    skipSpaces
    if (← current?) ≠ some '=' then
      -- The blanks after the name are no part of it.
      set bare
      return .mk ⟨start, bare.offset⟩ name .flag
    else
      skip 1
      skipSpaces
      let parts ← (do
        match ← rest with
        | [] => failAt .unexpectedEnd ⟨start, ← offset⟩
        | '"' :: _ => readQuotedValue '"'
        | '\'' :: _ => readQuotedValue '\''
        | '\x7b' :: '\x7b' :: _ =>
          let here ← offset
          skip 2
          return [← readInterpolation here]
        | _ => failHere "Expected attribute value")
      return .mk ⟨start, ← offset⟩ name (.nodes parts)

/-- Reads the attributes of a tag that starts at an offset, up to its end; `true` if the tag closes
itself. -/
def readAttributes (start : Nat) : Nat → List Attribute → Reading (List Attribute × Bool)
  | 0, _ => failEnd
  | fuel + 1, found => do
    skipSpaces
    match ← rest with
    | [] => failAt .unexpectedEnd ⟨start, ← offset⟩
    | '>' :: _ =>
      skip 1
      return (found, false)
    | '/' :: '>' :: _ =>
      skip 2
      return (found, true)
    | _ =>
      let next ← readAttribute
      if found.any (·.name == next.name) then failAt (.duplicateAttribute next.name) next.span
      else readAttributes start fuel (found ++ [next])

/-! ## Blocks -/

/-- Ends because a block or tag that starts at an offset is not closed by what ends its nodes. -/
def failEnding {α : Type} (name : String) (start : Nat) (ending : Ending) : Reading α := do
  match ending with
  | .source => failAt (.unclosedBlock name) ⟨start, ← sourceEnd⟩
  | .close tag span => failAt (.unexpectedTagClose tag.name) span
  | .elseMark span => failAt (.unexpectedBlockClose "else") span
  | .endIf span => failAt (.unexpectedBlockClose "endif") span
  | .endFor span => failAt (.unexpectedBlockClose "endfor") span

/-- The two kinds of blocks. -/
inductive Block where
  | choice | loop
  deriving DecidableEq, Repr, Inhabited

/-- The word that opens a block. -/
def Block.word : Block → String
  | choice => "if"
  | loop => "for"

/-- Whether nodes end where a block of the kind ends. -/
def Block.endedBy : Block → Ending → Bool
  | choice, .endIf _ => true
  | loop, .endFor _ => true
  | _, _ => false

/-- What opens an interpolation: the end of the nodes before it, a block, or a value. -/
inductive Opening where
  | ending (e : Span → Ending)
  | block (b : Block)
  | value

/-- What the text after two braces opens, and how many characters say so. -/
def openingAt (text : List Char) : Opening × Nat :=
  if startsWithWord "else" text then (.ending .elseMark, 4)
  else if startsWithWord "endif" text then (.ending .endIf, 5)
  else if startsWithWord "endfor" text then (.ending .endFor, 6)
  else if startsWithWord "if" text then (.block .choice, 2)
  else if startsWithWord "for" text then (.block .loop, 3)
  else (.value, 0)

/-- The head of a loop: its variables and its list. -/
structure LoopHead where
  item : Binding
  index : Option Binding
  items : Expr

/-- Reads the head of a loop. -/
def readLoopHead : Reading LoopHead := do
  skipSpaces
  let item ← readBinding
  skipSpaces
  let index ← (do
    if (← current?) = some ',' then
      skip 1
      skipSpaces
      return some (← readBinding)
    else return none)
  skipSpaces
  if ← lookingAtWord "in" then
    skip 2
    skipSpaces
    let items ← readExpr
    expectClose
    return ⟨item, index, items⟩
  else failHere "Expected 'in' in for block"

/-- Reads the head of a choice. -/
def readChoiceHead : Reading Expr := do
  skipSpaces
  let test ← readExpr
  expectClose
  return test

/-- What stands where a text starts. -/
inductive Lead where
  | nothing
  | braces
  /-- A comment, with its two marks. -/
  | comment (opening closing : List Char)
  | close (tag : Tag)
  | tag (tag : Tag)
  | secondHeader
  | header
  | text
  deriving DecidableEq, Repr

/-- What stands where a text starts. A header may stand at the root, and its mark counts only as long as nothing but
blanks has been met. -/
def leadOf (root : Bool) (seen : Seen) (text : List Char) : Lead :=
  if text = [] then .nothing
  else if Text.startsWith ['\x7b', '\x7b'] text then .braces
  else if Text.startsWith ['/', '*'] text then .comment ['/', '*'] ['*', '/']
  else if Text.startsWith "<!--".toList text then .comment "<!--".toList "-->".toList
  else match tagMarkAt? text with
    | some (tag, true) => .close tag
    | some (tag, false) => .tag tag
    | none =>
      if atHeaderMark text && seen.header && !seen.content then .secondHeader
      else if atHeaderMark text && root && !seen.header && !seen.content then .header
      else .text

/-- What comes next among sibling nodes. -/
inductive Next where
  | node (n : Node) (seen : Seen)
  | ending (e : Ending)

mutual

/-- Reads sibling nodes up to what ends them, which is moved over. -/
def readNodes : Nat → Bool → Seen → Reading (List Node × Ending × Seen)
  | 0, _, _ => failEnd
  | fuel + 1, root, seen => do
    match ← readNext fuel root seen with
    | .ending ending => return ([], ending, seen)
    | .node node seen =>
      let (nodes, ending, seen) ← readNodes fuel root seen
      return (node :: nodes, ending, seen)

/-- Reads the next node, or what ends the nodes. -/
def readNext : Nat → Bool → Seen → Reading Next
  | 0, _, _ => failEnd
  | fuel + 1, root, seen => do
    let start ← offset
    match leadOf root seen (← rest) with
    | .nothing => return .ending .source
    | .braces =>
      skip 2
      skipSpaces
      let (opening, length) := openingAt (← rest)
      skip length
      match opening with
      | .ending e =>
        expectClose
        return .ending (e ⟨start, ← offset⟩)
      | .block block =>
        let (node, seen) ← readBlock fuel block start seen
        return .node node seen
      | .value => return .node (← readInterpolation start) seen
    | .comment opening closing => return .node (← readComment opening closing) seen
    | .close tag => return .ending (.close tag (← readClosing tag))
    | .tag tag =>
      let (node, seen) ← readElement fuel tag seen
      return .node node seen
    | .secondHeader => failAt .configAlreadyDeclared ⟨start, start + 3⟩
    | .header => return .node (← readHeader) { seen with header := true }
    | .text =>
      let (node, content) ← readText seen.content
      return .node node { seen with content := content }

/-- Reads the rest of a block that starts at an offset. -/
def readBlock : Nat → Block → Nat → Seen → Reading (Node × Seen)
  | 0, _, _, _ => failEnd
  | fuel + 1, .choice, start, seen => do
    let test ← readChoiceHead
    let (body, otherwise, seen) ← readBranches fuel .choice start seen
    return (.choice ⟨start, ← offset⟩ test body otherwise none, seen)
  | fuel + 1, .loop, start, seen => do
    let head ← readLoopHead
    let (body, otherwise, seen) ← readBranches fuel .loop start seen
    return (.loop ⟨start, ← offset⟩ head.items head.item head.index body otherwise none, seen)

/-- Reads the nodes of a block, and those after an `else`. -/
def readBranches : Nat → Block → Nat → Seen → Reading (List Node × Option (List Node) × Seen)
  | 0, _, _, _ => failEnd
  | fuel + 1, block, start, seen => do
    let (body, ending, seen) ← readNodes fuel false seen
    match ending with
    | .elseMark _ =>
      let (other, ending, seen) ← readNodes fuel false seen
      if block.endedBy ending then return (body, some other, seen)
      else failEnding block.word (← offset) ending
    | ending =>
      if block.endedBy ending then return (body, none, seen)
      else failEnding block.word start ending

/-- Reads a tag with its attributes and what stands in it. -/
def readElement : Nat → Tag → Seen → Reading (Node × Seen)
  | 0, _, _ => failEnd
  | fuel + 1, tag, seen => do
    let start ← offset
    skip (1 + tag.name.length)
    let (attributes, alone) ← readAttributes start ((← rest).length + 1) []
    if alone then return (.element ⟨start, ← offset⟩ tag attributes [] none, seen)
    else
      let (body, ending, seen) ← readNodes fuel false seen
      match ending with
      | .close closed span =>
        if closed = tag then return (.element ⟨start, ← offset⟩ tag attributes body none, seen)
        else failEnding tag.name start (.close closed span)
      | ending => failEnding tag.name start ending

end

/-- Reads a whole source. -/
def readDocument : Reading Document := do
  let (body, ending, _) ← readNodes (4 * ((← rest).length + 1)) true ⟨false, false⟩
  match ending with
  | .source => return ⟨⟨0, ← offset⟩, body, none⟩
  | ending => failEnding "" 0 ending

end Grammar

/-- Reads a source into a document. -/
def Document.parse (source : List Char) : Except Diagnostic Document :=
  match Grammar.readDocument.run (.start source) with
  | .ok (document, _) => .ok document
  | .error fault => .error (Diagnostic.of source fault)

end PromptScript
