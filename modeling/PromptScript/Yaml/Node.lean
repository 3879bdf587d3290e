import PromptScript.Yaml.Scalar
import PromptScript.Yaml.Token

/-! # YAML trees

The tree that the tokens of a text describe, and the JSON it stands for. A text holds one tree. -/
namespace PromptScript.Yaml

inductive Node where
  | scalar (tag : Option String) (style : Style) (text : String)
  | sequence (tag : Option String) (items : List Node)
  | mapping (tag : Option String) (entries : List (Node × Node))
  deriving Inhabited, Repr

/-- The node that stands where nothing is written. -/
def Node.empty : Node := .scalar none .plain ""

/-- The tokens that are still to be read, and the anchors so far. -/
structure Reader where
  tokens : List Token
  /-- The number of the node that each anchor stands before. -/
  anchors : List (String × Nat)
  /-- The nodes with an anchor that are complete. -/
  nodes : List (Nat × Node)
  deriving Inhabited

abbrev Read := StateT Reader Option

namespace Read

/-- Fails. -/
def refuse {α : Type} : Read α := fun _ => none

/-- The next token; the end of the text has no end. -/
def peek : Read Token := return ((← get).tokens.head?).getD .streamEnd

/-- Moves past a token. -/
def skip : Read Unit := modify fun s => { s with tokens := s.tokens.drop 1 }

/-- Gives an anchor to the node that begins here, and gives the number of the node. -/
def openAnchor (name : String) : Read Nat := do
  let s ← get
  let n := s.anchors.length
  set { s with anchors := (name, n) :: s.anchors }
  return n

/-- The node that an alias stands for; a node cannot hold itself. -/
def lookUp (name : String) : Read Node := do
  let s ← get
  match (Fields.get? name s.anchors).bind fun n => (s.nodes.find? (·.1 == n)).map (·.2) with
  | some node => return node
  | none => refuse

/-! ## Properties of a node -/

/-- The tag that a handle and the rest of a tag name. -/
def resolveTag (handle suffix : String) : Read String :=
  if handle = "" then return suffix
  else if handle = "!" then return "!" ++ suffix
  else if handle = "!!" then return "tag:yaml.org,2002:" ++ suffix
  else refuse

/-- An anchor, if one stands here. -/
def anchor? : Read (Option String) := do
  match ← peek with
  | .anchor name =>
    skip
    return some name
  | _ => return none

/-- A tag, if one stands here. -/
def tag? : Read (Option String) := do
  match ← peek with
  | .tag handle suffix =>
    skip
    return some (← resolveTag handle suffix)
  | _ => return none

/-- The anchor and the tag of a node, in either order. -/
def properties : Read (Option String × Option String) := do
  match ← anchor? with
  | some name => return (some name, ← tag?)
  | none =>
    match ← tag? with
    | some tag => return (← anchor?, some tag)
    | none => return (none, none)

/-! ## Collections

Each function here reads a collection after its first token. `node` reads an item; its first argument tells
whether blocks may stand there, and its second whether a sequence without an indentation of its own may. -/

variable (node : Bool → Bool → Read Node)

/-- A node, or the empty one where one of `ends` stands. -/
def nodeUnless (block indentless : Bool) (ends : Token → Bool) : Read Node := do
  if ends (← peek) then return Node.empty else node block indentless

/-- The items of a block sequence; the block has its own end. -/
def blockItems : Nat → Read (List Node)
  | 0 => refuse
  | fuel + 1 => do
    match ← peek with
    | .blockEntry =>
      skip
      let item ← nodeUnless node true false fun t => t == .blockEntry || t == .blockEnd
      return item :: (← blockItems fuel)
    | .blockEnd =>
      skip
      return []
    | _ => refuse

/-- The items of a sequence that is not indented further than the mapping it is in. -/
def indentlessItems : Nat → Read (List Node)
  | 0 => refuse
  | fuel + 1 => do
    match ← peek with
    | .blockEntry =>
      skip
      let item ← nodeUnless node true false fun t =>
        t == .blockEntry || t == .key || t == .value || t == .blockEnd
      return item :: (← indentlessItems fuel)
    | _ => return []

/-- The value after a key, or the empty node if there is none. -/
def valueUnless (block : Bool) (ends : Token → Bool) : Read Node := do
  match ← peek with
  | .value =>
    skip
    nodeUnless node block block ends
  | _ => return Node.empty

/-- The entries of a block mapping. -/
def blockEntries : Nat → Read (List (Node × Node))
  | 0 => refuse
  | fuel + 1 => do
    let ends := fun (t : Token) => t == .key || t == .value || t == .blockEnd
    match ← peek with
    | .key =>
      skip
      let key ← nodeUnless node true true ends
      let value ← valueUnless node true ends
      return (key, value) :: (← blockEntries fuel)
    | .blockEnd =>
      skip
      return []
    | _ => refuse

/-- The comma before a further item of a flow collection. -/
def separator (first : Bool) : Read Unit := do
  if first then return ()
  else match ← peek with
    | .flowEntry => skip
    | _ => refuse

/-- A mapping of one entry as an item of a flow sequence. A missing key takes the token after it along. -/
def pair : Read Node := do
  let t ← peek
  let key ← if t == .value || t == .flowEntry || t == .flowSequenceEnd then
      skip
      pure Node.empty
    else node false false
  let value ← valueUnless node false fun t => t == .flowEntry || t == .flowSequenceEnd
  return .mapping none [(key, value)]

/-- The items of a flow sequence. -/
def flowItems : Bool → Nat → Read (List Node)
  | _, 0 => refuse
  | first, fuel + 1 => do
    if (← peek) == .flowSequenceEnd then
      skip
      return []
    else
      separator first
      match ← peek with
      | .flowSequenceEnd =>
        skip
        return []
      | .key =>
        skip
        let item ← pair node
        return item :: (← flowItems false fuel)
      | _ =>
        let item ← node false false
        return item :: (← flowItems false fuel)

/-- The entries of a flow mapping. -/
def flowEntries : Bool → Nat → Read (List (Node × Node))
  | _, 0 => refuse
  | first, fuel + 1 => do
    if (← peek) == .flowMappingEnd then
      skip
      return []
    else
      separator first
      match ← peek with
      | .flowMappingEnd =>
        skip
        return []
      | .key =>
        skip
        let key ← nodeUnless node false false fun t =>
          t == .value || t == .flowEntry || t == .flowMappingEnd
        let value ← valueUnless node false fun t => t == .flowEntry || t == .flowMappingEnd
        return (key, value) :: (← flowEntries false fuel)
      | _ =>
        let key ← node false false
        return (key, Node.empty) :: (← flowEntries false fuel)

/-! ## Nodes -/

/-- Reads the node that begins with a token, after its properties. -/
def content (tag : Option String) (bare : Bool) (bound : Nat) (block indentless : Bool) : Read Node := do
  let t ← peek
  if indentless && t == .blockEntry then return .sequence tag (← indentlessItems node bound)
  else match t with
    | .scalar style text =>
      skip
      return .scalar (tag.filter (· != "!")) style text
    | .flowSequenceStart =>
      skip
      return .sequence tag (← flowItems node true bound)
    | .flowMappingStart =>
      skip
      return .mapping tag (← flowEntries node true bound)
    | .blockSequenceStart =>
      if block then
        skip
        return .sequence tag (← blockItems node bound)
      else refuse
    | .blockMappingStart =>
      if block then
        skip
        return .mapping tag (← blockEntries node bound)
      else refuse
    | _ => if bare then refuse else return .scalar tag .plain ""

/-- Reads a node, with collections nested up to `levels` deep. -/
def readNode (bound : Nat) : Nat → Bool → Bool → Read Node
  | 0, _, _ => refuse
  | levels + 1, block, indentless => do
    match ← peek with
    | .alias name =>
      skip
      lookUp name
    | _ =>
      let (anchor, tag) ← properties
      match anchor with
      | some name =>
        let n ← openAnchor name
        let node ← content (readNode bound levels) tag false bound block indentless
        modify fun s => { s with nodes := (n, node) :: s.nodes }
        return node
      | none => content (readNode bound levels) tag tag.isNone bound block indentless

/-- Moves past the marks that end a document. -/
def documentEnds : Nat → Read Unit
  | 0 => return ()
  | fuel + 1 => do
    if (← peek) == .documentEnd then
      skip
      documentEnds fuel

/-- Reads the tree of a text, and its end. -/
def document (bound : Nat) : Read Node := do
  let node ← (do
    match ← peek with
    | .streamEnd => return Node.empty
    | .documentStart =>
      skip
      let t ← peek
      if t == .documentStart || t == .documentEnd || t == .streamEnd then return Node.empty
      else readNode bound bound true false
    | _ => readNode bound bound true false : Read Node)
  documentEnds bound
  if (← peek) == .streamEnd then return node else refuse

end Read

/-- The tree of a text. -/
def Node.parse? (text : List Char) : Option Node := do
  let tokens ← tokens? text
  let (node, _) ← (Read.document (tokens.length + 1)).run ⟨tokens, [], []⟩
  return node

/-! ## The JSON of a tree -/

/-- Whether a tag is of the text's own making; such tags have no meaning in JSON. -/
def isLocal (tag : Option String) : Bool := tag.any fun t => t.toList.head? == some '!'

/-- A tagged or quoted scalar as JSON; the tags of the core kinds hold for their kind only. -/
def scalarJson? (tag : Option String) (style : Style) (text : String) : Option Json :=
  match tag with
  | none => if style = .plain then (meaning text).toJson? text else some (.str text)
  | some "tag:yaml.org,2002:bool" => (boolean? text).map .bool
  | some "tag:yaml.org,2002:int" => (integerMeaning? text.toList).bind (·.toJson? text)
  | some "tag:yaml.org,2002:float" => (float? text.toList).bind fun x => (Meaning.float x).toJson? text
  | some "tag:yaml.org,2002:null" => if isNull text then some .null else none
  | some t => if isLocal (some t) then none else some (.str text)

/-- How deep collections may be nested. -/
def nestingLimit : Nat := 128

namespace Node

mutual

/-- A tree as JSON, with collections nested up to `levels` deep. A key is the text of a scalar; of equal keys the
last gives the value. -/
def toJson? (levels : Nat) : Node → Option Json
  | scalar tag style text => scalarJson? tag style text
  | sequence tag items =>
    if isLocal tag ∨ levels = 0 then none else (itemsToJson? (levels - 1) items).map .arr
  | mapping tag entries =>
    if isLocal tag ∨ levels = 0 then none
    else (entriesToJson? (levels - 1) entries).map fun fields => .obj (Fields.ofList fields)

def itemsToJson? (levels : Nat) : List Node → Option (List Json)
  | [] => some []
  | node :: r => do return (← toJson? levels node) :: (← itemsToJson? levels r)

def entriesToJson? (levels : Nat) : List (Node × Node) → Option (List (String × Json))
  | [] => some []
  | (.scalar _ _ text, value) :: r => do
    return (text, ← toJson? levels value) :: (← entriesToJson? levels r)
  | _ :: _ => none

end

end Node

/-- The JSON that a text stands for. -/
def json? (text : List Char) : Option Json := (Node.parse? text).bind (·.toJson? nestingLimit)

end PromptScript.Yaml
