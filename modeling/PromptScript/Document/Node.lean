import PromptScript.Document.Tag
import PromptScript.Expr.Basic
import PromptScript.Scope

/-! # Documents

The tree that a source is read into. A node may carry marks of the progress that passes over the document
have made, so that a later pass goes on where the one before stopped. -/
namespace PromptScript

/-- Marks of progress on a node. -/
structure Progress where
  /-- The node is done. -/
  done : Bool := false
  /-- A value found once: the condition of a choice, the list of a loop, the attributes of a tag. -/
  memo : Option Value := none
  /-- The names in view inside the node where a step stopped. -/
  pointers : Option Pointers := none
  /-- The round of a loop to go on with. -/
  round : Option Nat := none
  /-- The cells of a part with variables of its own in which a step stopped. -/
  stash : Option Stash := none
  deriving Inhabited, Repr

/-- A variable that a loop declares. -/
structure Binding where
  name : String
  span : Span
  deriving DecidableEq, Repr, Inhabited

mutual

inductive Node where
  | text (span : Span) (data : String) (progress : Option Progress)
  | comment (span : Span) (data : String) (progress : Option Progress)
  /-- The header of a document. -/
  | config (span : Span) (data : String) (progress : Option Progress)
  /-- An expression whose value is put into the text. -/
  | interpolation (span : Span) (e : Expr) (progress : Option Progress)
  | choice (span : Span) (test : Expr) (body : List Node) (otherwise : Option (List Node))
      (progress : Option Progress)
  /-- A part that is repeated for every item of a list. The other part stands in for an empty list. -/
  | loop (span : Span) (items : Expr) (item : Binding) (index : Option Binding) (body : List Node)
      (otherwise : Option (List Node)) (progress : Option Progress)
  | element (span : Span) (tag : Tag) (attributes : List Attribute) (body : List Node)
      (progress : Option Progress)
  /-- A list of nodes in the place of one. -/
  | group (span : Span) (body : List Node) (progress : Option Progress)
  deriving Repr

inductive Attribute where
  | mk (span : Span) (name : String) (value : AttributeValue)
  deriving Repr

/-- The value of an attribute: no more than its name, or text with interpolations. -/
inductive AttributeValue where
  | flag
  | nodes (parts : List Node)
  deriving Repr

end

instance : Inhabited Node := ⟨.text ⟨0, 0⟩ "" none⟩
instance : Inhabited AttributeValue := ⟨.flag⟩
instance : Inhabited Attribute := ⟨.mk ⟨0, 0⟩ "" .flag⟩

/-- A source that has been read. -/
structure Document where
  span : Span
  body : List Node
  progress : Option Progress
  deriving Inhabited, Repr

namespace Attribute

def span : Attribute → Span
  | mk span _ _ => span

def name : Attribute → String
  | mk _ name _ => name

def value : Attribute → AttributeValue
  | mk _ _ value => value

/-- The attribute with a given name. -/
def find? (name : String) (attributes : List Attribute) : Option Attribute :=
  attributes.find? (·.name == name)

end Attribute

/-- The text of attribute parts that hold no interpolation. -/
def AttributeValue.textOfParts? : List Node → Option String
  | [] => some ""
  | .text _ data _ :: r => (textOfParts? r).map (data ++ ·)
  | _ :: _ => none

/-- The text of a value that holds no interpolation. -/
def AttributeValue.staticText? : AttributeValue → Option String
  | flag => none
  | nodes parts => textOfParts? parts

namespace Node

/-- Where the node stands in the source. -/
def span : Node → Span
  | text span _ _ | comment span _ _ | config span _ _ | interpolation span _ _
  | choice span _ _ _ _ | loop span _ _ _ _ _ _ | element span _ _ _ _ | group span _ _ => span

/-- The marks on the node itself. -/
def progress : Node → Option Progress
  | text _ _ p | comment _ _ p | config _ _ p | interpolation _ _ p
  | choice _ _ _ _ p | loop _ _ _ _ _ _ p | element _ _ _ _ p | group _ _ p => p

/-- The node with other marks on itself. -/
def withProgress (p : Option Progress) : Node → Node
  | text span data _ => text span data p
  | comment span data _ => comment span data p
  | config span data _ => config span data p
  | interpolation span e _ => interpolation span e p
  | choice span test body otherwise _ => choice span test body otherwise p
  | loop span items item index body otherwise _ => loop span items item index body otherwise p
  | element span tag attributes body _ => element span tag attributes body p
  | group span body _ => group span body p

/-- Whether an earlier pass has finished the node. -/
def isDone (n : Node) : Bool := n.progress.any (·.done)

mutual

/-- The node without marks on it or in it. -/
def cleared : Node → Node
  | text span data _ => text span data none
  | comment span data _ => comment span data none
  | config span data _ => config span data none
  | interpolation span e _ => interpolation span e none
  | choice span test body none _ => choice span test (clearedAll body) none none
  | choice span test body (some other) _ =>
    choice span test (clearedAll body) (some (clearedAll other)) none
  | loop span items item index body none _ => loop span items item index (clearedAll body) none none
  | loop span items item index body (some other) _ =>
    loop span items item index (clearedAll body) (some (clearedAll other)) none
  | element span tag attributes body _ => element span tag attributes (clearedAll body) none
  | group span body _ => group span (clearedAll body) none

/-- Nodes without marks on them or in them. -/
def clearedAll : List Node → List Node
  | [] => []
  | n :: r => cleared n :: clearedAll r

end

end Node
end PromptScript
