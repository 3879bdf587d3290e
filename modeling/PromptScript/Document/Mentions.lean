import PromptScript.Document.Node

/-! # Mentions

The documents that a document names, wherever its references stand. A reference that does not write out its path
names none. -/
namespace PromptScript

/-- The document that a reference with these attributes names. -/
def mentioned? (attributes : List Attribute) : Option String :=
  (Attribute.find? "path" attributes).bind (·.value.staticText?)

namespace Node

mutual

/-- The paths in the references of a node. -/
def mentions : Node → List String
  | text _ _ _ | comment _ _ _ | config _ _ _ | interpolation _ _ _ => []
  | choice _ _ body none _ => mentionsAll body
  | choice _ _ body (some other) _ => mentionsAll body ++ mentionsAll other
  | loop _ _ _ _ body none _ => mentionsAll body
  | loop _ _ _ _ body (some other) _ => mentionsAll body ++ mentionsAll other
  | element _ tag attributes body _ =>
    if tag = .reference then (mentioned? attributes).toList else mentionsAll body
  | group _ body _ => mentionsAll body

/-- The paths in the references of nodes, in order. -/
def mentionsAll : List Node → List String
  | [] => []
  | n :: r => mentions n ++ mentionsAll r

end

end Node

/-- The paths in the references of a document, in order. -/
def Document.mentions (d : Document) : List String := Node.mentionsAll d.body

end PromptScript
