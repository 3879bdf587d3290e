import PromptScript.Document.Node
import PromptScript.Json.Record

/-! # Documents as JSON

The JSON form of the document tree, marks of progress included. A node is an object that names its kind in the
field `type`; what is not there is left out. -/
namespace PromptScript

/-- A span as JSON. -/
def Span.toJson (span : Span) : Json := .obj [("start", .int span.start), ("end", .int span.stop)]

/-- Marks of progress as JSON. Values and cells are in their stored form. -/
def Progress.toJson (p : Progress) : Json :=
  .obj (Json.present [("completed", some (.bool p.done)), ("completedAs", p.memo.map Value.toStored),
    ("scopePointers", p.pointers.map Pointers.toJson), ("loopIterationIndex", p.round.map fun n => .int n),
    ("scopeStash", p.stash.map Stash.toStored)])

def Binding.toJson (b : Binding) : Json := .obj [("name", .str b.name), ("span", b.span.toJson)]

/-- An assignment operator as JSON: its symbol, or the operator it combines with. -/
def AssignOp.toJson : AssignOp → Json
  | assign => .str "="
  | binary op => .obj [("binary", .str op.symbol)]
  | logical op => .obj [("logical", .str op.symbol)]

/-- An update operator as written. -/
def UpdateOp.symbol : UpdateOp → String
  | increment => "++"
  | decrement => "--"

namespace Expr

/-- An expression as JSON, of a given kind with the given fields. -/
def kindJson (span : Span) (kind : String) (fields : List (String × Json)) : Json :=
  .obj [("span", span.toJson), ("kind", .obj (("type", .str kind) :: fields))]

mutual

/-- An expression as JSON. Literals are plain JSON. -/
def toJson : Expr → Json
  | literal span value => kindJson span "Literal" [("value", value.toJson)]
  | identifier span name => kindJson span "Identifier" [("name", .str name)]
  | array span items => kindJson span "Array" [("elements", .arr (itemsToJson items))]
  | object span fields => kindJson span "Object" [("properties", .arr (fieldsToJson fields))]
  | sequence span items => kindJson span "Sequence" [("expressions", .arr (itemsToJson items))]
  | unary span op e => kindJson span "Unary" [("operator", .str op.symbol), ("argument", toJson e)]
  | binary span op a b =>
    kindJson span "Binary" [("operator", .str op.symbol), ("left", toJson a), ("right", toJson b)]
  | logical span op a b =>
    kindJson span "Logical" [("operator", .str op.symbol), ("left", toJson a), ("right", toJson b)]
  | assignment span op target value =>
    kindJson span "Assignment" [("operator", op.toJson), ("target", toJson target), ("value", toJson value)]
  | update span op before e =>
    kindJson span "Update"
      [("operator", .str op.symbol), ("prefix", .bool before), ("argument", toJson e)]
  | member span base key optional =>
    kindJson span "Member"
      [("object", toJson base), ("property", keyToJson key), ("optional", .bool optional)]
  | conditional span test a b =>
    kindJson span "Conditional" [("test", toJson test), ("consequent", toJson a), ("alternate", toJson b)]
  | call span callee arguments optional =>
    kindJson span "Call"
      [("callee", toJson callee), ("arguments", .arr (itemsToJson arguments)), ("optional", .bool optional)]
  | chain span e => kindJson span "Chain" [("expression", toJson e)]

def itemsToJson : List Expr → List Json
  | [] => []
  | e :: r => toJson e :: itemsToJson r

def fieldsToJson : List (Key × Expr) → List Json
  | [] => []
  | (key, e) :: r => .obj [("key", keyToJson key), ("value", toJson e)] :: fieldsToJson r

def keyToJson : Key → Json
  | .named name => .obj [("Named", .str name)]
  | .computed e => .obj [("Computed", toJson e)]

end

end Expr

namespace Node

/-- A node as JSON, of a given kind with the given fields. -/
def kindJson (kind : String) (fields : List (String × Option Json)) (p : Option Progress) : Json :=
  .obj (("type", .str kind) :: Json.present (fields ++ [("status", p.map Progress.toJson)]))

mutual

/-- A node as JSON. -/
def toJson : Node → Json
  | text span data p => kindJson "Text" [("span", span.toJson), ("data", some (.str data))] p
  | comment span data p => kindJson "Comment" [("span", span.toJson), ("data", some (.str data))] p
  | config span data p => kindJson "Config" [("span", span.toJson), ("data", some (.str data))] p
  | interpolation span e p =>
    kindJson "MustacheTag" [("span", span.toJson), ("expression", some e.toJson)] p
  | choice span test body none p =>
    kindJson "IfBlock" [("span", span.toJson), ("expression", some test.toJson),
      ("children", some (.arr (allToJson body)))] p
  | choice span test body (some other) p =>
    kindJson "IfBlock" [("span", span.toJson), ("expression", some test.toJson),
      ("children", some (.arr (allToJson body))), ("elseChildren", some (.arr (allToJson other)))] p
  | loop span items item index body none p =>
    kindJson "ForBlock" [("span", span.toJson), ("expression", some items.toJson),
      ("context", item.toJson), ("index", index.map Binding.toJson),
      ("children", some (.arr (allToJson body)))] p
  | loop span items item index body (some other) p =>
    kindJson "ForBlock" [("span", span.toJson), ("expression", some items.toJson),
      ("context", item.toJson), ("index", index.map Binding.toJson),
      ("children", some (.arr (allToJson body))), ("elseChildren", some (.arr (allToJson other)))] p
  | element span tag attributes body p =>
    kindJson "ElementTag" [("span", span.toJson), ("name", some (.str tag.name)),
      ("attributes", some (.arr (attributesToJson attributes))),
      ("children", some (.arr (allToJson body)))] p
  | group span body p =>
    kindJson "Fragment" [("span", span.toJson), ("children", some (.arr (allToJson body)))] p

def allToJson : List Node → List Json
  | [] => []
  | n :: r => toJson n :: allToJson r

def attributesToJson : List Attribute → List Json
  | [] => []
  | .mk span name value :: r =>
    .obj [("span", span.toJson), ("name", .str name), ("value", valueToJson value)] :: attributesToJson r

def valueToJson : AttributeValue → Json
  | .flag => .bool true
  | .nodes parts => .arr (allToJson parts)

end

end Node

/-- A document as JSON. -/
def Document.toJson (d : Document) : Json :=
  .obj (Json.present [("span", d.span.toJson), ("children", some (.arr (Node.allToJson d.body))),
    ("status", d.progress.map Progress.toJson)])

end PromptScript
