import PromptScript.Document.Encoding

/-! # Documents from JSON

Reads the JSON form of the document tree. Fields that are left out for want of a value may also be null. The
kind of anything inside a node may be a number instead of a name. The functions on nested parts take a bound on the
depth of the JSON. -/
namespace PromptScript

/-- Reads a span. -/
def Span.ofJson? (j : Json) : Option Span := do
  let fields ← j.record? ["start", "end"]
  return ⟨← Json.need? "start" Json.index? fields, ← Json.need? "end" Json.index? fields⟩

/-- Reads marks of progress. -/
def Progress.ofJson? (j : Json) : Option Progress := do
  let fields ← j.record? ["completed", "completedAs", "scopePointers", "loopIterationIndex", "scopeStash"]
  return {
    done := (← Json.given? "completed" Json.bool? fields).getD false
    memo := ← Json.given? "completedAs" (fun j => some (Value.ofStored j)) fields
    pointers := ← Json.allow? "scopePointers" Pointers.ofJson? fields
    round := ← Json.allow? "loopIterationIndex" Json.index? fields
    stash := ← Json.given? "scopeStash" Stash.ofStored? fields }

def Binding.ofJson? (j : Json) : Option Binding := do
  let fields ← j.record? ["name", "span"]
  return ⟨← Json.need? "name" Json.str? fields, ← Json.need? "span" Span.ofJson? fields⟩

def UnaryOp.ofJson? (j : Json) : Option UnaryOp := j.word?.bind ofSymbol?

def BinaryOp.ofJson? (j : Json) : Option BinaryOp := j.word?.bind ofSymbol?

def LogicalOp.ofJson? (j : Json) : Option LogicalOp := j.word?.bind ofSymbol?

def UpdateOp.ofJson? (j : Json) : Option UpdateOp :=
  match j.word? with
  | some "++" => some increment
  | some "--" => some decrement
  | _ => none

def AssignOp.ofJson? : Json → Option AssignOp
  | .obj [("binary", j)] => (BinaryOp.ofJson? j).map binary
  | .obj [("logical", j)] => (LogicalOp.ofJson? j).map logical
  | j => if j.word? = some "=" then some assign else none

namespace Expr

/-- Reads a key, given how its expression is read. -/
def keyOfJson? (read : Json → Option Expr) : Json → Option Key
  | .obj [("Named", j)] => j.str?.map .named
  | .obj [("Computed", j)] => (read j).map .computed
  | _ => none

/-- Reads a field of an object, given how its expressions are read. -/
def fieldOfJson? (read : Json → Option Expr) (j : Json) : Option (Key × Expr) := do
  let fields ← j.record? ["key", "value"]
  return (← Json.need? "key" (keyOfJson? read) fields, ← Json.need? "value" read fields)

/-- The kinds of expressions. -/
def kinds : Json.Kinds where
  names := ["Literal", "Identifier", "Array", "Object", "Sequence", "Unary", "Binary", "Logical", "Assignment",
    "Update", "Member", "Conditional", "Call", "Chain"]
  numbered := true

/-- Reads an expression, no deeper than a bound. -/
def ofJsonWithin? : Nat → Json → Option Expr
  | 0, _ => none
  | depth + 1, j => do
    let fields ← j.record? ["span", "kind"]
    let span ← Json.need? "span" Span.ofJson? fields
    let (kind, j) ← Json.need? "kind" (Json.tagged? kinds) fields
    let one := fun (name : String) (fields : List (String × Json)) =>
      Json.need? name (ofJsonWithin? depth) fields
    let many := fun (name : String) (fields : List (String × Json)) =>
      Json.need? name (Json.list? (ofJsonWithin? depth)) fields
    match kind with
    | "Literal" =>
      let fs ← j.record? ["value"]
      return literal span (← Json.need? "value" (fun j => some (Value.ofJson j)) fs)
    | "Identifier" =>
      let fs ← j.record? ["name"]
      return identifier span (← Json.need? "name" Json.str? fs)
    | "Array" =>
      let fs ← j.record? ["elements"]
      return array span (← many "elements" fs)
    | "Object" =>
      let fs ← j.record? ["properties"]
      return object span
        (← Json.need? "properties" (Json.list? (fieldOfJson? (ofJsonWithin? depth))) fs)
    | "Sequence" =>
      let fs ← j.record? ["expressions"]
      return sequence span (← many "expressions" fs)
    | "Unary" =>
      let fs ← j.record? ["operator", "argument"]
      return unary span (← Json.need? "operator" UnaryOp.ofJson? fs) (← one "argument" fs)
    | "Binary" =>
      let fs ← j.record? ["operator", "left", "right"]
      return binary span (← Json.need? "operator" BinaryOp.ofJson? fs) (← one "left" fs) (← one "right" fs)
    | "Logical" =>
      let fs ← j.record? ["operator", "left", "right"]
      return logical span (← Json.need? "operator" LogicalOp.ofJson? fs) (← one "left" fs) (← one "right" fs)
    | "Assignment" =>
      let fs ← j.record? ["operator", "target", "value"]
      return assignment span (← Json.need? "operator" AssignOp.ofJson? fs) (← one "target" fs)
        (← one "value" fs)
    | "Update" =>
      let fs ← j.record? ["operator", "prefix", "argument"]
      return update span (← Json.need? "operator" UpdateOp.ofJson? fs)
        (← Json.need? "prefix" Json.bool? fs) (← one "argument" fs)
    | "Member" =>
      let fs ← j.record? ["object", "property", "optional"]
      return member span (← one "object" fs) (← Json.need? "property" (keyOfJson? (ofJsonWithin? depth)) fs)
        (← Json.need? "optional" Json.bool? fs)
    | "Conditional" =>
      let fs ← j.record? ["test", "consequent", "alternate"]
      return conditional span (← one "test" fs) (← one "consequent" fs) (← one "alternate" fs)
    | "Call" =>
      let fs ← j.record? ["callee", "arguments", "optional"]
      return call span (← one "callee" fs) (← many "arguments" fs) (← Json.need? "optional" Json.bool? fs)
    | "Chain" =>
      let fs ← j.record? ["expression"]
      return chain span (← one "expression" fs)
    | _ => none

/-- Reads an expression. -/
def ofJson? (j : Json) : Option Expr := ofJsonWithin? (j.depth + 1) j

end Expr

namespace Node

/-- Reads the value of an attribute, given how its parts are read. -/
def valueOfJson? (read : Json → Option Node) : Json → Option AttributeValue
  | .bool true => some .flag
  | .arr items => (items.mapM read).map .nodes
  | _ => none

/-- Reads an attribute, given how the parts of its value are read. -/
def attributeOfJson? (read : Json → Option Node) (j : Json) : Option Attribute := do
  let fields ← j.record? ["span", "name", "value"]
  return .mk (← Json.need? "span" Span.ofJson? fields) (← Json.need? "name" Json.str? fields)
    (← Json.need? "value" (valueOfJson? read) fields)

/-- The kinds of nodes; a node of the document itself gives its name. -/
def kinds (nested : Bool) : Json.Kinds where
  names := ["Fragment", "Config", "Text", "Comment", "MustacheTag", "IfBlock", "ForBlock", "ElementTag"]
  numbered := nested

/-- Reads a node, no deeper than a bound. -/
def ofJsonWithin? : Nat → Bool → Json → Option Node
  | 0, _, _ => none
  | depth + 1, nested, j => do
    let (kind, j) ← Json.tagged? (kinds nested) j
    let many := fun (name : String) (fields : List (String × Json)) =>
      Json.need? name (Json.list? (ofJsonWithin? depth true)) fields
    let other := fun (fields : List (String × Json)) =>
      Json.allow? "elseChildren" (Json.list? (ofJsonWithin? depth true)) fields
    let marks := Json.allow? "status" Progress.ofJson?
    let leaf := fun (make : Span → String → Option Progress → Node) => do
      let fs ← j.record? ["span", "data", "status"]
      return make (← Json.need? "span" Span.ofJson? fs) (← Json.need? "data" Json.str? fs) (← marks fs)
    match kind with
    | "Text" => leaf text
    | "Comment" => leaf comment
    | "Config" => leaf config
    | "MustacheTag" =>
      let fs ← j.record? ["span", "expression", "status"]
      return interpolation (← Json.need? "span" Span.ofJson? fs)
        (← Json.need? "expression" Expr.ofJson? fs) (← marks fs)
    | "IfBlock" =>
      let fs ← j.record? ["span", "expression", "children", "elseChildren", "status"]
      return choice (← Json.need? "span" Span.ofJson? fs) (← Json.need? "expression" Expr.ofJson? fs)
        (← many "children" fs) (← other fs) (← marks fs)
    | "ForBlock" =>
      let fs ← j.record? ["span", "expression", "context", "index", "children", "elseChildren", "status"]
      return loop (← Json.need? "span" Span.ofJson? fs) (← Json.need? "expression" Expr.ofJson? fs)
        (← Json.need? "context" Binding.ofJson? fs) (← Json.allow? "index" Binding.ofJson? fs)
        (← many "children" fs) (← other fs) (← marks fs)
    | "ElementTag" =>
      let fs ← j.record? ["span", "name", "attributes", "children", "status"]
      return element (← Json.need? "span" Span.ofJson? fs)
        (← Json.need? "name" (fun j => j.str?.bind Tag.ofName?) fs)
        (← Json.need? "attributes" (Json.list? (attributeOfJson? (ofJsonWithin? depth true))) fs)
        (← many "children" fs) (← marks fs)
    | "Fragment" =>
      let fs ← j.record? ["span", "children", "status"]
      return group (← Json.need? "span" Span.ofJson? fs) (← many "children" fs) (← marks fs)
    | _ => none

/-- Reads a node of a document. -/
def ofJson? (j : Json) : Option Node := ofJsonWithin? (j.depth + 1) false j

end Node

/-- Reads a document. -/
def Document.ofJson? (j : Json) : Option Document := do
  let fields ← j.record? ["span", "children", "status"]
  return ⟨← Json.need? "span" Span.ofJson? fields,
    ← Json.need? "children" (Json.list? Node.ofJson?) fields,
    ← Json.allow? "status" Progress.ofJson? fields⟩

end PromptScript
