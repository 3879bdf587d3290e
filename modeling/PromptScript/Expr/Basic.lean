import PromptScript.Text.Span
import PromptScript.Value.Operator

/-! # Expressions

The syntax of the expressions between double braces. Every expression knows the span of the source it was
read from. -/
namespace PromptScript

/-- `=`, and the assignments that combine the old value with a new one. -/
inductive AssignOp where
  | assign
  | binary (op : BinaryOp)
  | logical (op : LogicalOp)
  deriving DecidableEq, Repr, Inhabited

/-- `++` and `--`. -/
inductive UpdateOp where
  | increment | decrement
  deriving DecidableEq, Repr, Inhabited

mutual

inductive Expr where
  | literal (span : Span) (value : Value)
  | identifier (span : Span) (name : String)
  | array (span : Span) (items : List Expr)
  | object (span : Span) (fields : List (Key × Expr))
  /-- Expressions between commas; the last one gives the value. -/
  | sequence (span : Span) (items : List Expr)
  | unary (span : Span) (op : UnaryOp) (argument : Expr)
  | binary (span : Span) (op : BinaryOp) (left right : Expr)
  | logical (span : Span) (op : LogicalOp) (left right : Expr)
  | assignment (span : Span) (op : AssignOp) (target value : Expr)
  | update (span : Span) (op : UpdateOp) (before : Bool) (argument : Expr)
  | member (span : Span) (base : Expr) (key : Key) (optional : Bool)
  | conditional (span : Span) (test consequent alternate : Expr)
  | call (span : Span) (callee : Expr) (arguments : List Expr) (optional : Bool)
  /-- The extent of a chain of members and calls: where an optional link finds nothing, all of it is
  undefined. -/
  | chain (span : Span) (inner : Expr)
  deriving Repr

/-- What names a member or a field: a name as written, or the value of an expression. -/
inductive Key where
  | named (name : String)
  | computed (e : Expr)
  deriving Repr

end

instance : Inhabited Expr := ⟨.literal ⟨0, 0⟩ .undefined⟩

namespace Expr

/-- Where the expression stands in the source. -/
def span : Expr → Span
  | literal span _ | identifier span _ | array span _ | object span _ | sequence span _
  | unary span _ _ | binary span _ _ _ | logical span _ _ _ | assignment span _ _ _
  | update span _ _ _ | member span _ _ _ | conditional span _ _ _ | call span _ _ _
  | chain span _ => span

/-- The same expression with another span. -/
def withSpan (span : Span) : Expr → Expr
  | literal _ value => literal span value
  | identifier _ name => identifier span name
  | array _ items => array span items
  | object _ fields => object span fields
  | sequence _ items => sequence span items
  | unary _ op e => unary span op e
  | binary _ op a b => binary span op a b
  | logical _ op a b => logical span op a b
  | assignment _ op target value => assignment span op target value
  | update _ op before e => update span op before e
  | member _ base key optional => member span base key optional
  | conditional _ test a b => conditional span test a b
  | call _ callee arguments optional => call span callee arguments optional
  | chain _ e => chain span e

/-- The name, if the expression is a variable and nothing more. -/
def name? : Expr → Option String
  | identifier _ name => some name
  | _ => none

/-- Whether the expression is an assignment; it then renders as nothing. -/
def isAssignment : Expr → Bool
  | assignment _ _ _ _ => true
  | _ => false

/-- A short description of an expression for messages. -/
def describe : Expr → String
  | identifier _ name => name
  | member _ base (.named name) optional => describe base ++ (if optional then "?." else ".") ++ name
  | member _ base (.computed _) _ => describe base ++ "[…]"
  | call _ callee _ _ => describe callee ++ "(…)"
  | chain _ e => describe e
  | literal _ value => value.toRendered
  | _ => "expression"

end Expr
end PromptScript
