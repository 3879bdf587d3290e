import PromptScript.Defect
import PromptScript.Expr.Evaluation

/-! # Reads and declarations

Which names an expression reads before anything declares them, and which it declares, found without
evaluating it. -/
namespace PromptScript

/-- What is known of the names at a place in a document. -/
structure Usage where
  /-- The only names that may be read undeclared, if there is such a list. -/
  allowed : Option Names
  /-- The names read before they were declared. -/
  used : Names
  /-- The names declared so far. -/
  defined : Names
  deriving Inhabited, Repr, DecidableEq

namespace Usage

/-- Nothing read, nothing declared. -/
def start (allowed : Option Names) : Usage := ⟨allowed, [], []⟩

/-- Declares a name. -/
def define (name : String) (u : Usage) : Usage := { u with defined := Names.insert name u.defined }

/-- Records a read of an undeclared name. -/
def use (name : String) (u : Usage) : Usage := { u with used := Names.insert name u.used }

/-- Takes over the reads of a branch, but not its declarations. -/
def absorb (u branch : Usage) : Usage := { u with used := Names.union u.used branch.used }

/-- A read of a name: of no account if the name is declared, recorded if reads are free, a fault if the name is
not among those allowed. -/
def read (name : String) (span : Span) (u : Usage) : Usage × List Fault :=
  if name = nowName ∨ name ∈ u.defined then (u, [])
  else match u.allowed with
    | none => (u.use name, [])
    | some names => (u, if name ∈ names then [] else [⟨.variableNotDeclared name, span⟩])

end Usage

namespace Expr

mutual

/-- The reads and declarations of an expression, from left to right; of an assignment, those of the value
come first. Faults follow those already found. -/
def analyze : Expr → Usage × List Fault → Usage × List Fault
  | literal _ _, s => s
  | identifier span name, (u, faults) =>
    let (u, more) := u.read name span
    (u, faults ++ more)
  | array _ items, s => analyzeItems items s
  | object _ fields, s => analyzeFields fields s
  | sequence _ items, s => analyzeItems items s
  | unary _ _ e, s => analyze e s
  | binary _ _ a b, s => analyze b (analyze a s)
  | logical _ _ a b, s => analyze b (analyze a s)
  | conditional _ test a b, s => analyze b (analyze a (analyze test s))
  | assignment _ op target value, s =>
    let s := analyze value s
    match op, target with
    | .assign, identifier _ name => (s.1.define name, s.2)
    | _, target => analyze target s
  | update _ _ _ e, s => analyze e s
  | member _ base key _, s => analyzeKey key (analyze base s)
  | call _ callee arguments _, s => analyzeItems arguments (analyze callee s)
  | chain _ e, s => analyze e s

def analyzeItems : List Expr → Usage × List Fault → Usage × List Fault
  | [], s => s
  | e :: r, s => analyzeItems r (analyze e s)

def analyzeFields : List (Key × Expr) → Usage × List Fault → Usage × List Fault
  | [], s => s
  | (key, e) :: r, s => analyzeFields r (analyze e (analyzeKey key s))

def analyzeKey : Key → Usage × List Fault → Usage × List Fault
  | .named _, s => s
  | .computed e, s => analyze e s

end

end Expr
end PromptScript
