import PromptScript.Document.Node
import PromptScript.Expr.Analysis

/-! # Closed parts

A part with variables of its own reads nothing but its attributes and what it declares itself. `Node.analyzeAll`
finds the reads and declarations of a part, as far as that can be told without evaluating it. -/
namespace PromptScript

/-- The attributes of a step that name the variables it declares. -/
def stepResultNames : List String := ["as", "raw"]

/-- The variables that a step declares. -/
def stepResults (attributes : List Attribute) : List String :=
  stepResultNames.filterMap fun name => (Attribute.find? name attributes).bind (·.value.staticText?)

/-- Declares several names. -/
def Usage.defineAll (names : List String) (u : Usage) : Usage := names.foldl (fun u n => u.define n) u

namespace Node

/-- The state after a branch that started from the same state: its reads and faults count, its declarations
do not. -/
def afterBranch (u : Usage) (branch : Usage × List Fault) : Usage × List Fault := (u.absorb branch.1, branch.2)

mutual

/-- The reads, declarations and faults of a node, after those already found. Parts that are closed
themselves count only with their attributes. -/
def analyze : Node → Usage × List Fault → Usage × List Fault
  | text _ _ _, s => s
  | comment _ _ _, s => s
  | config _ _ _, s => s
  | interpolation _ e _, s => e.analyze s
  | choice _ test body none _, s =>
    let s := test.analyze s
    afterBranch s.1 (analyzeAll body s)
  | choice _ test body (some other) _, s =>
    let s := test.analyze s
    let s := afterBranch s.1 (analyzeAll body s)
    afterBranch s.1 (analyzeAll other s)
  | loop _ items item index body none _, s =>
    let s := items.analyze s
    afterBranch s.1 (analyzeAll body (s.1.defineAll (item.name :: (index.map Binding.name).toList), s.2))
  | loop _ items item index body (some other) _, s =>
    let s := items.analyze s
    let s := afterBranch s.1
      (analyzeAll body (s.1.defineAll (item.name :: (index.map Binding.name).toList), s.2))
    afterBranch s.1 (analyzeAll other s)
  | element _ tag attributes body _, s =>
    let s := analyzeAttributes attributes s
    match tag with
    | .scope => s
    | .step =>
      let (u, faults) := analyzeAll body s
      (u.defineAll (stepResults attributes), faults)
    | _ => analyzeAll body s
  | group _ body _, s => analyzeAll body s

def analyzeAll : List Node → Usage × List Fault → Usage × List Fault
  | [], s => s
  | n :: r, s => analyzeAll r (analyze n s)

def analyzeAttributes : List Attribute → Usage × List Fault → Usage × List Fault
  | [], s => s
  | .mk _ _ value :: r, s => analyzeAttributes r (analyzeValue value s)

def analyzeValue : AttributeValue → Usage × List Fault → Usage × List Fault
  | .flag, s => s
  | .nodes parts, s => analyzeAll parts s

end

/-- What is wrong with a closed part: the reads of names that are neither given to it nor declared in it. -/
def closureFaults (names : List String) (body : List Node) : List Fault :=
  (analyzeAll body (Usage.start (some (Names.ofList names)), [])).2

end Node
end PromptScript
