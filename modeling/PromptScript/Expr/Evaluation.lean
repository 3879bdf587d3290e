import PromptScript.Defect
import PromptScript.Expr.Basic
import PromptScript.Scope

/-! # Evaluation

The value of an expression, with its effects: names are written, and functions that the caller supplied are
called. `Machine` holds all that an evaluation may change. A fault ends the evaluation and leaves the machine
as it was when the fault was met. What names mean is left to `Variables`; here they are those of the scope in
view. -/
namespace PromptScript

/-- What the caller supplies: the answers of its functions, each known by its identity, and the clock. A
function may remember its calls in a state of the caller's own. -/
structure Host (σ : Type) where
  call : Nat → List Value → σ → Except String Value × σ
  now : σ → Int

/-- What outlives every scope: the next identity of a built-in member, and the caller's state. -/
structure World (σ : Type) where
  fresh : Nat
  host : σ

/-- A world, with the names and cells in view. -/
structure Machine (σ : Type) extends World σ where
  scope : Scope

/-- A computation on the machine that may end with a fault. -/
abbrev Eval (σ : Type) := ExceptT Fault (StateM (Machine σ))

/-- What gives expressions their values. -/
abbrev Evaluator (σ : Type) := Expr → Eval σ Value

/-- What an evaluation does with names. -/
structure Variables (σ : Type) where
  /-- The value of a known name. -/
  get? : String → Eval σ (Option Value)
  /-- Gives a name a value, whether or not it is known. -/
  set : String → Value → Eval σ Unit

/-- The names of the scope in view. -/
def Variables.inScope {σ : Type} : Variables σ where
  get? name := return (← get).scope.get? name
  set name value := modify fun m => { m with scope := m.scope.set name value }

/-- The name that stands for the present time, whatever is assigned to it. -/
def nowName : String := "$now"

namespace Expr

variable {σ : Type} (vars : Variables σ) (host : Host σ)

/-- Ends with a defect at a span. -/
def fail {α : Type} (defect : Defect) (span : Span) : Eval σ α := throw ⟨defect, span⟩

/-- The value of a name: the present time, or that of the variable; unknown names are undefined. -/
def readName (name : String) : Eval σ Value := do
  if name = nowName then return .date (host.now (← get).host)
  else return (← vars.get? name).getD .undefined

/-- Reads a member; `none` for what has no members. -/
def readMember? (object key : Value) : Eval σ (Option Value) := do
  let m ← get
  set { m with fresh := m.fresh + 1 }
  return object.getMember? m.fresh key

/-- Calls a function with arguments; a value of another kind is `none`. -/
def callFunction? (function : Value) (args : List Value) : Eval σ (Option (Except String Value)) := do
  match function with
  | .callable identity =>
    let m ← get
    let (answer, host) := host.call identity args m.host
    set { m with host := host }
    return some answer
  | .method _ receiver builtin => return some (.ok (receiver.callBuiltin builtin args))
  | _ => return none

/-- A field of an object or an item of an array that is there. -/
def childOf? (container key : Value) : Option Value :=
  match container with
  | .object fields => Fields.get? key.toText fields
  | .array items => (Value.indexOfKey? key.toText).bind fun i => items[i]?
  | _ => none

/-- The old and the new value at a path into a value, and the whole with the new one in place. Every step of
the path has to be there. -/
def writeAt (missing : Value → Fault) (compute : Value → Except Fault Value) :
    Value → List Value → Except Fault (Value × Value × Value)
  | old, [] => do
    let new ← compute old
    return (old, new, new)
  | container, key :: path =>
    match childOf? container key with
    | none => throw (missing key)
    | some child => do
      let (old, new, child') ← writeAt missing compute child path
      match container.setOwn? key child' with
      | some container' => return (old, new, container')
      | none => throw (missing key)

/-- What a message calls the object that a target lies in. -/
def placeLabel (target : Expr) (root : String) : String :=
  match target with
  | member _ base _ _ => base.describe
  | _ => root

/-- Writes anew what a target, a variable and a path of keys into its value, holds. -/
def modifyPlace (target : Expr) (root : String) (path : List Value)
    (compute : Value → Except Fault Value) : Eval σ (Value × Value) := do
  match ← vars.get? root with
  | none => fail (.variableNotDeclared root) target.span
  | some value =>
    let missing := fun (key : Value) =>
      Fault.mk (.propertyNotExists (placeLabel target root) key.toText) target.span
    match writeAt missing compute value path with
    | .error fault => throw fault
    | .ok (old, new, value') =>
      vars.set root value'
      return (old, new)

/-- Writes a value to the place a target names. A target that names no place takes the value without
effect. -/
def writePlace (target : Expr) (place : Option (String × List Value)) (v : Value) : Eval σ Unit := do
  match place with
  | none => return ()
  | some (root, path) =>
    let _ ← modifyPlace vars target root path fun _ => .ok v
    return ()

/-- A variable that is combined with its old value has to be known. -/
def checkDeclared (target : Expr) : Eval σ Unit := do
  match target with
  | identifier span name =>
    if (← vars.get? name).isSome then return () else fail (.variableNotDeclared name) span
  | _ => return ()

/-- The number that an update changes a value by. -/
def step : UpdateOp → Float
  | .increment => 1
  | .decrement => -1

/-- The value after an update; only numbers have one. -/
def updated (op : UpdateOp) (span : Span) : Value → Except Fault Value
  | .number x => .ok (.number (x + step op))
  | v => .error ⟨.invalidUpdate v.toRendered, span⟩

/-- The value of a link: a chain that has stopped is undefined. -/
def settled (v : Option Value) : Value := v.getD .undefined

mutual

/-- The value of an expression as a link of a chain; `none` once an optional link before it has found
nothing. Only members and calls can stop a chain: anything else settles its own. -/
def link : Expr → Eval σ (Option Value)
  | literal _ value => return some value
  | identifier _ name => return some (← readName vars host name)
  | array _ items => return some (.array (← evalItems items))
  | object _ fields => return some (.object (← evalFields fields []))
  | sequence _ items => return some (← evalLast items .undefined)
  | unary _ op e => return some (Value.unary op (settled (← link e)))
  | binary _ op a b => do
    let left := settled (← link a)
    let right := settled (← link b)
    return some (Value.binary op left right)
  | logical _ op a b => do
    let left := settled (← link a)
    if op.decidedBy left then return some left
    return some (settled (← link b))
  | conditional _ test a b => do
    if (settled (← link test)).isTruthy then return some (settled (← link a))
    return some (settled (← link b))
  | assignment _ op target value =>
    match op with
    | .assign =>
      match target with
      | identifier _ name => do
        let v := settled (← link value)
        vars.set name v
        return some v
      | target => do
        let v := settled (← link value)
        writePlace vars target (← place? target) v
        return some v
    | .binary op => do
      checkDeclared vars target
      let current := settled (← link target)
      let v := Value.binary op current (settled (← link value))
      writePlace vars target (← place? target) v
      return some v
    | .logical op => do
      checkDeclared vars target
      let current := settled (← link target)
      if op.decidedBy current then return some current
      let v := settled (← link value)
      writePlace vars target (← place? target) v
      return some v
  | update _ op before e => do
    match ← place? e with
    | none => fail (.invalidUpdate e.describe) e.span
    | some (root, path) =>
      let (old, new) ← modifyPlace vars e root path (updated op e.span)
      return some (if before then new else old)
  | member span base key optional => do
    match ← link base with
    | none => return none
    | some target =>
      if optional && target.isNullish then return none
      let name ← evalKey key
      match ← readMember? target name with
      | some v => return some v
      | none => fail (.propertyNotExists base.describe name.toText) span
  | call span callee arguments optional => do
    match ← link callee with
    | none => return none
    | some function =>
      if optional && function.isNullish then return none
      let args ← evalItems arguments
      match ← callFunction? host function args with
      | none => fail (.notAFunction callee.describe) callee.span
      | some (.error reason) => fail (.functionCallFailed reason) span
      | some (.ok v) => return some v
  | chain _ e => return some (settled (← link e))

def evalItems : List Expr → Eval σ (List Value)
  | [] => return []
  | e :: r => do
    let v := settled (← link e)
    return v :: (← evalItems r)

/-- The value of the last expression, after all before it. -/
def evalLast : List Expr → Value → Eval σ Value
  | [], last => return last
  | e :: r, _ => do
    let v := settled (← link e)
    evalLast r v

/-- The fields of an object, added to those before them. -/
def evalFields : List (Key × Expr) → List (String × Value) → Eval σ (List (String × Value))
  | [], fields => return fields
  | (key, e) :: r, fields => do
    let name ← evalKey key
    let v := settled (← link e)
    evalFields r (Fields.set name.toText v fields)

def evalKey : Key → Eval σ Value
  | .named name => return .string name
  | .computed e => return settled (← link e)

/-- The variable and the path of keys that a target names; `none` if it names no place. -/
def place? : Expr → Eval σ (Option (String × List Value))
  | identifier _ name => return some (name, [])
  | member _ base key false => do
    match ← place? base with
    | none => return none
    | some (root, path) =>
      let name ← evalKey key
      return some (root, path ++ [name])
  | _ => return none

end

/-- The value of an expression, whatever the names in it mean. -/
def evalWith : Evaluator σ := fun e => return settled (← link vars host e)

/-- The value of an expression, with the names of the scope in view. -/
def eval : Evaluator σ := evalWith .inScope host

end Expr
end PromptScript
