import PromptScript.Survey.Basic

/-! # The walk of a survey

Visits every node, also those that a rendering would leave out, and follows references into the documents they
name. Branches see what was declared before them, and what they declare ends with them. -/
namespace PromptScript.Survey

/-- Where a node stands. -/
structure Setting where
  inStep : Bool := false
  inMessage : Bool := false
  inContent : Bool := false
  /-- Not inside any block or tag. -/
  atRoot : Bool := false
  deriving Repr, Inhabited

/-- What is done at a reference: its span, attributes and body are given. -/
abbrev Follow := Span → List Attribute → List Node → Usage → Survey Usage

/-- Reports those names that are not given. -/
def reportMissing (names given : Names) (span : Span) : Survey Unit :=
  (names.filter fun name => !given.contains name).forM fun name => report (.referenceMissingParameter name) span

/-! ## Tags

Each function is given the walk over the body of the tag. -/

/-- A content tag. -/
def content (at_ : Setting) (span : Span) (kind : Option ContentKind) (attributes : List Attribute) (u : Usage)
    (body : Usage → Survey Usage) : Survey Usage := do
  if at_.inContent then report .contentTagInsideContent span
  if kind = some .toolCall then
    modify fun s => { s with calls := s.calls ++ [span] }
    let (names, u) ← attributeNames [] attributes [] u
    if !names.contains "id" then report .toolCallTagWithoutId span
    if !names.contains "name" then report .toolCallWithoutName span
    body u
  else body u

/-- The body of a message of a role, as far as the role is known. -/
def messageBody (role : Option Role) (u : Usage) (body : Usage → Survey Usage) : Survey Usage := do
  reportCalls
  let u ← body u
  if role.any (· != .assistant) then reportCalls
  dropCalls
  return u

/-- What the message of a tool lacks. -/
def toolLack? (role : Option Role) (names : Names) : Option Defect :=
  if role != some .tool then none
  else if !names.contains "id" then some .toolMessageWithoutId
  else if !names.contains "name" then some .toolMessageWithoutName
  else none

/-- A message tag. -/
def message (at_ : Setting) (span : Span) (role : Option Role) (attributes : List Attribute) (u : Usage)
    (body : Usage → Survey Usage) : Survey Usage := do
  if at_.inContent || at_.inMessage then report .messageTagInsideMessage span
  let (names, u) ← attributeNames [] attributes [] u
  if role.isNone && !names.contains "role" then
    report .messageTagWithoutRole span
    return u
  let role := role.or (((Attribute.find? "role" attributes).bind (·.value.staticText?)).bind Role.ofName?)
  match toolLack? role names with
  | some lack =>
    report lack span
    return u
  | none => messageBody role u body

/-- A closed part. -/
def closed (span : Span) (attributes : List Attribute) (u : Usage) (body : Usage → Survey Usage) :
    Survey Usage := do
  let (names, u) ← attributeNames [] attributes [] u
  let inner ← body ⟨u.allowed, [], names⟩
  reportMissing inner.used names span
  return u

/-- A step. -/
def step (at_ : Setting) (span : Span) (attributes : List Attribute) (u : Usage) (body : Usage → Survey Usage) :
    Survey Usage := do
  modify fun s => { s with steps := s.steps + 1 }
  if at_.inStep then report .stepTagInsideStep span
  let (_, u) ← attributeNames stepResultNames attributes [] u
  let u ← body u
  return u.defineAll (stepResults attributes)

/-- The names that a loop declares, or the first one that is declared already. -/
def loopNames (u : Usage) : List Binding → Except Binding (List String)
  | [] => .ok []
  | b :: r => if u.defined.contains b.name then .error b else (loopNames u r).map (b.name :: ·)

/-- The body of a loop. -/
def loopBody (item : Binding) (index : Option Binding) (u : Usage) (body : Usage → Survey Usage) :
    Survey Usage := do
  match loopNames u (item :: index.toList) with
  | .error b =>
    report (.variableAlreadyDeclared b.name) b.span
    return u
  | .ok names => return u.absorb (← body (u.defineAll names))

/-! ## Nodes -/

mutual

/-- Visits a node. -/
def walk (check : Option (Config → Option String)) (follow : Follow) (at_ : Setting) :
    Node → Usage → Survey Usage
  | .group _ body _, u => walkAll check follow at_ body u
  | .comment span _ _, u => do
    splice span []
    return u
  | .config span data _, u => do
    header check at_.atRoot span data
    return u
  | .text _ data _, u => do
    if !Text.allBlank data.toList then markContent
    return u
  | .interpolation _ e _, u => do
    markContent
    track e u
  | .choice _ test body none _, u => do
    let inner := { at_ with atRoot := false }
    let u ← track test u
    return u.absorb (← walkAll check follow inner body u)
  | .choice _ test body (some other) _, u => do
    let inner := { at_ with atRoot := false }
    let u ← track test u
    let u := u.absorb (← walkAll check follow inner body u)
    return u.absorb (← walkAll check follow inner other u)
  | .loop _ items item index body none _, u => do
    let u ← track items u
    loopBody item index u (walkAll check follow { at_ with atRoot := false } body)
  | .loop _ items item index body (some other) _, u => do
    let inner := { at_ with atRoot := false }
    let u ← track items u
    let u := u.absorb (← walkAll check follow inner other u)
    loopBody item index u (walkAll check follow inner body)
  | .element span tag attributes body _, u => do
    markContent
    let inner := { at_ with atRoot := false }
    match tag with
    | .content kind =>
      content inner span kind attributes u (walkAll check follow { inner with inContent := true } body)
    | .message role =>
      message inner span role attributes u (walkAll check follow { inner with inMessage := true } body)
    | .reference => follow span attributes body u
    | .scope => closed span attributes u (walkAll check follow inner body)
    | .step => step inner span attributes u (walkAll check follow { inner with inStep := true } body)

/-- Visits nodes in order. -/
def walkAll (check : Option (Config → Option String)) (follow : Follow) (at_ : Setting) :
    List Node → Usage → Survey Usage
  | [], u => return u
  | n :: r, u => do walkAll check follow at_ r (← walk check follow at_ n u)

end

end PromptScript.Survey
