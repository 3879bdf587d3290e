import PromptScript.Text.Span

/-! # Arguments

The words after a command's name. A word with one dash in front is a short flag, with two dashes a long one; each
flag but the request for help takes a value, in the same word or in the next one. Two dashes alone end the
flags. -/
namespace PromptScript.CommandLine

/-- A flag with a value. -/
structure Flag where
  long : String
  short : Option Char := none
  /-- It may be given more than once. -/
  repeats : Bool := false
  /-- The values it takes. -/
  takes : String → Bool := fun _ => true

/-- Why the arguments are no command. -/
inductive Refusal where
  /-- They ask for help. -/
  | help
  | misuse
  deriving DecidableEq, Repr, Inhabited

/-- What arguments say. -/
structure Given where
  /-- The words that belong to no flag. -/
  operands : List String := []
  /-- The values of flags by their long names, in order. -/
  values : List (String × String) := []
  deriving DecidableEq, Repr, Inhabited

/-- A word by its form. -/
inductive Word where
  | operand
  /-- The end of the flags. -/
  | divider
  | long (name : String) (value : Option String)
  /-- The rest of the word is not read yet. -/
  | short (name : Char) (rest : List Char)
  deriving DecidableEq, Repr, Inhabited

namespace Word

/-- The form of a word. A dash alone is an operand. -/
def of (word : String) : Word :=
  match word.toList with
  | ['-', '-'] => divider
  | '-' :: '-' :: cs =>
    match cs.span (· != '=') with
    | (name, _ :: value) => long (String.ofList name) (some (String.ofList value))
    | (name, []) => long (String.ofList name) none
  | '-' :: c :: cs => short c cs
  | _ => operand

/-- The value that stands in the word of a short flag. -/
def attached? : List Char → Option String
  | [] => none
  | '=' :: cs => some (String.ofList cs)
  | cs => some (String.ofList cs)

end Word

namespace Given

/-- The last value of a flag. -/
def value? (g : Given) (long : String) : Option String :=
  ((g.values.filter fun v => v.1 == long).map Prod.snd).getLast?

/-- The values of a flag in order. -/
def allValues (g : Given) (long : String) : List String :=
  (g.values.filter fun v => v.1 == long).map Prod.snd

/-- With one more value of a flag. -/
def addValue (f : Flag) (value : String) (g : Given) : Except Refusal Given :=
  if (!f.repeats && (g.value? f.long).isSome) || !f.takes value then .error .misuse
  else .ok { g with values := g.values ++ [(f.long, value)] }

/-- With one more operand; operands are paths, which are not empty. -/
def addOperand (limit : Nat) (g : Given) (word : String) : Except Refusal Given :=
  if limit ≤ g.operands.length || word = "" then .error .misuse
  else .ok { g with operands := g.operands ++ [word] }

end Given

/-- What a flag in a word amounts to. -/
inductive FlagUse where
  | help
  | unknown
  /-- A flag, and its value if that is in the same word. -/
  | known (f : Flag) (value : Option String)

/-- The flag in a word. -/
def flagUse (flags : List Flag) : Word → FlagUse
  | .long "help" none => .help
  | .long name value =>
    match flags.find? (·.long == name) with
    | some f => .known f value
    | none => .unknown
  | .short 'h' _ => .help
  | .short c rest =>
    match flags.find? (·.short == some c) with
    | some f => .known f (Word.attached? rest)
    | none => .unknown
  | _ => .unknown

/-- Reads words with no more than a number of operands. -/
def readWords (flags : List Flag) (limit : Nat) : List String → Given → Except Refusal Given
  | [], g => .ok g
  | word :: r, g =>
    match Word.of word with
    | .divider => r.foldlM (Given.addOperand limit) g
    | .operand => do readWords flags limit r (← g.addOperand limit word)
    | w =>
      match flagUse flags w, r with
      | .help, _ => .error .help
      | .unknown, _ => .error .misuse
      | .known f (some value), r => do readWords flags limit r (← g.addValue f value)
      | .known _ none, [] => .error .misuse
      | .known f none, value :: r =>
        if Word.of value = .operand then do readWords flags limit r (← g.addValue f value)
        else .error .misuse

/-- Splits words before the first operand. -/
def beforeOperand (flags : List Flag) : List String → List String × List String
  | [] => ([], [])
  | word :: r =>
    match Word.of word with
    | .divider => (word :: r, [])
    | .operand => ([], word :: r)
    | w =>
      match flagUse flags w, r with
      | .known _ none, value :: r =>
        let (before, rest) := beforeOperand flags r
        (word :: value :: before, rest)
      | _, r =>
        let (before, rest) := beforeOperand flags r
        (word :: before, rest)

end PromptScript.CommandLine
