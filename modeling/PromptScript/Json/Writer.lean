import PromptScript.Json.Basic
import PromptScript.Number.Layout

/-! # JSON text, written

Two forms of the same text: `Json.compact` on one line without blanks, and `Json.pretty` with one field
or item a line and two more blanks for each level. -/
namespace PromptScript.Json

/-- A character inside a string: the quote, the backslash and the control characters are escaped. -/
def escape (c : Char) : List Char :=
  if c = '"' then ['\\', '"']
  else if c = '\\' then ['\\', '\\']
  else if 0x20 ≤ c.toNat then [c]
  else if c = '\n' then ['\\', 'n']
  else if c = '\r' then ['\\', 'r']
  else if c = '\t' then ['\\', 't']
  else if c.toNat = 8 then ['\\', 'b']
  else if c.toNat = 12 then ['\\', 'f']
  else
    let low := c.toNat % 16
    ['\\', 'u', '0', '0', if c.toNat < 16 then '0' else '1',
      Char.ofNat (if low < 10 then 48 + low else 87 + low)]

/-- A string between quotes. -/
def quote (s : String) : List Char := '"' :: (s.toList.flatMap escape ++ ['"'])

/-- The text of a value that holds no others. -/
def scalar : Json → List Char
  | .null => "null".toList
  | .bool b => (if b then "true" else "false").toList
  | .int n => (if n < 0 then ['-'] else []) ++ Number.digitsOf n.natAbs
  | .float x => Number.inJson.write x
  | .str s => quote s
  | .arr _ => ['[', ']']
  | .obj _ => ['\x7b', '\x7d']

mutual

/-- The text on one line. -/
def compact : Json → List Char
  | .arr items => '[' :: (compactItems items ++ [']'])
  | .obj fields => '\x7b' :: (compactFields fields ++ ['\x7d'])
  | j => scalar j

def compactItems : List Json → List Char
  | [] => []
  | [j] => compact j
  | j :: r => compact j ++ ',' :: compactItems r

def compactFields : List (String × Json) → List Char
  | [] => []
  | [(k, j)] => quote k ++ ':' :: compact j
  | (k, j) :: r => quote k ++ ':' :: (compact j ++ ',' :: compactFields r)

end

/-- A new line at a level. -/
def newline (level : Nat) : List Char := '\n' :: List.replicate (2 * level) ' '

mutual

/-- The text over several lines, for a value at a level. -/
def prettyAt (level : Nat) : Json → List Char
  | .arr (j :: r) => '[' :: (prettyItems (level + 1) (j :: r) ++ newline level ++ [']'])
  | .obj (f :: r) => '\x7b' :: (prettyFields (level + 1) (f :: r) ++ newline level ++ ['\x7d'])
  | j => scalar j

def prettyItems (level : Nat) : List Json → List Char
  | [] => []
  | [j] => newline level ++ prettyAt level j
  | j :: r => newline level ++ prettyAt level j ++ ',' :: prettyItems level r

def prettyFields (level : Nat) : List (String × Json) → List Char
  | [] => []
  | [(k, j)] => newline level ++ quote k ++ ':' :: ' ' :: prettyAt level j
  | (k, j) :: r =>
    newline level ++ quote k ++ ':' :: ' ' :: (prettyAt level j ++ ',' :: prettyFields level r)

end

/-- The text on one line. -/
def toText (j : Json) : String := String.ofList (compact j)

/-- The text over several lines. -/
def pretty (j : Json) : String := String.ofList (prettyAt 0 j)

end PromptScript.Json
