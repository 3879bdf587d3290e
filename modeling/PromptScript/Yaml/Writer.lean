import PromptScript.Number.Layout
import PromptScript.Yaml.Scalar
import PromptScript.Yaml.Token

/-! # YAML text, written

Collections are written as blocks, a list not indented further than the field it is the value of. Strings are
written bare where they read back as themselves, otherwise in quotes, and text of several lines as a literal
block. -/
namespace PromptScript.Yaml

/-! ## How a string is written -/

inductive Quoting where
  | bare | single | double | literal
  deriving DecidableEq, Repr, Inhabited

/-- Characters that are written as themselves. -/
def isPrintable (c : Char) : Bool :=
  let n := c.toNat
  n == 0x0A || (0x20 ≤ n && n ≤ 0x7E) || (0xA0 ≤ n && n ≤ 0xFFFD && n != 0xFEFF) || 0x10000 ≤ n

/-- Characters that mean something at the start of a bare scalar. -/
def isIndicator (c : Char) : Bool :=
  ['#', ',', '[', ']', '\x7b', '\x7d', '&', '*', '!', '|', '>', '\'', '"', '%', '@', Char.ofNat 0x60].contains c

/-- Whether a text, after a blank or not, holds what would end a bare scalar: a colon before a gap, or a `#` after
one. -/
def holdsMark : Bool → List Char → Bool
  | _, [] => false
  | afterGap, c :: r =>
    (c == ':' && atGap r) || (c == '#' && afterGap) || holdsMark (isBlank c || isBreak c) r

/-- Whether a text starts with what would not be read as a bare scalar. -/
def startsMarked : List Char → Bool
  | [] => false
  | c :: r => isIndicator c || ((c == '?' || c == '-') && atGap r)

/-- Whether somewhere in a text a character of the first kind stands before one of the second. -/
def holdsPair (p q : Char → Bool) : List Char → Bool
  | a :: b :: r => (p a && q b) || holdsPair p q (b :: r)
  | _ => false

/-- Whether the first or the last character satisfies `p`. -/
def atEdge (p : Char → Bool) (cs : List Char) : Bool := cs.head?.any p || cs.getLast?.any p

/-- What a text allows: which ways of writing it read back as it. -/
structure Allowed where
  bare : Bool
  single : Bool
  literal : Bool

/-- The ways in which a text may be written. -/
def allowed (cs : List Char) : Allowed :=
  let space := fun (c : Char) => c == ' '
  let escaped := holdsPair space isBreak cs || cs.any fun c => !isPrintable c
  let folded := holdsPair isBreak space cs
  let marked := Text.startsWith ['-', '-', '-'] cs || Text.startsWith ['.', '.', '.'] cs || startsMarked cs ||
    holdsMark true cs
  { bare := !(escaped || folded || marked || cs.any isBreak || atEdge (fun c => space c || isBreak c) cs)
    single := !(escaped || folded)
    literal := !(cs.getLast?.any space || escaped || cs.isEmpty) }

/-- Whether a text written bare would be read as something else. -/
def readsOtherwise (s : String) : Bool :=
  match meaning s with
  | .text => isPadded s.toList
  | _ => true

/-- How a string is written. -/
def quoting (s : String) : Quoting :=
  let cs := s.toList
  let a := allowed cs
  if cs.contains '\n' then (if a.literal then .literal else .double)
  else if !readsOtherwise s && a.bare then .bare
  else if a.single then .single
  else .double

/-! ## Writing -/

/-- The text so far, last character first, and where it stands. -/
structure Pen where
  written : List Char
  column : Nat
  /-- No blank is needed before the next item. -/
  spaced : Bool
  /-- Nothing but blanks and the marks of blocks stands on this line. -/
  fresh : Bool
  deriving Inhabited

namespace Pen

/-- Before any text. -/
def start : Pen := ⟨[], 0, true, true⟩

/-- Writes a character that is no line break. -/
def put (c : Char) (p : Pen) : Pen := { p with written := c :: p.written, column := p.column + 1 }

/-- Writes a line break. -/
def putBreak (c : Char) (p : Pen) : Pen := { p with written := c :: p.written, column := 0 }

/-- Moves to a column, on this line if there is nothing on it. -/
def indent (n : Nat) (p : Pen) : Pen :=
  let p := if !p.fresh || n < p.column || (p.column == n && !p.spaced) then p.putBreak '\n' else p
  { written := List.replicate (n - p.column) ' ' ++ p.written, column := max p.column n, spaced := true,
    fresh := true }

/-- Writes a blank where one is needed. -/
def space (p : Pen) : Pen := if p.spaced then p else p.put ' '

/-- Writes a mark. The mark of a block leaves the line open for the first item of a block in it. -/
def mark (text : List Char) (opensBlock : Bool) (p : Pen) : Pen :=
  { text.foldl (fun p c => p.put c) p with spaced := false, fresh := p.fresh && opensBlock }

/-- Writes a text as it is. -/
def bare (cs : List Char) (p : Pen) : Pen := p.space.mark cs false

/-- Writes a text in single quotes, with a quote written twice. Lines after a break are indented to a
column. -/
def single (column : Nat) (cs : List Char) (p : Pen) : Pen :=
  let rec go (broken : Bool) (p : Pen) : List Char → Pen
    | [] => if broken then p.indent column else p
    | c :: r =>
      if isBreak c then go true { p.putBreak c with fresh := true } r
      else
        let p := if broken then p.indent column else p
        let p := if c == '\'' then p.put '\'' else p
        go false { p.put c with fresh := false } r
  (go false (p.space.mark ['\''] false) cs).mark ['\''] false

/-- A character in double quotes. -/
def doubleChar (c : Char) : List Char :=
  let hex := fun (width n : Nat) =>
    let ds := (Nat.toDigits 16 n).map Char.toUpper
    List.replicate (width - ds.length) '0' ++ ds
  if isPrintable c && !isBreak c && c != '"' && c != '\\' then [c]
  else
    let n := c.toNat
    '\\' :: (match n with
      | 0 => ['0']
      | 7 => ['a']
      | 8 => ['b']
      | 9 => ['t']
      | 10 => ['n']
      | 11 => ['v']
      | 12 => ['f']
      | 13 => ['r']
      | 27 => ['e']
      | 34 => ['"']
      | 92 => ['\\']
      | 0x85 => ['N']
      | 0x2028 => ['L']
      | 0x2029 => ['P']
      | n => if n ≤ 0xFF then 'x' :: hex 2 n else if n ≤ 0xFFFF then 'u' :: hex 4 n else 'U' :: hex 8 n)

/-- Writes a text in double quotes. -/
def double (cs : List Char) (p : Pen) : Pen :=
  p.space.mark ('"' :: (cs.flatMap doubleChar ++ ['"'])) false

/-- What follows the sign of a literal block: the width of its indentation, where the text starts with a blank or
a break, and how its end is to be read. -/
def literalHead (cs : List Char) : List Char :=
  let lead := if cs.head?.any fun c => c == ' ' || isBreak c then ['2'] else []
  let tail := match cs.reverse with
    | [] => ['-']
    | [c] => if isBreak c then ['+'] else ['-']
    | c :: d :: _ => if !isBreak c then ['-'] else if isBreak d then ['+'] else []
  lead ++ tail

/-- Writes a text as a literal block whose lines are indented to a column. -/
def literal (column : Nat) (cs : List Char) (p : Pen) : Pen :=
  let p := (p.space.mark ('|' :: literalHead cs) false).putBreak '\n'
  let rec go (broken : Bool) (p : Pen) : List Char → Pen
    | [] => p
    | c :: r =>
      if isBreak c then go true { p.putBreak c with fresh := true } r
      else
        let p := if broken then p.indent column else p
        go false { p.put c with fresh := false } r
  go true { p with spaced := true, fresh := true } cs

/-- Writes a string. -/
def string (column : Nat) (s : String) (p : Pen) : Pen :=
  match quoting s with
  | .bare => p.bare s.toList
  | .single => p.single column s.toList
  | .double => p.double s.toList
  | .literal => p.literal column s.toList

/-- Whether a key stands on the line of its value: it is short, and on one line. -/
def isSimpleKey (key : String) : Bool := key.utf8ByteSize ≤ 128 && !key.toList.any isBreak

/-- Writes a key and the mark of its value, in a block at a column. -/
def key (column : Nat) (name : String) (p : Pen) : Pen :=
  let p := p.indent column
  if isSimpleKey name then (p.string (column + 2) name).mark [':'] false
  else
    let p := (p.space.mark ['?'] true).string (column + 2) name
    (p.indent column).mark [':'] true

/-- The text of a value that is no string and holds no others. -/
def scalarText : Json → List Char
  | .null => "null".toList
  | .bool b => (if b then "true" else "false").toList
  | .int n => (if n < 0 then ['-'] else []) ++ Number.digitsOf n.natAbs
  | .float x => Number.inYaml.write x
  | .arr _ => ['[', ']']
  | .obj _ => ['\x7b', '\x7d']
  | .str s => s.toList

mutual

/-- Writes a value in a block at a column. The items of a list that is the value of a field stay at the
column of the field. -/
def value (column : Nat) (ofField : Bool) (p : Pen) : Json → Pen
  | .arr (j :: r) => items (if ofField && !p.fresh then column else column + 2) p (j :: r)
  | .obj (f :: r) => fields (column + 2) p (f :: r)
  | .str s => p.string (column + 2) s
  | j => p.bare (scalarText j)

/-- Writes the items of a list, each after a dash at a column. -/
def items (column : Nat) (p : Pen) : List Json → Pen
  | [] => p
  | j :: r => items column (value column false (((p.indent column).space).mark ['-'] true) j) r

/-- Writes the fields of an object, each key at a column. -/
def fields (column : Nat) (p : Pen) : List (String × Json) → Pen
  | [] => p
  | (name, j) :: r => fields column (value column true (p.key column name) j) r

end

end Pen

/-- The YAML text of a set of fields. -/
def textOf (fields : List (String × Json)) : List Char := ((Pen.fields 0 Pen.start fields).indent 0).written.reverse

end PromptScript.Yaml
