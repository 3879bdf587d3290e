import PromptScript.Json.Basic
import PromptScript.Number.Reading

/-! # JSON text, read

`Json.parse?` reads a whole text. A repeated name keeps its first place and takes the last entry. Arrays
and objects may lie `depthLimit` deep within each other.

Numbers without point or exponent that fit 64 bits are whole. Of any other number the digits are gathered
into a 64-bit significand, digits beyond that being dropped, which is then scaled by a power of ten; a
number that is too large for a double is refused. -/
namespace PromptScript.Json

/-- How deep the arrays and objects of a text may lie within each other. -/
def depthLimit : Nat := 127

/-- The four blanks of JSON text. -/
def isSpace (c : Char) : Bool := c == ' ' || c == '\n' || c == '\t' || c == '\r'

/-- The text after its blanks. -/
def skipSpace (cs : List Char) : List Char := cs.dropWhile isSpace

/-- `significand · 10 ^ exponent` as a double, scaled in steps of at most `10 ^ 308`; `none` beyond the
greatest double. -/
def scaled? : Nat → Float → Int → Option Float
  | 0, _, _ => some 0
  | fuel + 1, x, exponent =>
    if exponent.natAbs ≤ 308 then
      let power := Number.nearest 1 exponent.natAbs
      if 0 ≤ exponent then (if (x * power).isInf then none else some (x * power))
      else some (x / power)
    else if x == 0 then some x
    else if 0 ≤ exponent then none
    else scaled? fuel (x / 1e308) (exponent + 308)

/-- A significand with the number of places it is shifted up. -/
structure Significand where
  value : Nat
  shift : Int

/-- Takes up one more digit of the whole part; once the significand is full, digits only shift it. -/
def Significand.whole (s : Significand) (c : Char) : Significand :=
  if 0 < s.shift ∨ Nat.pow 2 64 ≤ s.value * 10 + Number.digitValue c then { s with shift := s.shift + 1 }
  else { s with value := s.value * 10 + Number.digitValue c }

/-- Takes up digits after the point, until the significand is full. -/
def Significand.places (s : Significand) : List Char → Significand
  | [] => s
  | c :: r =>
    if Nat.pow 2 64 ≤ s.value * 10 + Number.digitValue c then s
    else places ⟨s.value * 10 + Number.digitValue c, s.shift - 1⟩ r

/-- Reads a number that starts here. -/
def readNumber? (cs : List Char) : Option (Json × List Char) := do
  let (negative, cs) := match cs with
    | '-' :: r => (true, r)
    | r => (false, r)
  let (ds, rest) := Text.spanWhile Char.isDigit cs
  if ds = [] then none
  else if ds.head? = some '0' ∧ ds ≠ ['0'] then none
  else
    let s := ds.foldl Significand.whole ⟨0, 0⟩
    let (s, rest, pointed) ← (match rest with
      | '.' :: r =>
        let (ps, r) := Text.spanWhile Char.isDigit r
        if ps = [] then none else some (s.places ps, r, true)
      | r => some (s, r, false))
    let (power, rest, raised) ← (match rest with
      | c :: r =>
        if c = 'e' ∨ c = 'E' then
          let (down, r) := Number.takeSign r
          let (es, r) := Text.spanWhile Char.isDigit r
          if es = [] then none
          else
            let n := min (Number.ofDigits es) (Nat.pow 2 31)
            some ((if down then -(n : Int) else (n : Int)), r, true)
        else some (0, c :: r, false)
      | [] => some (0, [], false))
    if !pointed && !raised && s.shift == 0 &&
        (if negative then s.value ≠ 0 ∧ s.value ≤ Nat.pow 2 63 else true) then
      some (.int (if negative then -(s.value : Int) else s.value), rest)
    else
      let exponent := s.shift + power
      let x ← scaled? 100 (Float.ofNat s.value) (max exponent (-20000))
      some (.float (if negative then -x else x), rest)

/-- Reads four hexadecimal digits. -/
def readUnit? : List Char → Option (Nat × List Char)
  | a :: b :: c :: d :: r => (Number.readHex? [a, b, c, d]).map (·, r)
  | _ => none

/-- Reads the rest of a string up to its closing quote. A pair of surrogate escapes is one character; a
surrogate that stands alone, and a bare control character, are refused. -/
def readString? : Nat → List Char → Option (List Char × List Char)
  | 0, _ => none
  | _, [] => none
  | fuel + 1, c :: r =>
    if c = '"' then some ([], r)
    else if c = '\\' then
      match r with
      | '"' :: r => more '"' r fuel
      | '\\' :: r => more '\\' r fuel
      | '/' :: r => more '/' r fuel
      | 'b' :: r => more (Char.ofNat 8) r fuel
      | 'f' :: r => more (Char.ofNat 12) r fuel
      | 'n' :: r => more '\n' r fuel
      | 'r' :: r => more '\r' r fuel
      | 't' :: r => more '\t' r fuel
      | 'u' :: r =>
        match readUnit? r with
        | none => none
        | some (n, r) =>
          if 0xDC00 ≤ n ∧ n < 0xE000 then none
          else if 0xD800 ≤ n ∧ n < 0xDC00 then
            match r with
            | '\\' :: 'u' :: r =>
              match readUnit? r with
              | some (low, r) =>
                if 0xDC00 ≤ low ∧ low < 0xE000 then
                  more (Char.ofNat (0x10000 + (n - 0xD800) * 0x400 + (low - 0xDC00))) r fuel
                else none
              | none => none
            | _ => none
          else more (Char.ofNat n) r fuel
      | _ => none
    else if c.toNat < 0x20 then none
    else more c r fuel
where
  /-- One character, then the rest of the string. -/
  more (c : Char) (r : List Char) (fuel : Nat) : Option (List Char × List Char) :=
    (readString? fuel r).map fun (s, r) => (c :: s, r)

/-- Reads a string that starts here. -/
def readQuoted? (cs : List Char) : Option (String × List Char) :=
  match cs with
  | '"' :: r => (readString? (r.length + 1) r).map fun (s, r) => (String.ofList s, r)
  | _ => none

mutual

/-- Reads a value after its blanks, with so many levels left for arrays and objects. -/
def readValue? : Nat → Nat → List Char → Option (Json × List Char)
  | 0, _, _ => none
  | fuel + 1, levels, cs =>
    match skipSpace cs with
    | '[' :: r =>
      if levels = 0 then none
      else match skipSpace r with
        | ']' :: r => some (.arr [], r)
        | r => (readItems? fuel (levels - 1) r).map fun (items, r) => (.arr items, r)
    | '\x7b' :: r =>
      if levels = 0 then none
      else match skipSpace r with
        | '\x7d' :: r => some (.obj [], r)
        | r => (readFields? fuel (levels - 1) r).map fun (fields, r) =>
            (.obj (Fields.ofList fields), r)
    | '"' :: r => (readQuoted? ('"' :: r)).map fun (s, r) => (.str s, r)
    | r =>
      match Text.dropLead? "null".toList r with
      | some r => some (.null, r)
      | none =>
        match Text.dropLead? "true".toList r with
        | some r => some (.bool true, r)
        | none =>
          match Text.dropLead? "false".toList r with
          | some r => some (.bool false, r)
          | none => readNumber? r

/-- Reads the items of an array up to its closing bracket. -/
def readItems? : Nat → Nat → List Char → Option (List Json × List Char)
  | 0, _, _ => none
  | fuel + 1, levels, cs =>
    match readValue? fuel levels cs with
    | none => none
    | some (j, r) =>
      match skipSpace r with
      | ']' :: r => some ([j], r)
      | ',' :: r => (readItems? fuel levels r).map fun (items, r) => (j :: items, r)
      | _ => none

/-- Reads the fields of an object up to its closing brace. -/
def readFields? : Nat → Nat → List Char → Option (List (String × Json) × List Char)
  | 0, _, _ => none
  | fuel + 1, levels, cs =>
    match readQuoted? (skipSpace cs) with
    | none => none
    | some (k, r) =>
      match skipSpace r with
      | ':' :: r =>
        match readValue? fuel levels r with
        | none => none
        | some (j, r) =>
          match skipSpace r with
          | '\x7d' :: r => some ([(k, j)], r)
          | ',' :: r => (readFields? fuel levels r).map fun (fields, r) => ((k, j) :: fields, r)
          | _ => none
      | _ => none

end

theorem readValue?_word (fuel levels : Nat) (rest : List Char) :
    readValue? (fuel + 1) levels ("null".toList ++ rest) = some (null, rest) ∧
    readValue? (fuel + 1) levels ("true".toList ++ rest) = some (bool true, rest) ∧
    readValue? (fuel + 1) levels ("false".toList ++ rest) = some (bool false, rest) := by
  refine ⟨?_, ?_, ?_⟩
  all_goals
    rw [readValue?]
    rfl

/-- Where an item is no value, the items are not read. -/
theorem readItems?_of_none {fuel levels : Nat} {cs : List Char} (read : readValue? fuel levels cs = none) :
    readItems? (fuel + 1) levels cs = none := by
  simp only [readItems?, read]

theorem readFields?_of_none {fuel levels : Nat} {cs r value : List Char} {k : String}
    (named : readQuoted? (skipSpace cs) = some (k, r)) (colon : skipSpace r = ':' :: value)
    (read : readValue? fuel levels value = none) : readFields? (fuel + 1) levels cs = none := by
  simp only [readFields?, named, colon, read]

/-- Reads a text of one value, whose arrays and objects lie at most `levels` deep. -/
def parseWithin? (levels : Nat) (cs : List Char) : Option Json :=
  match readValue? (2 * cs.length + 2) levels cs with
  | some (j, r) => if skipSpace r = [] then some j else none
  | none => none

/-- Reads a text of one value. -/
def parse? (text : String) : Option Json := parseWithin? depthLimit text.toList

end PromptScript.Json
