import PromptScript.Number.Shortest

/-! # Number text

How the digits of a number are laid out: which magnitudes are written with all their places, whether a
whole number keeps a `.0`, and how an exponent is written. A `Layout` is one such set of decisions; the
formats that the library writes are the layouts at the end. -/
namespace PromptScript.Number

/-- The decisions of a number format. The magnitude of a number is the exponent of its leading digit. -/
structure Layout where
  /-- Magnitudes from here on, -/
  leastPlain : Int
  /-- and up to here, are written without an exponent. -/
  greatestPlain : Int
  /-- A whole number without an exponent ends in `.0`. -/
  keepsPoint : Bool
  /-- An exponent that is not negative has a plus sign. -/
  plusSign : Bool
  /-- Zero keeps its sign. -/
  signedZero : Bool
  /-- Of two shortest decimals that are equally near, which is written. -/
  tie : Tie

/-- Digits with all their places written out. -/
def plainText (d : Decimal) (keepsPoint : Bool) : List Char :=
  let ds := digitsOf d.digits
  let tail := if keepsPoint then ['.', '0'] else []
  if 0 ≤ d.exponent then ds ++ List.replicate d.exponent.toNat '0' ++ tail
  else
    let places := (-d.exponent).toNat
    if places < ds.length then
      ds.take (ds.length - places) ++ '.' :: ds.drop (ds.length - places)
    else '0' :: '.' :: (List.replicate (places - ds.length) '0' ++ ds)

/-- Digits with a point after the first and the magnitude as an exponent. -/
def exponentText (d : Decimal) (plusSign : Bool) : List Char :=
  let ds := digitsOf d.digits
  let magnitude := d.exponent + ds.length - 1
  let mantissa := match ds with
    | [] => []
    | [c] => [c]
    | c :: r => c :: '.' :: r
  let sign := if magnitude < 0 then ['-'] else if plusSign then ['+'] else []
  mantissa ++ 'e' :: (sign ++ digitsOf magnitude.natAbs)

/-- A double in a given layout: the fewest digits that read back to it. -/
def Layout.write (layout : Layout) (x : Float) : List Char :=
  match Real64.ofFloat x with
  | .nan => ['N', 'a', 'N']
  | .infinite negative => (if negative then ['-'] else []) ++ "Infinity".toList
  | .finite negative m e =>
    let sign := if negative && (m != 0 || layout.signedZero) then ['-'] else []
    if m = 0 then sign ++ '0' :: (if layout.keepsPoint then ['.', '0'] else [])
    else
      let d := shortest layout.tie m e
      let magnitude := d.exponent + (digitsOf d.digits).length - 1
      sign ++ (if layout.leastPlain ≤ magnitude ∧ magnitude ≤ layout.greatestPlain
        then plainText d layout.keepsPoint else exponentText d layout.plusSign)

/-- Numbers in rendered text have no superfluous point, and an exponent from `1e+21` up and below `1e-6`. -/
def inText : Layout := ⟨-6, 20, false, true, false, .up⟩

/-- Numbers in JSON text keep the point of a whole number, and have an exponent from `1e+16` up and below
`1e-5`. -/
def inJson : Layout := ⟨-5, 15, true, true, true, .even⟩

/-- Numbers in a YAML header are those of JSON text, without the plus sign. -/
def inYaml : Layout := ⟨-5, 15, true, false, true, .even⟩

/-- A number as it appears in rendered text. -/
def format (x : Float) : String := String.ofList (inText.write x)

/-- A number with a set count of decimal places, a half going to the even neighbour. -/
def fixed (x : Float) (places : Nat) : String :=
  match Real64.ofFloat x with
  | .nan => "NaN"
  | .infinite negative => if negative then "-inf" else "inf"
  | .finite negative m e =>
    let ds := digitsOf (roundToPlaces m e places)
    let padded := List.replicate (places + 1 - ds.length) '0' ++ ds
    let whole := padded.take (padded.length - places)
    let rest := padded.drop (padded.length - places)
    String.ofList ((if negative then ['-'] else []) ++ whole ++ (if places = 0 then [] else '.' :: rest))

end PromptScript.Number
