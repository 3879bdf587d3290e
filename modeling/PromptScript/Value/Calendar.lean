/-! # Dates

Points in time are milliseconds since the start of 1970, in universal time. They are written as
`2024-01-02T03:04:05.678Z`; a year beyond four digits has a sign. -/
namespace PromptScript.Calendar

/-- A natural number with at least `width` digits. -/
def padded (width n : Nat) : List Char :=
  let ds := Nat.toDigits 10 n
  List.replicate (width - ds.length) '0' ++ ds

/-- Year, month and day of a count of days since the start of 1970. Years are counted from March, so that
the leap day is the last day of a year, and in eras of four hundred years, which all have the same number of
days. -/
def civil (days : Int) : Int × Nat × Nat :=
  let shifted := days + 719468
  let era := shifted.fdiv 146097
  let dayOfEra := (shifted.fmod 146097).toNat
  let yearOfEra := (dayOfEra - dayOfEra / 1460 + dayOfEra / 36524 - dayOfEra / 146096) / 365
  let dayOfYear := dayOfEra - (365 * yearOfEra + yearOfEra / 4 - yearOfEra / 100)
  let fromMarch := (5 * dayOfYear + 2) / 153
  let day := dayOfYear - (153 * fromMarch + 2) / 5 + 1
  let month := if fromMarch < 10 then fromMarch + 3 else fromMarch - 9
  ((yearOfEra : Int) + era * 400 + (if month ≤ 2 then 1 else 0), month, day)

/-- A year: four digits, or a sign and at least four digits outside the years 0 to 9999. -/
def yearText (year : Int) : List Char :=
  if 0 ≤ year ∧ year ≤ 9999 then padded 4 year.natAbs
  else (if year < 0 then '-' else '+') :: padded 4 year.natAbs

/-- A point in time as text. -/
def isoText (millis : Int) : String :=
  let (year, month, day) := civil (millis.fdiv 86400000)
  let ofDay := (millis.fmod 86400000).toNat
  String.ofList <|
    yearText year ++ '-' :: padded 2 month ++ '-' :: padded 2 day ++
    'T' :: padded 2 (ofDay / 3600000) ++ ':' :: padded 2 (ofDay / 60000 % 60) ++
    ':' :: padded 2 (ofDay / 1000 % 60) ++ '.' :: padded 3 (ofDay % 1000) ++ ['Z']

end PromptScript.Calendar
