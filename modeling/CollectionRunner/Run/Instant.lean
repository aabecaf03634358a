/-!
Instants: milliseconds since the start of 1970, and their text in the calendar.
-/

namespace CollectionRunner

/-- Milliseconds since the start of 1970 in universal time. -/
structure Instant where
  ms : Int
  deriving DecidableEq, Repr

namespace Instant

/-- The first instant that has a text. -/
def first : Int := -8334601228800000

/-- The last instant that has a text. -/
def last : Int := 8210266876799999

/-- The instant of a number of milliseconds, if it has a text. -/
def ofMs? (ms : Int) : Option Instant := if first ≤ ms ∧ ms ≤ last then some ⟨ms⟩ else none

/-- The milliseconds from one instant to another. -/
def since (later earlier : Instant) : Int := later.ms - earlier.ms

/-- A day of the calendar. -/
structure Date where
  year : Int
  month : Nat
  day : Nat
  deriving DecidableEq, Repr

/-- The date of a day counted from the start of 1970. Years are counted from March on within eras of
400 years, so that a leap day ends a year. -/
def dateOfDay (n : Int) : Date :=
  let n := n + 719468
  let era := n.fdiv 146097
  let inEra := (n.fmod 146097).toNat
  let yearInEra := (inEra - inEra / 1460 + inEra / 36524 - inEra / 146096) / 365
  let inYear := inEra - (365 * yearInEra + yearInEra / 4 - yearInEra / 100)
  let shifted := (5 * inYear + 2) / 153
  let day := inYear - (153 * shifted + 2) / 5 + 1
  let month := if shifted < 10 then shifted + 3 else shifted - 9
  let year := (yearInEra : Int) + era * 400
  ⟨if month ≤ 2 then year + 1 else year, month, day⟩

/-- A number with zeros in front, at least `width` digits. -/
def padded (width n : Nat) : List Char :=
  let digits := (toString n).toList
  List.replicate (width - digits.length) '0' ++ digits

/-- A year: four digits, with a sign when it lies outside of 0 to 9999. -/
def yearText (y : Int) : List Char :=
  if y < 0 then '-' :: padded 4 y.natAbs
  else if y ≤ 9999 then padded 4 y.natAbs
  else '+' :: padded 4 y.natAbs

/-- The text of an instant in universal time; milliseconds are written unless they are zero. -/
def text (i : Instant) : String :=
  let date := dateOfDay (i.ms.fdiv 86400000)
  let inDay := (i.ms.fmod 86400000).toNat
  let fraction := inDay % 1000
  String.ofList
    (yearText date.year ++ '-' :: padded 2 date.month ++ '-' :: padded 2 date.day ++
      'T' :: padded 2 (inDay / 3600000) ++ ':' :: padded 2 (inDay / 60000 % 60) ++
      ':' :: padded 2 (inDay / 1000 % 60) ++
      (if fraction = 0 then [] else '.' :: padded 3 fraction) ++ ['Z'])

example : text ⟨951782400123⟩ = "2000-02-29T00:00:00.123Z" := by decide +kernel
example : text ⟨-1⟩ = "1969-12-31T23:59:59.999Z" := by decide +kernel
example : text ⟨first⟩ = "-262143-01-01T00:00:00Z" := by decide +kernel
example : text ⟨last⟩ = "+262142-12-31T23:59:59.999Z" := by decide +kernel

end Instant

end CollectionRunner
