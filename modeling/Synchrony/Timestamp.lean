/-!
# Points in time

Records and documents carry the time of their creation. A `Timestamp` counts nanoseconds from the
beginning of 1970 and is written as a date and a time of day in the form of RFC 3339.
-/

namespace Synchrony

/-- Nanoseconds since the beginning of 1970. -/
structure Timestamp where
  nanos : Nat
deriving DecidableEq

namespace Timestamp

/-- Year, month and day of the day with this number, counted from the first day of 1970. -/
def civil (day : Nat) : Nat × Nat × Nat :=
  let z := day + 719468
  let era := z / 146097
  let ofEra := z % 146097
  let yearOfEra := (ofEra - ofEra / 1460 + ofEra / 36524 - ofEra / 146096) / 365
  let ofYear := ofEra - (365 * yearOfEra + yearOfEra / 4 - yearOfEra / 100)
  let shifted := (5 * ofYear + 2) / 153
  let month := if shifted < 10 then shifted + 3 else shifted - 9
  let year := yearOfEra + era * 400 + (if month ≤ 2 then 1 else 0)
  (year, month, ofYear - (153 * shifted + 2) / 5 + 1)

/-- A number with leading zeros up to a width. -/
def padded (width n : Nat) : String :=
  let ds := Nat.toDigits 10 n
  String.ofList (List.replicate (width - ds.length) '0' ++ ds)

/-- Date and time of day with nine decimal places of a second. -/
def clockText (t : Timestamp) : String :=
  let seconds := t.nanos / 1000000000
  let (year, month, day) := civil (seconds / 86400)
  let ofDay := seconds % 86400
  padded 4 year ++ "-" ++ padded 2 month ++ "-" ++ padded 2 day ++ "T" ++
    padded 2 (ofDay / 3600) ++ ":" ++ padded 2 (ofDay / 60 % 60) ++ ":" ++ padded 2 (ofDay % 60) ++
    "." ++ padded 9 (t.nanos % 1000000000)

/-- The text on records, with the zone written as a letter. -/
def text (t : Timestamp) : String := t.clockText ++ "Z"

/-- The text on documents, with the zone written as an offset. -/
def offsetText (t : Timestamp) : String := t.clockText ++ "+00:00"

end Timestamp

end Synchrony
