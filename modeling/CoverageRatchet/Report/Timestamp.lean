/-!
# The time of a report

A point in time is a number of seconds since the beginning of 1970. Reports write it as a date
and a time of day in UTC, to the second.
-/
namespace CoverageRatchet.Timestamp

structure Date where
  year : Nat
  month : Nat
  day : Nat
  deriving DecidableEq, Repr

/-- The date of a day, counted from the first day of 1970. Years are taken to begin in March, so
that the day that leap years add is their last one; a cycle of 400 years has 146097 days, and
the day of 1970 is the 719468th since the beginning of a cycle. -/
def dateOf (day : Nat) : Date :=
  let cycle := (day + 719468) / 146097
  let dayOfCycle := (day + 719468) % 146097
  let yearOfCycle :=
    (dayOfCycle - dayOfCycle / 1460 + dayOfCycle / 36524 - dayOfCycle / 146096) / 365
  let dayOfYear := dayOfCycle - (365 * yearOfCycle + yearOfCycle / 4 - yearOfCycle / 100)
  let month := (5 * dayOfYear + 2) / 153
  let year := yearOfCycle + 400 * cycle
  let dayOfMonth := dayOfYear - (153 * month + 2) / 5 + 1
  if month < 10 then ⟨year, month + 3, dayOfMonth⟩ else ⟨year + 1, month - 9, dayOfMonth⟩

def padded (width n : Nat) : String :=
  let digits := toString n
  String.ofList (List.replicate (width - digits.length) '0') ++ digits

def dateText (d : Date) : String :=
  padded 4 d.year ++ "-" ++ padded 2 d.month ++ "-" ++ padded 2 d.day

def timeText (secondOfDay : Nat) : String :=
  padded 2 (secondOfDay / 3600) ++ ":" ++ padded 2 (secondOfDay / 60 % 60) ++ ":" ++
    padded 2 (secondOfDay % 60)

def text (seconds : Nat) : String :=
  dateText (dateOf (seconds / 86400)) ++ "T" ++ timeText (seconds % 86400) ++ "Z"

example : dateOf 0 = ⟨1970, 1, 1⟩ := by decide

example : dateOf 19753 = ⟨2024, 1, 31⟩ ∧ dateOf 19782 = ⟨2024, 2, 29⟩ := by decide

end CoverageRatchet.Timestamp
