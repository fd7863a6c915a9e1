import BinderIdl.Text.Loose

/-! Times in the log: a date and a time of day, down to the millisecond. -/
namespace BinderIdl.Log

/-- Whether a year has a leap day. -/
def isLeap (year : Nat) : Bool := year % 4 == 0 && (year % 100 != 0 || year % 400 == 0)

/-- The number of days of a year. -/
def daysOfYear (year : Nat) : Nat := if isLeap year then 366 else 365

/-- The numbers of days of the months of a year. -/
def daysOfMonths (year : Nat) : List Nat :=
  [31, if isLeap year then 29 else 28, 31, 30, 31, 30, 31, 31, 30, 31, 30, 31]

/-- The month and the day of the month, both from one, of a day counted from zero
through months that start with a number. -/
def monthAndDay (month day : Nat) : List Nat → Nat × Nat
  | [] => (month, day + 1)
  | days :: rest => if day < days then (month, day + 1) else monthAndDay (month + 1) (day - days) rest

/-- The year and the day in it of a day counted from the start of a year. -/
def yearAndDay (year day : Nat) : Nat × Nat :=
  if day < daysOfYear year then (year, day)
  else yearAndDay (year + 1) (day - daysOfYear year)
termination_by day
decreasing_by
  have : 0 < daysOfYear year := by
    unfold daysOfYear
    split <;> omega
  omega

/-- The text of a time, given in seconds since the start of 1970 and milliseconds. -/
def timeText (seconds milliseconds : Nat) : String :=
  let (year, day) := yearAndDay 1970 (seconds / 86400)
  let (month, day) := monthAndDay 1 day (daysOfMonths year)
  let rest := seconds % 86400
  Text.padded 4 year ++ "-" ++ Text.padded 2 month ++ "-" ++ Text.padded 2 day ++ " " ++ Text.padded 2 (rest / 3600) ++
    ":" ++ Text.padded 2 (rest / 60 % 60) ++ ":" ++ Text.padded 2 (rest % 60) ++ "," ++ Text.padded 3 milliseconds

end BinderIdl.Log
