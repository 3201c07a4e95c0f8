import HeaviestChain.Toml.Text

/-!
# Dates and times in TOML

A date, a time of day, or both with or without the distance to universal time.  Nothing of them is
kept; a reader gives what is left after one.
-/

namespace HeaviestChain.Toml

/-- Reads a number of exactly so many digits. -/
def paddedNumber? (count : Nat) (left : List Char) : Option (Nat × List Char) := do
  let digits := left.take count
  guard (digits.length = count && digits.all Char.isDigit)
  let value ← Text.valueOf? 10 digits
  pure (value, left.drop count)

/-- What is left after a character, if it stands here. -/
def mark? (mark : Char) : List Char → Option (List Char)
  | character :: left => if character = mark then some left else none
  | [] => none

/-- Whether a year has a 29th of February. -/
def isLeapYear (year : Nat) : Bool :=
  year % 4 = 0 && (year % 100 ≠ 0 || year % 400 = 0)

/-- The number of days in a month. -/
def daysIn (year month : Nat) : Nat :=
  if month = 2 then if isLeapYear year then 29 else 28
  else if month = 4 || month = 6 || month = 9 || month = 11 then 30
  else 31

/-- What is left after a date. -/
def date? (left : List Char) : Option (List Char) := do
  let (year, left) ← paddedNumber? 4 left
  let (month, left) ← paddedNumber? 2 (← mark? '-' left)
  let (day, left) ← paddedNumber? 2 (← mark? '-' left)
  guard (0 < month && month ≤ 12 && 0 < day && day ≤ daysIn year month)
  pure left

/-- What is left after hours and minutes. -/
def hourAndMinute? (left : List Char) : Option (List Char) := do
  let (hour, left) ← paddedNumber? 2 left
  let (minute, left) ← paddedNumber? 2 (← mark? ':' left)
  guard (hour < 24 && minute < 60)
  pure left

/-- What is left after a time of day.  A minute may have a leap second. -/
def time? (left : List Char) : Option (List Char) := do
  let (second, left) ← paddedNumber? 2 (← mark? ':' (← hourAndMinute? left))
  guard (second ≤ 60)
  match left with
  | '.' :: digit :: left =>
      if digit.isDigit then pure (left.dropWhile Char.isDigit) else pure ('.' :: digit :: left)
  | left => pure left

/-- What is left after the distance to universal time, if it is given. -/
def skipOffset (left : List Char) : List Char :=
  match left with
  | 'Z' :: left => left
  | 'z' :: left => left
  | '+' :: after => (hourAndMinute? after).getD left
  | '-' :: after => (hourAndMinute? after).getD left
  | left => left

/-- What is left after the time of day that follows a date, if it is given. -/
def skipTimeOfDay (left : List Char) : List Char :=
  match left with
  | mark :: after =>
      if mark = 'T' || mark = 't' || mark = ' ' then ((time? after).map skipOffset).getD left
      else left
  | [] => []

/-- What is left after a date, a time or both, if one stands here. -/
def moment? (left : List Char) : Option (List Char) :=
  match date? left with
  | some left => some (skipTimeOfDay left)
  | none => time? left

end HeaviestChain.Toml
