import SyncKernel.Toml.Number

/-!
# Dates and times

A date has a year of four digits, a month and a day of that month; a time of day has hours, minutes
and seconds, of which there may be 60; both together may have an offset from universal time. The
rule (`isDatetime`) is the same for dates that stand in a document by themselves and for those that
a text spells.
-/

namespace SyncKernel.Toml

/-- The number of two digits, if it is within bounds. -/
def twoDigits? (least most : Nat) (a b : Char) : Option Nat :=
  if a.isDigit && b.isDigit then
    let n := digitsValue 10 [a, b]
    if least ≤ n ∧ n ≤ most then some n else none
  else none

/-- The number of days of a month. -/
def daysOf (year month : Nat) : Nat :=
  if month = 2 then
    if year % 4 = 0 ∧ (year % 100 ≠ 0 ∨ year % 400 = 0) then 29 else 28
  else if month = 4 ∨ month = 6 ∨ month = 9 ∨ month = 11 then 30
  else 31

/-- Leave out a date. -/
def date? : List Char → Option (List Char)
  | a :: b :: c :: d :: '-' :: e :: f :: '-' :: g :: h :: cs => do
    if !(a.isDigit && b.isDigit && c.isDigit && d.isDigit) then none
    else
      let month ← twoDigits? 1 12 e f
      let _ ← twoDigits? 1 (daysOf (digitsValue 10 [a, b, c, d]) month) g h
      return cs
  | _ => none

/-- Leave out a time of day with seconds and, if they follow, fractions of a second. -/
def time? : List Char → Option (List Char)
  | a :: b :: ':' :: c :: d :: ':' :: e :: f :: cs => do
    let _ ← twoDigits? 0 23 a b
    let _ ← twoDigits? 0 59 c d
    let _ ← twoDigits? 0 60 e f
    match cs with
    | '.' :: rest =>
      if (rest.takeWhile Char.isDigit).isEmpty then none else some (rest.dropWhile Char.isDigit)
    | cs => some cs
  | _ => none

/-- Whether a run is empty or the offset of a time zone. -/
def isOffset : List Char → Bool
  | [] => true
  | ['Z'] => true
  | ['z'] => true
  | [sign, a, b, ':', c, d] =>
    (sign == '+' || sign == '-') && (twoDigits? 0 23 a b).isSome && (twoDigits? 0 59 c d).isSome
  | _ => false

/-- Whether a run is a time of day with or without an offset. -/
def isTimeOffset (cs : List Char) : Bool :=
  (time? cs).any isOffset

/-- Whether a run is a date alone. -/
def isDate (cs : List Char) : Bool :=
  date? cs == some []

/-- Whether a run is a date, a time of day, or both with or without an offset. Between the two
stands a letter T or a space. -/
def isDatetime (cs : List Char) : Bool :=
  match date? cs with
  | none => time? cs == some []
  | some [] => true
  | some (mark :: rest) => (mark == 'T' || mark == 't' || mark == ' ') && isTimeOffset rest

end SyncKernel.Toml
