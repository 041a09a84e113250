import TealAudit.Decimal

/-!
# Written moments in time

A date has a year, a month and a day, and a time of day has hours, minutes, seconds and perhaps parts
of a second. A **moment** is a date, a time of day or both, and it may say how far its clock is from
the common one. Numbers that no calendar and no clock shows are not taken.
-/

namespace TealAudit.Moment

/-- The number of days of a month. -/
def daysIn (year month : Nat) : Nat :=
  if month = 2 then
    if year % 4 = 0 && (year % 100 ≠ 0 || year % 400 = 0) then 29 else 28
  else if [4, 6, 9, 11].contains month then 30
  else 31

/-- Whether a calendar shows a date. -/
def isDate (year month day : Nat) : Bool :=
  1 ≤ month && month ≤ 12 && 1 ≤ day && day ≤ daysIn year month

/-- Whether a clock shows a time of day. -/
def isTime (hour minute second : Nat) : Bool := hour < 24 && minute < 60 && second < 60

/-- Whether a clock may be so far from the common one. A whole day and a whole hour are allowed. -/
def isOffset (hour minute : Nat) : Bool := hour ≤ 24 && minute ≤ 60

/-- What follows a character at the start of a text. -/
def after? (c : Char) : Text → Option Text
  | b :: rest => if b = Text.byte c then some rest else none
  | [] => none

/-- The number of exactly `count` digits at the start of a text, and the rest. -/
def digits? (count : Nat) (t : Text) : Option (Nat × Text) :=
  let digits := t.take count
  if digits.length = count && digits.all Text.isDigit then
    some (Decimal.ofDigits digits, t.drop count)
  else none

/-- The number of one or two digits at the start of a text, and the rest. -/
def digits12? (t : Text) : Option (Nat × Text) := digits? 2 t <|> digits? 1 t

/-- What follows the parts of a second at the start of a text: one of the marks and digits, or
nothing. -/
def afterFraction (marks : List Char) (t : Text) : Text :=
  match t with
  | mark :: d :: rest =>
    if marks.any (Text.byte · = mark) && Text.isDigit d then rest.dropWhile Text.isDigit else t
  | _ => t

/-- Whether a text is the distance of a clock from the common one: `Z`, or hours and minutes with a
sign. -/
def isZone (t : Text) : Bool :=
  match t with
  | [z] => z = Text.byte 'Z'
  | [s, h, h', c, m, m'] =>
    (s = Text.byte '+' || s = Text.byte '-') && c = Text.byte ':' &&
      [h, h', m, m'].all Text.isDigit &&
      isOffset (Decimal.ofDigits [h, h']) (Decimal.ofDigits [m, m'])
  | _ => false

end TealAudit.Moment
