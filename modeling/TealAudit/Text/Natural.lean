import TealAudit.Text.Letter
import TealAudit.Text.Point

/-!
# The natural order of names

Names are listed in the order in which a reader looks for them: a run of digits counts as the
number it writes, so `block2` stands before `block10`, and what is not a letter stands before the
letters.
-/

namespace TealAudit

namespace Text

/-- The number that the digits at the start of a name write after the digits `n`, and how many
digits there are. A digit counts by its distance from the ASCII zero, and the number is kept in 64
bits. -/
def leadingNumber : (n : Int64) → List Char → Int64 × Nat
  | n, [] => (n, 0)
  | n, c :: rest =>
    if isDecimalDigit c then
      let (m, k) := leadingNumber (n * 10 + (Int64.ofNat c.toNat - 48)) rest
      (m, k + 1)
    else (n, 0)

/-- Whether a digit other than zero stands in the run of digits that ends a name read so far, given
from its end. -/
def endsInNumber : (before : List Char) → Bool
  | [] => false
  | c :: rest => isDecimalDigit c && (c != '0' || endsInNumber rest)

/-- **The natural order** from the first character in which two names differ, after the characters
`before` that they share, given from their end. -/
def naturalFrom (before : List Char) : List Char → List Char → Bool
  | _, [] => false
  | [], _ :: _ => true
  | a :: as, b :: bs =>
    if a = b then naturalFrom (a :: before) as bs
    else if isLetter a && isLetter b then a < b
    else if isLetter a || isLetter b then
      if (before.head?.map isDecimalDigit).getD false then isLetter a else isLetter b
    else
      let start : Int64 := if (a = '0' || b = '0') && endsInNumber before then 1 else 0
      let (m, i) := leadingNumber start (a :: as)
      let (n, j) := leadingNumber start (b :: bs)
      if m ≠ n then m < n else if i ≠ j then i < j else a < b

/-- Whether a name is listed before another one. -/
def naturallyBefore (s t : Text) : Bool :=
  naturalFrom [] (s.points.map Point.char) (t.points.map Point.char)

/-- Names in their natural order. -/
def sortNaturally (names : List Text) : List Text := names.mergeSort fun s t => !naturallyBefore t s

end Text

end TealAudit
