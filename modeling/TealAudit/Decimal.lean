import TealAudit.Text

/-!
# Written decimal fractions

A decimal fraction is read into the nearest number of double precision, and then cut to its whole
part. Double precision keeps 53 binary digits; of two equally near numbers the even one is taken,
and what is too large for it has no value.
-/

namespace TealAudit

/-- **A decimal fraction**: `coefficient · 10 ^ exponent`, with a sign. -/
structure Decimal where
  negative : Bool
  coefficient : Nat
  exponent : Int
deriving DecidableEq, Repr

namespace Decimal

/-- The number that decimal digits write. -/
def ofDigits (digits : Text) : Nat :=
  digits.foldl (fun n b => n * 10 + (b - Text.byte '0').toNat) 0

/-- A sign at the start of a text, and what follows. -/
def signed (t : Text) : Bool × Text :=
  match t with
  | b :: rest =>
    if b = Text.byte '-' then (true, rest)
    else if b = Text.byte '+' then (false, rest)
    else (false, t)
  | [] => (false, [])

/-- The exponent that ends a fraction: nothing, or a mark, a sign and digits. -/
def exponent? (t : Text) : Option Int :=
  match t with
  | [] => some 0
  | e :: rest =>
    if e = Text.byte 'e' || e = Text.byte 'E' then
      let (negative, digits) := signed rest
      if digits.isEmpty || !digits.all Text.isDigit then none
      else some (if negative then -(ofDigits digits : Int) else ofDigits digits)
    else none

/-- **The fraction that a text writes**: digits with at most one point, a digit in front of it or
after it, and an exponent. -/
def parse (t : Text) : Option Decimal := do
  let (negative, body) := signed t
  let whole := body.takeWhile Text.isDigit
  let rest := body.dropWhile Text.isDigit
  let (places, tail) := match rest with
    | p :: after =>
      if p = Text.byte '.' then (after.takeWhile Text.isDigit, after.dropWhile Text.isDigit)
      else ([], rest)
    | [] => ([], [])
  if whole.isEmpty && places.isEmpty then none
  let e ← exponent? tail
  return ⟨negative, ofDigits (whole ++ places), e - places.length⟩

/-- A quotient rounded to the nearest whole number, a half to the even neighbour. -/
def roundQuotient (num den : Nat) : Nat :=
  let q := num / den
  let twice := 2 * (num % den)
  if den < twice || (twice = den && q % 2 = 1) then q + 1 else q

/-- The whole part of `num / den` after rounding to 53 binary digits. -/
def roundedWhole (num den : Nat) : Nat :=
  if num = 0 then 0
  else
    let scaled (e : Int) : Nat × Nat :=
      if 0 ≤ e then (num, den * Nat.pow 2 e.toNat) else (num * Nat.pow 2 (-e).toNat, den)
    let low : Int := (Nat.log2 num : Int) - Nat.log2 den - 53
    let (n, d) := scaled low
    let e := if Nat.pow 2 53 ≤ n / d then low + 1 else low
    let (n, d) := scaled e
    let m := roundQuotient n d
    if 0 ≤ e then m * Nat.pow 2 e.toNat else m / Nat.pow 2 (-e).toNat

/-- How many decimal digits a number has. -/
def digitCount (n : Nat) : Nat := (Nat.toDigits 10 n).length

/-- **The whole part** of a fraction in double precision, if it has a value there. Exponents that
are surely too large or too small are not computed with. -/
def whole? (d : Decimal) : Option Int :=
  let size := d.exponent + digitCount d.coefficient
  if d.coefficient = 0 || size < -400 then some 0
  else if 400 < size then none
  else
    let n := if 0 ≤ d.exponent then roundedWhole (d.coefficient * Nat.pow 10 d.exponent.toNat) 1
      else roundedWhole d.coefficient (Nat.pow 10 (-d.exponent).toNat)
    if Nat.pow 2 1024 ≤ n then none else some (if d.negative then -n else n)

end Decimal

end TealAudit
