import TealAudit.Text
import TealAudit.Word

/-!
# Written whole numbers

A whole number is written in decimal, or with a mark in base two (`0b`), eight (`0o` or a leading
zero) or sixteen (`0x`). An underscore may stand between two digits. Numbers are read into 64 bits;
what does not fit is told apart from what is no number at all.
-/

namespace TealAudit

namespace Numeral

/-- Why a text is not read as a number. -/
inductive Fault where
  | malformed
  | outOfRange
deriving DecidableEq, Repr

/-- A letter in lower case. -/
def lower (b : UInt8) : UInt8 :=
  if Text.byte 'A' ≤ b && b ≤ Text.byte 'Z' then b + 32 else b

/-- The value of a digit, letters counting on from ten. -/
def digitValue? (b : UInt8) : Option Nat :=
  if Text.isDigit b then some (b - Text.byte '0').toNat
  else
    let b := lower b
    if Text.byte 'a' ≤ b && b ≤ Text.byte 'z' then some ((b - Text.byte 'a').toNat + 10) else none

/-- The base that the letter after a leading zero stands for. -/
def markedBase? (b : UInt8) : Option Nat :=
  let b := lower b
  if b = Text.byte 'b' then some 2
  else if b = Text.byte 'o' then some 8
  else if b = Text.byte 'x' then some 16
  else none

/-- The base of a number and the digits after its mark. -/
def split : Text → Nat × Text
  | [] => (10, [])
  | z :: rest =>
    if z = Text.byte '0' then
      match rest with
      | mark :: d :: digits => ((markedBase? mark).map (·, d :: digits)).getD (8, rest)
      | _ => (8, rest)
    else (10, z :: rest)

/-- The number that digits write after the value `n`, underscores left out. -/
def value (base : Nat) : (n : Nat) → Text → Except Fault Nat
  | n, [] => .ok n
  | n, b :: rest =>
    if b = Text.byte '_' then value base n rest
    else
      match digitValue? b with
      | none => .error .malformed
      | some d =>
        if base ≤ d then .error .malformed
        else if Word.count ≤ n * base + d then .error .outOfRange
        else value base (n * base + d) rest

/-- Whether each underscore stands between two digits; `digit` says whether a digit stands before. -/
def underscoresFrom : (digit : Bool) → Text → Bool
  | _, [] => true
  | digit, b :: rest =>
    if b = Text.byte '_' then digit && !rest.isEmpty && underscoresFrom false rest
    else underscoresFrom true rest

/-- Whether each underscore of a number stands between two digits, the mark of a base counting as a
digit. -/
def hasPlacedUnderscores (t : Text) : Bool :=
  let (base, digits) := split t
  underscoresFrom (base ≠ 10) digits

/-- **A number without a sign.** -/
def natural (t : Text) : Except Fault Nat :=
  if t.isEmpty then .error .malformed
  else
    let (base, digits) := split t
    match value base 0 digits with
    | .ok n => if hasPlacedUnderscores t then .ok n else .error .malformed
    | .error fault => .error fault

/-- A number that fits into 64 bits with its sign. -/
def fitted (n : Int) : Except Fault Int :=
  if Word.fits n then .ok n else .error .outOfRange

/-- **A number with or without a sign.** -/
def integer (t : Text) : Except Fault Int :=
  match t with
  | [] => .error .malformed
  | b :: rest =>
    if b = Text.byte '-' then natural rest >>= fun n => fitted (-n)
    else if b = Text.byte '+' then natural rest >>= fun n => fitted n
    else natural t >>= fun n => fitted n

end Numeral

end TealAudit
