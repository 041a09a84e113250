import TealAudit.Text
import TealAudit.Word

/-!
# Durations

A duration is written as numbers with units, `1h30m` or `1.5s`, perhaps with a sign in front. It is
kept in nanoseconds, in 64 bits.
-/

namespace TealAudit

namespace Duration

/-- **Why a text is no duration.** -/
inductive Fault where
  | invalid (t : Text)
  | missingUnit (t : Text)
  | unknownUnit (unit t : Text)
deriving DecidableEq, Repr

/-- A byte of a quoted text. -/
def quotedByte (b : UInt8) : Text :=
  if b < 0x20 || 0x80 ≤ b then "\\x" ++ Text.hex 2 b.toNat
  else if b = Text.byte '"' || b = Text.byte '\\' then [Text.byte '\\', b]
  else [b]

/-- A text in quotes, byte by byte. -/
def quoted (t : Text) : Text := "\"" ++ t.flatMap quotedByte ++ "\""

/-- A fault in words. -/
def Fault.message : Fault → Text
  | invalid t => "time: invalid duration " ++ quoted t
  | missingUnit t => "time: missing unit in duration " ++ quoted t
  | unknownUnit unit t => "time: unknown unit " ++ quoted unit ++ " in duration " ++ quoted t

/-- The units and how many nanoseconds they are. -/
def units : List (Text × Nat) :=
  [("ns", 1), ("us", 1000), ("µs", 1000), ("μs", 1000), ("ms", 1000000),
    ("s", 1000000000), ("m", 60000000000), ("h", 3600000000000)]

/-- The number that decimal digits write. -/
def number (digits : Text) : Nat :=
  digits.foldl (fun n b => n * 10 + (b - Text.byte '0').toNat) 0

/-- Whether a byte belongs to a number. -/
def isNumberByte (b : UInt8) : Bool := Text.isDigit b || b = Text.byte '.'

/-- The nanoseconds of the numbers with units in a text, added to `sum`. The whole text `all` is told
in a fault. -/
def sumFrom (all : Text) : (fuel : Nat) → (sum : Nat) → Text → Except Fault Nat
  | 0, _, _ => .error (.invalid all)
  | _, sum, [] => .ok sum
  | fuel + 1, sum, t =>
    let whole := t.takeWhile Text.isDigit
    let rest := t.drop whole.length
    let places := if rest.head? = some (Text.byte '.') then (rest.drop 1).takeWhile Text.isDigit else []
    let rest := if rest.head? = some (Text.byte '.') then rest.drop (places.length + 1) else rest
    let unit := rest.takeWhile (!isNumberByte ·)
    if whole.isEmpty && places.isEmpty || Word.half < number whole then .error (.invalid all)
    else if unit.isEmpty then .error (.missingUnit all)
    else
      match units.lookup unit with
      | none => .error (.unknownUnit unit all)
      | some size =>
        let value := number whole * size + number places * size / Nat.pow 10 places.length
        if Word.half < value || Word.half < sum + value then .error (.invalid all)
        else sumFrom all fuel (sum + value) (rest.drop unit.length)

/-- **The duration that a text writes**, in nanoseconds. -/
def parse (t : Text) : Except Fault Int :=
  let negative := t.head? = some (Text.byte '-')
  let body := if negative || t.head? = some (Text.byte '+') then t.drop 1 else t
  if body = Text.ofString "0" then .ok 0
  else if body.isEmpty then .error (.invalid t)
  else
    match sumFrom t (body.length + 1) 0 body with
    | .error fault => .error fault
    | .ok n =>
      if negative then .ok (-n)
      else if Word.half ≤ n then .error (.invalid t)
      else .ok n

end Duration

end TealAudit
