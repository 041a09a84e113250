import TealAudit.Base64
import TealAudit.Moment
import TealAudit.Numeral

/-!
# What YAML scalars mean

What a plain scalar means shows in its spelling alone: `~` is nothing, `true` a flag, `0x1F` a
number, and what has no other meaning is a text. A scalar in quotes is a text whatever it spells. A
tag says what a scalar has to mean.
-/

namespace TealAudit

namespace Yaml

/-- **What a scalar means.** Of a number that is no whole one only its whole part is kept, if it has
one in 64 bits. -/
inductive Value where
  | nothing
  | flag (b : Bool)
  | whole (n : Int)
  | fraction (part : Option Int)
  | moment
  | text (t : Text)
deriving DecidableEq, Repr

/-! ## Words -/

/-- Nothing, in words. -/
def nothingWords : List Text := ["", "~", "null", "Null", "NULL"]

/-- Yes, in words. -/
def trueWords : List Text := ["true", "True", "TRUE"]

/-- No, in words. -/
def falseWords : List Text := ["false", "False", "FALSE"]

/-- Numbers that are none, or above all others. -/
def unboundedWords : List Text :=
  [".nan", ".NaN", ".NAN", ".inf", ".Inf", ".INF", "+.inf", "+.Inf", "+.INF"]

/-- The number below all others. -/
def lowestWords : List Text := ["-.inf", "-.Inf", "-.INF"]

/-! ## Numbers -/

/-- The whole part of a fraction as it is kept in 64 bits: the lowest number for what is below it. -/
def keptPart (n : Int) : Option Int :=
  if (Word.half : Int) < n then none
  else if Word.fits n then some n
  else some Word.least

/-- The fraction that a text writes, if it is within double precision. -/
def fraction? (t : Text) : Option Value :=
  ((Decimal.parse t).bind Decimal.whole?).map fun n => .fraction (keptPart n)

/-- Whether each underscore stands between two digits; `digit` says whether a digit stands before. -/
def hasDividingUnderscores : (digit : Bool) → Text → Bool
  | _, [] => true
  | digit, b :: rest =>
    if b = Text.byte '_' then
      digit && (rest.head?.map Text.isDigit).getD false && hasDividingUnderscores false rest
    else hasDividingUnderscores (Text.isDigit b) rest

/-- A text without its underscores. -/
def bare (t : Text) : Text := t.filter (· ≠ Text.byte '_')

/-- The number whose sign stands behind the mark of its base, `0b` or `0o`. -/
def innerSigned? (t : Text) : Option Int :=
  match t with
  | zero :: mark :: sign :: digits =>
    let base := if mark = Text.byte 'b' then 2 else if mark = Text.byte 'o' then 8 else 0
    let negative := sign = Text.byte '-'
    if zero ≠ Text.byte '0' || base = 0 || !(negative || sign = Text.byte '+') || digits.isEmpty then
      none
    else
      match Numeral.value base 0 digits with
      | .ok n =>
        let n : Int := if negative then -n else n
        if Word.fits n then some n else none
      | .error _ => none
  | _ => none

/-- **The number that a text writes**, underscores left out. -/
def number? (t : Text) : Option Value :=
  match Numeral.integer (bare t), Numeral.natural (bare t) with
  | .ok n, _ => some (.whole n)
  | _, .ok n => some (.whole n)
  | _, _ => fraction? (bare t) <|> (innerSigned? (bare t)).map .whole

/-! ## Moments -/

/-- What follows a date at the start of a text. Months and days may be of one digit. -/
def afterDate? (t : Text) : Option Text := do
  let (year, t) ← Moment.digits? 4 t
  let (month, t) ← Moment.digits12? (← Moment.after? '-' t)
  let (day, t) ← Moment.digits12? (← Moment.after? '-' t)
  if Moment.isDate year month day then return t else none

/-- What follows a time of day at the start of a text. Its numbers may be of one digit. -/
def afterTime? (t : Text) : Option Text := do
  let (hour, t) ← Moment.digits12? t
  let (minute, t) ← Moment.digits12? (← Moment.after? ':' t)
  let (second, t) ← Moment.digits12? (← Moment.after? ':' t)
  if Moment.isTime hour minute second then return Moment.afterFraction ['.', ','] t else none

/-- Whether a text is a date, a date and a time of day with a zone behind a letter, or both without
one behind spaces. -/
def isMoment (t : Text) : Bool :=
  match afterDate? t with
  | none => false
  | some [] => true
  | some (b :: rest) =>
    if b = Text.byte 'T' || b = Text.byte 't' then
      ((afterTime? rest).map Moment.isZone).getD false
    else b = Text.byte ' ' && afterTime? (rest.dropWhile (· = Text.byte ' ')) = some []

/-! ## Scalars -/

/-- **What a plain scalar means.** -/
def meaning (t : Text) : Value :=
  if nothingWords.contains t then .nothing
  else if trueWords.contains t then .flag true
  else if falseWords.contains t then .flag false
  else if unboundedWords.contains t then .fraction none
  else if lowestWords.contains t then .fraction (some Word.least)
  else
    match t with
    | [] => .text t
    | b :: _ =>
      if b = Text.byte '.' then
        (if hasDividingUnderscores false t then fraction? (bare t) else none).getD (.text t)
      else if Text.isDigit b || b = Text.byte '+' || b = Text.byte '-' then
        if isMoment t then .moment else (number? t).getD (.text t)
      else .text t

/-- The tag of texts. -/
def textTag : Text := "!!str"

/-- The tag of bytes, written in base 64. -/
def bytesTag : Text := "!!binary"

/-- The tag of nothing. -/
def nothingTag : Text := "!!null"

/-- The tag of fractions. -/
def fractionTag : Text := "!!float"

/-- The tag of a meaning. -/
def Value.tag : Value → Text
  | nothing => nothingTag
  | flag _ => "!!bool"
  | whole _ => "!!int"
  | fraction _ => fractionTag
  | moment => "!!timestamp"
  | text _ => textTag

/-- The tags that say what a scalar has to mean. -/
def meaningTags : List Text := [nothingTag, "!!bool", "!!int", fractionTag, "!!timestamp"]

/-- A meaning as a fraction, which a whole number may be. -/
def Value.asFraction? : Value → Option Value
  | fraction part => some (fraction part)
  | whole n =>
    if !Word.fits n then none
    else
      let size : Int := Decimal.roundedWhole n.natAbs 1
      some (fraction (keptPart (if n < 0 then -size else size)))
  | _ => none

/-- **What a scalar means**, if its tag allows it: plain or not, with or without a tag. A tag that is
not known leaves a text. -/
def scalarValue (tag : Option Text) (plain : Bool) (t : Text) : Option Value :=
  match tag with
  | none => some (if plain then meaning t else .text t)
  | some tag =>
    if tag = bytesTag then (Base64.decode t).map .text
    else if !meaningTags.contains tag then some (.text t)
    else if (meaning t).tag = tag then some (meaning t)
    else if tag = fractionTag then (meaning t).asFraction?
    else none

end Yaml

end TealAudit
