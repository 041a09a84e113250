import TealAudit.Moment
import TealAudit.Numeral
import TealAudit.Text.Point
import TealAudit.Toml.Table

/-!
# Reading TOML

A TOML text is lines of `key = value` and of headers that open a table. A text that breaks a rule is
refused as a whole. A line feed ends a line, with or without a carriage return in front; no other
control codes but tabs may stand in a text.
-/

namespace TealAudit

namespace Toml

/-- Whether a character is a blank. -/
def isBlank (c : Char) : Bool := c = ' ' || c = '\t'

/-- Whether a character belongs to the end of a line. -/
def isLineEnd (c : Char) : Bool := c = '\n' || c = '\r'

/-- What follows the blanks of a line. -/
def skipBlanks (cs : List Char) : List Char := cs.dropWhile isBlank

/-- What follows a comment, if one starts here. -/
def skipComment (cs : List Char) : List Char :=
  if cs.head? = some '#' then cs.dropWhile (!isLineEnd ·) else cs

/-- What follows the blanks and the comment at the end of a line. -/
def skipLineEnd (cs : List Char) : Option (List Char) :=
  match skipComment (skipBlanks cs) with
  | [] => some []
  | c :: rest => if isLineEnd c then some rest else none

/-- What follows blanks, comments and line ends. -/
def skipLines : (fuel : Nat) → List Char → List Char
  | 0, cs => cs
  | fuel + 1, cs =>
    match cs.dropWhile fun c => isBlank c || isLineEnd c with
    | '#' :: rest => skipLines fuel (skipComment ('#' :: rest))
    | cs => cs

/-! ## Texts -/

/-- The character that a letter after a backslash stands for. -/
def escaped? (c : Char) : Option Char :=
  ([('b', 0x08), ('t', 0x09), ('n', 0x0A), ('f', 0x0C), ('r', 0x0D), ('"', 0x22),
    ('\\', 0x5C)].lookup c).map Char.ofNat

/-- The value of digits in base sixteen. -/
def hexNumber (cs : List Char) : Option Nat :=
  cs.foldlM (fun n c => do
    let d ← Numeral.digitValue? (Text.byte c)
    if d < 16 && c.toNat < 128 then some (n * 16 + d) else none) 0

/-- What stands in front of a place in a text, as far as it matters to what follows: a line that is
joined to the next one, a backslash that stands for itself, or anything else. -/
inductive Before where
  | join
  | backslash
  | other
deriving DecidableEq, Repr

/-- How many quotes may stand in front of the three that close a text. -/
def Before.quotes : Before → Nat
  | .backslash => 3
  | _ => 2

/-- A text in double quotes from a place in it, and what follows the closing one. With `lines` it
goes on over lines and is closed by three quotes; `skip` characters belong to what was read
before, and after a line that is joined to the next one blanks and line ends are left out. -/
def basicFrom (lines : Bool) : (skip : Nat) → Before → List Char → Option (List Char × List Char)
  | _, _, [] => none
  | skip + 1, before, _ :: rest => basicFrom lines skip before rest
  | 0, before, c :: rest =>
    if before = .join && (isBlank c || isLineEnd c) then basicFrom lines 0 .join rest
    else if c = '"' then
      if !lines then some ([], rest)
      else if rest.take 2 = ['"', '"'] then
        let more := (rest.drop 2).takeWhile (· = '"')
        if before.quotes < more.length then none
        else some (more, (rest.drop 2).drop more.length)
      else (basicFrom lines 0 .other rest).map fun (cs, e) => (c :: cs, e)
    else if c = '\\' then
      match rest with
      | [] => none
      | x :: more =>
        let digits := if x = 'u' then 4 else if x = 'U' then 8 else 0
        if digits ≠ 0 then
          match hexNumber (more.take digits) with
          | some n =>
            if more.length < digits || !n.isValidChar then none
            else (basicFrom lines (digits + 1) .other rest).map fun (cs, e) => (Char.ofNat n :: cs, e)
          | none => none
        else
          match escaped? x with
          | some y =>
            let before := if y = '\\' then .backslash else .other
            (basicFrom lines 1 before rest).map fun (cs, e) => (y :: cs, e)
          | none =>
            if lines && ((skipBlanks rest).head?.map isLineEnd).getD false then
              basicFrom lines 0 .join rest
            else none
    else if isLineEnd c && !lines then none
    else (basicFrom lines 0 .other rest).map fun (cs, e) => (c :: cs, e)

/-- A text in single quotes from a place in it, and what follows the closing one. -/
def literalFrom (lines : Bool) : List Char → Option (List Char × List Char)
  | [] => none
  | c :: rest =>
    if c = '\'' then
      if !lines then some ([], rest)
      else if rest.take 2 = ['\'', '\''] then
        let more := (rest.drop 2).takeWhile (· = '\'')
        if 2 < more.length then none else some (more, (rest.drop 2).drop more.length)
      else (literalFrom lines rest).map fun (cs, e) => (c :: cs, e)
    else if isLineEnd c && !lines then none
    else (literalFrom lines rest).map fun (cs, e) => (c :: cs, e)

/-- What follows a line end at the start. -/
def dropLineEnd : List Char → List Char
  | '\n' :: rest => rest
  | '\r' :: '\n' :: rest => rest
  | cs => cs

/-- The text on one line at a place. -/
def shortText : List Char → Option (List Char × List Char)
  | '"' :: rest => basicFrom false 0 .other rest
  | '\'' :: rest => literalFrom false rest
  | _ => none

/-- **The text** at a place. -/
def textAt (cs : List Char) : Option (List Char × List Char) :=
  if cs.take 3 = ['"', '"', '"'] then basicFrom true 0 .other (dropLineEnd (cs.drop 3))
  else if cs.take 3 = ['\'', '\'', '\''] then literalFrom true (dropLineEnd (cs.drop 3))
  else shortText cs

/-! ## Keys -/

/-- Whether a character may stand in a key without quotes. -/
def isBareKeyChar (c : Char) : Bool := c.isAlphanum || c = '_' || c = '-'

/-- One part of a key. -/
def keyPart (cs : List Char) : Option (Text × List Char) :=
  match cs with
  | [] => none
  | c :: _ =>
    if c = '"' || c = '\'' then (shortText cs).map fun (key, rest) => (Text.ofChars key, rest)
    else
      let key := cs.takeWhile isBareKeyChar
      if key.isEmpty then none else some (Text.ofChars key, cs.drop key.length)

/-- **The key** at a place: parts with points between them. -/
def keyAt : (fuel : Nat) → List Char → Option (List Text × List Char)
  | 0, _ => none
  | fuel + 1, cs => do
    let (part, rest) ← keyPart (skipBlanks cs)
    match skipBlanks rest with
    | '.' :: more =>
      let (parts, rest) ← keyAt fuel more
      return (part :: parts, rest)
    | rest => return ([part], rest)

/-! ## Numbers and moments -/

/-- Digits, of which each may be told apart from the next by an underscore, without the underscores. -/
def groupedDigits (isDigit : UInt8 → Bool) : Text → Option Text
  | [] => none
  | [d] => if isDigit d then some [d] else none
  | d :: e :: rest =>
    if !isDigit d then none
    else if e = Text.byte '_' then (groupedDigits isDigit rest).map (d :: ·)
    else (groupedDigits isDigit (e :: rest)).map (d :: ·)

/-- A text without the sign in front. -/
def unsigned (t : Text) : Text :=
  match t with
  | b :: rest => if b = Text.byte '+' || b = Text.byte '-' then rest else t
  | [] => []

/-- Whether a text is decimal digits without a needless zero in front. -/
def isDecimal (t : Text) : Bool :=
  match groupedDigits Text.isDigit t with
  | some digits => digits.length = 1 || digits.head? ≠ some (Text.byte '0')
  | none => false

/-- Whether a text writes a whole number. -/
def isWhole (t : Text) : Bool :=
  isDecimal (unsigned t) ||
    match t with
    | z :: mark :: digits =>
      let base := if mark = Text.byte 'x' then 16 else if mark = Text.byte 'o' then 8
        else if mark = Text.byte 'b' then 2 else 0
      z = Text.byte '0' &&
        (groupedDigits (fun b => ((Numeral.digitValue? b).map (decide <| · < base)).getD false)
          digits).isSome
    | _ => false

/-- Whether a text writes a number with a fraction or an exponent that double precision can hold, or
one that is no number. -/
def isFraction (t : Text) : Bool :=
  let body := unsigned t
  let mark : UInt8 → Bool := fun b => b = Text.byte 'e' || b = Text.byte 'E'
  let mantissa := body.takeWhile (!mark ·)
  let power := body.drop mantissa.length
  let first := mantissa.takeWhile (· ≠ Text.byte '.')
  let places := mantissa.drop first.length
  body = Text.ofString "inf" || body = Text.ofString "nan" ||
    (isDecimal first && !(places.isEmpty && power.isEmpty) &&
      (places.isEmpty || (groupedDigits Text.isDigit (places.drop 1)).isSome) &&
      (power.isEmpty || (groupedDigits Text.isDigit (unsigned (power.drop 1))).isSome) &&
      ((Decimal.parse (t.filter (· ≠ Text.byte '_'))).bind Decimal.whole?).isSome)

/-- What follows a date at the start of a text. -/
def afterDate? (t : Text) : Option Text := do
  let (year, t) ← Moment.digits? 4 t
  let (month, t) ← Moment.digits? 2 (← Moment.after? '-' t)
  let (day, t) ← Moment.digits? 2 (← Moment.after? '-' t)
  if Moment.isDate year month day then return t else none

/-- What follows a time of day at the start of a text. -/
def afterTime? (t : Text) : Option Text := do
  let (hour, t) ← Moment.digits? 2 t
  let (minute, t) ← Moment.digits? 2 (← Moment.after? ':' t)
  let (second, t) ← Moment.digits? 2 (← Moment.after? ':' t)
  if Moment.isTime hour minute second then return Moment.afterFraction ['.'] t else none

/-- Whether a text is a date, a time of day or both. Only both together may have a zone. -/
def isMoment (t : Text) : Bool :=
  let t := (t.replace (Text.byte 't') (Text.byte 'T')).replace (Text.byte 'z') (Text.byte 'Z')
  let t := t.replace (Text.byte ' ') (Text.byte 'T')
  match afterDate? t with
  | some [] => true
  | some rest =>
    match (Moment.after? 'T' rest).bind afterTime? with
    | some zone => zone.isEmpty || Moment.isZone zone
    | none => false
  | none => afterTime? t = some []

/-- The value that a word writes. -/
def wordValue (t : Text) : Option Value :=
  if t = Text.ofString "true" then some (.flag true)
  else if t = Text.ofString "false" then some (.flag false)
  else if isWhole t then
    let bare := t.filter (· ≠ Text.byte '_')
    match Numeral.integer bare with
    | .ok n => some (.whole n)
    | .error _ => none
  else if isFraction t || isMoment t then some .other
  else none

/-- Whether a character may stand in a word that is a value. -/
def isWordChar (c : Char) : Bool := c.isAlphanum || ['+', '-', '_', '.', ':'].contains c

/-- The word at a place. A blank may stand between a date and a time of day. -/
def wordAt (cs : List Char) : List Char × List Char :=
  let word := cs.takeWhile isWordChar
  let rest := cs.drop word.length
  match rest with
  | ' ' :: d :: _ =>
    if afterDate? (Text.ofChars word) = some [] && d.isDigit then
      let time := (rest.drop 1).takeWhile isWordChar
      (word ++ ' ' :: time, rest.drop (time.length + 1))
    else (word, rest)
  | _ => (word, rest)

/-! ## Values -/

/-- **What was read** at a place: something, the table as it is filled now, and what follows. -/
structure Reading (α : Type) where
  value : α
  filling : Filling
  rest : List Char

mutual

/-- **The value** at a place, which is meant for the key `name` of the table that `context` leads to.
A table in braces is filled at once where it is meant to be: under its key or, with `item`, as a
further table under the key of the list it is in. -/
def valueAt : (fuel : Nat) → (item : Bool) → (context : List Text) → (name : Text) → Filling →
    List Char → Option (Reading Value)
  | 0, _, _, _, _, _ => none
  | fuel + 1, item, context, name, f, cs =>
    match cs with
    | [] => none
    | c :: rest =>
      if c = '"' || c = '\'' then (textAt cs).map fun (t, rest) => ⟨.text (Text.ofChars t), f, rest⟩
      else if c = '[' then do
        let r ← itemsAt fuel context name (f.setKind context name true) rest
        return ⟨.list r.value, r.filling, r.rest⟩
      else if c = '\x7b' then do
        let path := context ++ [name]
        let f ← (f.mark path).openTable path item
        let r ← fieldsAt fuel true path [] f rest
        return ⟨.table r.value, r.filling, r.rest⟩
      else
        let (word, rest) := wordAt cs
        (wordValue (Text.ofChars word)).map fun v => ⟨v, f, rest⟩

/-- The items of a list up to its closing bracket. -/
def itemsAt : (fuel : Nat) → (context : List Text) → (name : Text) → Filling → List Char →
    Option (Reading (List Value))
  | 0, _, _, _, _ => none
  | fuel + 1, context, name, f, cs => do
    match skipLines (cs.length + 1) cs with
    | ']' :: rest => return ⟨[], f, rest⟩
    | cs =>
      let one ← valueAt fuel true context name f cs
      match skipLines (one.rest.length + 1) one.rest with
      | ',' :: rest =>
        let more ← itemsAt fuel context name one.filling rest
        return { more with value := one.value :: more.value }
      | ']' :: rest => return ⟨[one.value], one.filling, rest⟩
      | _ => none

/-- The fields of a table in braces after those in `fields`, up to its closing brace. A table may be
empty, but no comma stands in front of the brace. -/
def fieldsAt : (fuel : Nat) → (first : Bool) → (context : List Text) → Fields → Filling →
    List Char → Option (Reading Fields)
  | 0, _, _, _, _, _ => none
  | fuel + 1, first, context, fields, f, cs => do
    let cs := skipBlanks cs
    if first && cs.head? = some '\x7d' then return ⟨[], f, cs.drop 1⟩
    let one ← entryAt fuel context f cs
    let fields ← fields.insert one.value.1 one.value.2
    match skipBlanks one.rest with
    | ',' :: rest => fieldsAt fuel false context fields one.filling rest
    | '\x7d' :: rest => return ⟨fields, one.filling, rest⟩
    | _ => none

/-- **A key and its value**, set in the table that `context` leads to. -/
def entryAt : (fuel : Nat) → (context : List Text) → Filling → List Char →
    Option (Reading (List Text × Value))
  | 0, _, _, _ => none
  | fuel + 1, context, f, cs => do
    let (key, rest) ← keyAt (cs.length + 1) cs
    match rest with
    | '=' :: rest =>
      let name ← key.getLast?
      let inner := context ++ key.dropLast
      let f ← f.openParts context key.dropLast
      let r ← valueAt fuel false inner name f (skipBlanks rest)
      let f ← r.filling.set inner name r.value
      let isList := match r.value with
        | .list _ => true
        | _ => false
      return ⟨(key, r.value), f.setKind inner name isList, r.rest⟩
    | _ => none

end

/-! ## Lines -/

/-- One line read into the table of the header `context`; its value is the header that is open
behind it. -/
def lineAt (context : List Text) (f : Filling) (cs : List Char) :
    Option (Reading (List Text)) := do
  match cs with
  | '[' :: '[' :: rest =>
    let (header, rest) ← keyAt (rest.length + 1) rest
    match rest with
    | ']' :: ']' :: rest =>
      let f ← f.openTable header true
      return ⟨header, f.setKind header [] false, ← skipLineEnd rest⟩
    | _ => none
  | '[' :: rest =>
    let (header, rest) ← keyAt (rest.length + 1) rest
    match rest with
    | ']' :: rest =>
      let f ← f.openTable header false
      return ⟨header, f.setKind header [] false, ← skipLineEnd rest⟩
    | _ => none
  | _ =>
    let r ← entryAt (cs.length + 1) context f cs
    return ⟨context, r.filling, ← skipLineEnd r.rest⟩

/-- The lines of a text read one after the other. -/
def linesFrom : (fuel : Nat) → (context : List Text) → Filling → List Char → Option Fields
  | 0, _, _, _ => none
  | fuel + 1, context, f, cs =>
    match skipLines (cs.length + 1) cs with
    | [] => some f.fields
    | cs =>
      match lineAt context f cs with
      | some r => linesFrom fuel r.value r.filling r.rest
      | none => none

/-- Whether characters may stand in a TOML text: no control codes but tabs and line ends, and a
carriage return only in front of a line feed. -/
def areAllowed : List Char → Bool
  | [] => true
  | c :: rest =>
    (isBlank c || c = '\n' || (c = '\r' && rest.head? = some '\n') ||
      (0x20 ≤ c.toNat && c.toNat ≠ 0x7F)) && areAllowed rest

/-- Bytes without the mark of an encoding at their start. -/
def dropMark : Text → Text
  | 0xFF :: 0xFE :: rest => rest
  | 0xFE :: 0xFF :: rest => rest
  | 0xEF :: 0xBB :: 0xBF :: rest => rest
  | t => t

/-- **The table that a TOML text fills**, if it keeps to the rules. -/
def read (source : Text) : Option Fields := do
  let cs ← (dropMark source).chars?
  if areAllowed cs then linesFrom (cs.length + 1) [] {} cs else none

end Toml

end TealAudit
