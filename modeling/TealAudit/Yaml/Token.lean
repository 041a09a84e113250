import TealAudit.Text
import TealAudit.Yaml.Scalar

/-!
# YAML tokens

A YAML text is a sequence of **tokens**: scalars and what stands around them. Some tokens are written
as marks; others show in the indentation only, such as the start and the end of a map. Here are the
tokens, and how those with a text of their own are read: anchors, tags and directives.
-/

namespace TealAudit

namespace Yaml

/-- **A token.** -/
inductive Token where
  /-- The version of the language that a document says it is in. -/
  | version (major minor : Nat)
  /-- A short form for the start of tags. -/
  | tagHandle (handle start : Text)
  | documentStart
  | documentEnd
  /-- The start of a list by indentation. -/
  | listStart
  /-- The start of a map by indentation. -/
  | mapStart
  /-- The end of a list or a map by indentation. -/
  | blockEnd
  | openList
  | closeList
  | openMap
  | closeMap
  | comma
  /-- The mark of an item of a list by indentation. -/
  | item
  /-- The start of a key, which is marked or shows in the colon behind it. -/
  | key
  /-- The colon in front of a value. -/
  | value
  | anchor (name : Text)
  | alias (name : Text)
  | tag (handle suffix : Text)
  | scalar (plain : Bool) (text : Text)
  /-- The end of the text. -/
  | finish
deriving DecidableEq, Repr

/-- Whether a character may stand in the name of an anchor. -/
def isNameChar (c : Char) : Bool := c.isAlphanum || c = '_' || c = '-'

/-- **The name of an anchor** whose mark stands at a place, and the place behind it. -/
def anchorName? (c : Cursor) : Option (Text × Cursor) :=
  let name := (c.rest.drop 1).takeWhile isNameChar
  let d := c.forward (name.length + 1)
  let ends := startsGap d.rest ||
    (d.rest.head?.map fun x => ['?', ':', ',', ']', '\x7d', '%', '@', '\x60'].contains x).getD false
  if name.isEmpty || !ends then none else some (Text.ofChars name, d)

/-! ## Tags -/

/-- Whether a character may stand in a tag. -/
def isTagChar (c : Char) : Bool :=
  isNameChar c || [';', '/', '?', ':', '@', '&', '=', '+', '$', ',', '.', '!', '~', '*', '\'', '(',
    ')', '[', ']'].contains c

/-- How many bytes have to follow a byte in its code point. -/
def tailLength? (n : Nat) : Option Nat :=
  if n < 0x80 then some 0
  else if n < 0xC0 then none
  else if n < 0xE0 then some 1
  else if n < 0xF0 then some 2
  else if n < 0xF8 then some 3
  else none

/-- The text of a tag, and what follows it. A per cent sign and two digits in base sixteen stand for a
byte; `tail` such bytes have to come before anything else. -/
def tagText : (tail : Nat) → List Char → Option (Text × List Char)
  | tail, '%' :: a :: b :: rest => do
    let n := (← hexValue? a) * 16 + (← hexValue? b)
    let tail ← if tail = 0 then tailLength? n
      else if 0x80 ≤ n && n < 0xC0 then some (tail - 1) else none
    let (t, more) ← tagText tail rest
    return (UInt8.ofNat n :: t, more)
  | tail, c :: rest =>
    if tail ≠ 0 || c = '%' then none
    else if isTagChar c then (tagText 0 rest).map fun (t, more) => (String.utf8EncodeChar c ++ t, more)
    else some ([], c :: rest)
  | tail, [] => if tail = 0 then some ([], []) else none

/-- A text that is not empty. -/
def someText (read : Text × List Char) : Option (Text × List Char) :=
  if read.1.isEmpty then none else some read

/-- The handle and the suffix of the tag at the start of characters, and what follows. A tag may be
written in full between angle brackets, with a handle between exclamation marks, or behind one. -/
def tagParts? (cs : List Char) : Option (Text × Text × List Char) :=
  match cs.drop 1 with
  | '<' :: rest => do
    let (t, more) ← (tagText 0 rest).bind someText
    match more with
    | '>' :: more => return ([], t, more)
    | _ => none
  | rest => do
    let name := rest.takeWhile isNameChar
    match rest.drop name.length with
    | '!' :: more =>
      let (t, more) ← (tagText 0 more).bind someText
      return (Text.ofChars ('!' :: name ++ ['!']), t, more)
    | more =>
      let (t, more) ← tagText 0 more
      let suffix := Text.ofChars name ++ t
      return if suffix.isEmpty then ([], "!", more) else ("!", suffix, more)

/-- **The tag** at a place, and the place behind it. -/
def tag? (c : Cursor) : Option (Token × Cursor) := do
  let (handle, suffix, more) ← tagParts? c.rest
  if startsGap more then return (.tag handle suffix, c.forward (c.rest.length - more.length)) else none

/-! ## Directives -/

/-- The number of at most two digits at the start of characters, and what follows. -/
def versionNumber? (cs : List Char) : Option (Nat × List Char) :=
  let digits := cs.takeWhile Char.isDigit
  if digits.isEmpty || 2 < digits.length then none
  else some (digits.foldl (fun n d => n * 10 + (d.toNat - 48)) 0, cs.drop digits.length)

/-- The directive behind its name, and what follows it on the line. -/
def directiveValue? (name cs : List Char) : Option (Token × List Char) :=
  let cs := cs.dropWhile isBlank
  if name = ['Y', 'A', 'M', 'L'] then do
    let (major, rest) ← versionNumber? cs
    match rest with
    | '.' :: rest =>
      let (minor, rest) ← versionNumber? rest
      return (.version major minor, rest)
    | _ => none
  else if name = ['T', 'A', 'G'] then
    match cs with
    | '!' :: rest => do
      let word := rest.takeWhile isNameChar
      let rest := rest.drop word.length
      let closed := rest.head? = some '!'
      let rest := if closed then rest.drop 1 else rest
      if (!closed && !word.isEmpty) || !((rest.head?.map isBlank).getD false) then none
      let (start, rest) ← (tagText 0 (rest.dropWhile isBlank)).bind someText
      if !startsGap rest then none
      return (.tagHandle (Text.ofChars ('!' :: word ++ if closed then ['!'] else [])) start, rest)
    | _ => none
  else none

/-- **The directive** whose mark stands at a place, and the place on the next line. -/
def directive? (c : Cursor) : Option (Token × Cursor) := do
  let name := (c.rest.drop 1).takeWhile isNameChar
  let rest := c.rest.drop (name.length + 1)
  if name.isEmpty || !startsGap rest then none
  let (token, rest) ← directiveValue? name rest
  let rest := rest.dropWhile isBlank
  let rest := if rest.head? = some '#' then rest.dropWhile (!isBreak ·) else rest
  match rest with
  | [] => return (token, c.lineEnd)
  | b :: rest => if isBreak b then return (token, ⟨rest, c.line + 1, 0⟩) else none

end Yaml

end TealAudit
