import TealAudit.Text.Point

/-!
# The characters of a YAML text

A YAML text is in UTF-8, or in UTF-16 when it starts with a mark that says so. Control codes may not
stand in it. Of the line ends a carriage return, with or without a line feed, and a next-line code
are read as a line feed; the line and the paragraph separator stay what they are.
-/

namespace TealAudit

namespace Yaml

/-- The units of UTF-16 that pairs of bytes write, the lower byte first if `little`. -/
def unitsOf (little : Bool) : Text → Option (List Nat)
  | [] => some []
  | [_] => none
  | a :: b :: rest =>
    let unit := if little then b.toNat * 256 + a.toNat else a.toNat * 256 + b.toNat
    (unitsOf little rest).map (unit :: ·)

/-- The characters that units of UTF-16 write. -/
def charsOfUnits : List Nat → Option (List Char)
  | [] => some []
  | [u] => if 0xD800 ≤ u && u < 0xE000 then none else some [Char.ofNat u]
  | u :: v :: rest =>
    if 0xD800 ≤ u && u < 0xDC00 then
      if 0xDC00 ≤ v && v < 0xE000 then
        let c := Char.ofNat (0x10000 + (u - 0xD800) * 0x400 + (v - 0xDC00))
        (charsOfUnits rest).map (c :: ·)
      else none
    else if 0xDC00 ≤ u && u < 0xE000 then none
    else (charsOfUnits (v :: rest)).map (Char.ofNat u :: ·)

/-- The characters of bytes, in the encoding that the mark at their start says. -/
def decode : Text → Option (List Char)
  | 0xFF :: 0xFE :: rest => (unitsOf true rest).bind charsOfUnits
  | 0xFE :: 0xFF :: rest => (unitsOf false rest).bind charsOfUnits
  | 0xEF :: 0xBB :: 0xBF :: rest => Text.chars? rest
  | t => t.chars?

/-- Whether a character may stand in a YAML text. -/
def isAllowed (c : Char) : Bool :=
  let n := c.toNat
  n = 0x09 || n = 0x0A || n = 0x0D || (0x20 ≤ n && n ≤ 0x7E) || n = 0x85 ||
    (0xA0 ≤ n && n ≤ 0xFFFD) || 0x10000 ≤ n

/-- Characters with every line end that is no separator written as a line feed. -/
def plainLineEnds : List Char → List Char
  | [] => []
  | '\r' :: '\n' :: rest => '\n' :: plainLineEnds rest
  | c :: rest => (if c = '\r' || c = '\u0085' then '\n' else c) :: plainLineEnds rest

/-- **The characters of a YAML text**, if it is one. -/
def charsOf? (source : Text) : Option (List Char) := do
  let cs ← decode source
  if cs.all isAllowed then return plainLineEnds cs else none

end Yaml

end TealAudit
