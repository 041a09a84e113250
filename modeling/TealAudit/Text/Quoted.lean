import TealAudit.Text.Printable

/-!
# Quoted texts

A text in double quotes on one line, from which it can be read back: printable code points stand as
they are, the usual escapes are used for control characters that have one, a byte of no code point
and every other control character is written `\xNN`, and a code point that is not printable is
written `\uNNNN` or `\UNNNNNNNN`.
-/

namespace TealAudit

/-- The letter of the escape of a character, for those that have one. -/
def escapeLetter? (c : Char) : Option Char :=
  match c.toNat with
  | 0x07 => some 'a'
  | 0x08 => some 'b'
  | 0x0C => some 'f'
  | 0x0A => some 'n'
  | 0x0D => some 'r'
  | 0x09 => some 't'
  | 0x0B => some 'v'
  | 0x22 => some '"'
  | 0x5C => some '\\'
  | _ => none

/-- A point as it is written between quotes. -/
def Point.escape : Point → Text
  | .stray b => "\\x" ++ Text.hex 2 b.toNat
  | .scalar c =>
    match escapeLetter? c with
    | some letter => [Text.byte '\\', Text.byte letter]
    | none =>
      if isPrintable c then String.utf8EncodeChar c
      else if c.toNat < 0x80 then "\\x" ++ Text.hex 2 c.toNat
      else if c.toNat < 0x10000 then "\\u" ++ Text.hex 4 c.toNat
      else "\\U" ++ Text.hex 8 c.toNat

/-- **A text in quotes.** -/
def Text.quote (t : Text) : Text := "\"" ++ t.points.flatMap Point.escape ++ "\""

end TealAudit
