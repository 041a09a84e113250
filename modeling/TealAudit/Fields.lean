import TealAudit.Text.Blank

/-!
# The fields of a line

A source line is fields set apart by tabs and spaces, then perhaps a comment from `//` on. Two
things keep bytes together that would otherwise divide:

* a field that starts with a double quote is a **string** up to the next double quote that has no
  backslash before it, and a gap or a `//` inside it is part of the field;
* after a field `base64` or `b64`, and after `base64(` or `b64(` up to the closing bracket, a `//`
  is part of **coded** data and starts no comment.

`Fields.split` reads a line from the left and remembers the bytes of the field it is in, the last
one first.
-/

namespace TealAudit

/-- **A line cut up**: its fields, and its comment without the white space around it. -/
structure Fields where
  words : List Text
  comment : Text
deriving DecidableEq, Repr

namespace Fields

/-- Whether a byte divides fields. -/
def isGap (b : UInt8) : Bool := b = Text.byte ' ' || b = Text.byte '\t'

/-- Whether a word announces coded data. -/
def announcesCode (word : Text) : Bool := word = "base64" || word = "b64"

/-- A cut line with the field read so far in front, the bytes of which are `taken`, last one first.
Nothing is added while no byte is taken. -/
def addWord (taken : Text) (f : Fields) : Fields :=
  if taken.isEmpty then f else { f with words := taken.reverse :: f.words }

/-- Whether the string goes on behind a double quote: it starts one at the head of a field, and ends
the one it stands in unless a backslash precedes it. -/
def quoted (inString : Bool) (taken : Text) : Bool :=
  if inString then taken.head? = some (Text.byte '\\') else taken.isEmpty

/-- Whether the text at hand is coded behind a byte that is no gap. -/
def coded (inCode : Bool) (taken : Text) (b : UInt8) : Bool :=
  if b = Text.byte '(' then inCode || announcesCode taken.reverse
  else if b = Text.byte ')' then false
  else inCode

/-- The fields of what is left of a line, after the bytes `taken` of the field at hand. -/
def scan (inString inCode : Bool) (taken : Text) : Text → Fields
  | [] => addWord taken ⟨[], []⟩
  | b :: rest =>
    if isGap b then
      if inString then scan true inCode (b :: taken) rest
      else if taken.isEmpty then scan false inCode [] rest
      else addWord taken (scan false (announcesCode taken.reverse) [] rest)
    else if b = Text.byte '/' && rest.head? = some (Text.byte '/') && !inCode && !inString then
      addWord taken ⟨[], Text.trim (b :: rest)⟩
    else if b = Text.byte '"' then scan (quoted inString taken) inCode (b :: taken) rest
    else scan inString (coded inCode taken b) (b :: taken) rest

/-- **The fields and the comment of a line.** -/
def split (line : Text) : Fields := scan false false [] line

end Fields

end TealAudit
