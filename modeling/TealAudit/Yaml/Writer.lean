import TealAudit.Document
import TealAudit.Text.Point
import TealAudit.Yaml.Cursor
import TealAudit.Yaml.Value

/-!
# Writing YAML

A document is written as maps by indentation, two spaces a level. A text is written plain where that
reads back as the same text; in double quotes where it would be read as something else than a text
or has characters that are not shown; in single quotes where it would be read as something else than
a scalar; and as a block where it has several lines. A name that is long or has several lines is
marked as a key.

A block has one line end less in front than its text: the line of its mark is ended by the first line
end of the text, if it starts with one.
-/

namespace TealAudit

namespace Yaml

/-! ## How a text may be written -/

/-- Words that older readers take for flags. -/
def olderFlags : List Text :=
  ["y", "Y", "yes", "Yes", "YES", "on", "On", "ON", "n", "N", "no", "No", "NO", "off", "Off", "OFF"]

/-- Whether the parts after the first colon of a number in base 60 are as they should be: one or two
digits below 60 each, and a fraction at most at the end. -/
def isSexagesimalTail (parts : List Text) : Bool :=
  match parts with
  | [] => false
  | [last] =>
    let head := last.takeWhile (· ≠ Text.byte '.')
    isPart head && (last.drop (head.length + 1)).all fun b => Text.isDigit b || b = Text.byte '_'
  | part :: parts => isPart part && isSexagesimalTail parts
where
  /-- Whether digits are a number below 60. -/
  isPart (t : Text) : Bool :=
    (t.length = 1 || t.length = 2) && t.all Text.isDigit && decide (Decimal.ofDigits t < 60)

/-- Whether older readers take a text for a number in base 60. -/
def isSexagesimal (t : Text) : Bool :=
  match Text.splitOn (Text.byte ':') (Decimal.signed t).2 with
  | first :: parts =>
    (first.head?.map Text.isDigit).getD false &&
      first.all (fun b => Text.isDigit b || b = Text.byte '_') && isSexagesimalTail parts
  | [] => false

/-- Whether a text reads as a text when it is written plain. -/
def meansItself (t : Text) : Bool :=
  meaning t = .text t && !isSexagesimal t && !olderFlags.contains t

/-- Whether a character is shown as it is. -/
def isShown (c : Char) : Bool :=
  let n := c.toNat
  n = 0x0A || (0x20 ≤ n && n ≤ 0x7E) || (0xA0 ≤ n && n ≤ 0xFFFD && n ≠ 0xFEFF)

/-- Whether a blank follows, or nothing. -/
def blankFollows : List Char → Bool
  | [] => true
  | c :: _ => c = ' ' || c = '\t'

/-- Characters that may not start a plain scalar. -/
def startMarks : List Char :=
  ['#', ',', '[', ']', '\x7b', '\x7d', '&', '*', '!', '|', '>', '\'', '"', '%', '@', '\x60']

/-- Whether a mark stands within a text that would end a plain scalar: a colon in front of a blank,
or a number sign after one. -/
def hasInnerMark : (blankBefore : Bool) → List Char → Bool
  | _, [] => false
  | blankBefore, c :: rest =>
    (c = ':' && blankFollows rest) || (c = '#' && blankBefore) || hasInnerMark (isBlank c) rest

/-- Whether the marks in a text keep it from being written plain. -/
def hasMark (cs : List Char) : Bool :=
  match cs with
  | [] => false
  | c :: rest =>
    cs.take 3 = ['-', '-', '-'] || cs.take 3 = ['.', '.', '.'] || startMarks.contains c ||
      ((c = '-' || c = '?') && blankFollows rest) || hasInnerMark false cs

/-- Whether a line end is lost in a text on one line: a carriage return and a next-line code are line
ends, too. -/
def endsLine (c : Char) : Bool := isBreak c || c = '\r' || c = '\u0085'

/-- Whether one kind of character stands right in front of another one. -/
def hasPair (first second : Char → Bool) : List Char → Bool
  | a :: b :: rest => (first a && second b) || hasPair first second (b :: rest)
  | _ => false

/-- Whether a space stands right in front of a line end. -/
def hasSpaceBeforeLineEnd (cs : List Char) : Bool := hasPair (· = ' ') endsLine cs

/-- Whether a line starts with a space behind a line end. -/
def hasSpaceAfterLineEnd (cs : List Char) : Bool := hasPair endsLine (· = ' ') cs

/-- Whether a text may be written as a block. -/
def isBlockable (cs : List Char) : Bool :=
  cs.getLast? ≠ some ' ' && !hasSpaceBeforeLineEnd cs && cs.all fun c => c = '\t' || isShown c

/-- Whether a text may be written in single quotes. -/
def isQuotable (cs : List Char) : Bool :=
  cs.all isShown && !hasSpaceBeforeLineEnd cs && !hasSpaceAfterLineEnd cs

/-- Whether a text that means itself may be written plain. -/
def isPlain (cs : List Char) : Bool :=
  isQuotable cs && !cs.any endsLine && !hasMark cs && cs.head? ≠ some ' ' && cs.getLast? ≠ some ' '

/-- **A way of writing a text.** -/
inductive Style where
  | plain
  | single
  | double
  | block
deriving DecidableEq, Repr

/-- **The way in which a text is written.** `means` says whether it means itself when it is plain. -/
def Style.of (means : Bool) (cs : List Char) : Style :=
  if cs.contains '\n' then if isBlockable cs then block else double
  else if !means then double
  else if isPlain cs then plain
  else if isQuotable cs then single
  else double

/-! ## The ways of writing -/

/-- A number in base sixteen with capital letters. -/
def capitalHex (width n : Nat) : Text :=
  (Text.hex width n).map fun b => if Text.byte 'a' ≤ b then b - 32 else b

/-- An escaped character. -/
def escaped (c : Char) : Text :=
  let short := [(0x00, '0'), (0x07, 'a'), (0x08, 'b'), (0x09, 't'), (0x0A, 'n'), (0x0B, 'v'),
    (0x0C, 'f'), (0x0D, 'r'), (0x1B, 'e'), (0x22, '"'), (0x5C, '\\'), (0x85, 'N'), (0xA0, '_'),
    (0x2028, 'L'), (0x2029, 'P')].lookup c.toNat
  match short with
  | some s => Text.byte '\\' :: String.utf8EncodeChar s
  | none =>
    if c.toNat ≤ 0xFF then "\\x" ++ capitalHex 2 c.toNat
    else if c.toNat ≤ 0xFFFF then "\\u" ++ capitalHex 4 c.toNat
    else "\\U" ++ capitalHex 8 c.toNat

/-- Characters in double quotes. A text that starts with a byte order mark is escaped as a whole. -/
def doubleQuoted (cs : List Char) : Text :=
  let all := cs.head? = some '\uFEFF'
  let write (c : Char) : Text :=
    if all || !isShown c || endsLine c || c = '"' || c = '\\' then escaped c
    else String.utf8EncodeChar c
  "\"" ++ cs.flatMap write ++ "\""

/-- Characters in single quotes. What follows a line end is indented by `indent` spaces. -/
def singleQuotedFrom (indent : Nat) : (lineStart : Bool) → List Char → Text
  | _, [] => []
  | lineStart, c :: rest =>
    if isBreak c || c = ' ' then String.utf8EncodeChar c ++ singleQuotedFrom indent (isBreak c) rest
    else
      let quote : List Char := if c = '\'' then [c] else []
      (if lineStart then Text.spaces indent else []) ++ Text.ofChars (quote ++ [c]) ++
        singleQuotedFrom indent false rest

/-- The mark of a block: how far its lines are indented, if that does not show, and what becomes of
its last line ends. -/
def blockMark (cs : List Char) : Text :=
  let hint : Text := if (cs.head?.map fun c => c = ' ' || isBreak c).getD false then "2" else []
  let chomping : Text :=
    match cs.reverse with
    | [] => "-"
    | [c] => if isBreak c then "+" else "-"
    | c :: d :: _ => if !isBreak c then "-" else if isBreak d then "+" else []
  "|" ++ hint ++ chomping

/-- The lines of a block, indented by `indent` spaces unless they are empty. The line of the mark is
ended by the first line, or by a line end that the text starts with. -/
def blockLinesFrom (indent : Nat) : (marked lineStart : Bool) → List Char → Text
  | _, _, [] => []
  | marked, lineStart, c :: rest =>
    if isBreak c then String.utf8EncodeChar c ++ blockLinesFrom indent false true rest
    else
      let lead : Text := if marked then "\n" else []
      lead ++ (if lineStart then Text.spaces indent else []) ++ String.utf8EncodeChar c ++
        blockLinesFrom indent false false rest

/-- Characters in a style. The lines of a text of several ones are indented by `indent` spaces. -/
def styled (indent : Nat) (cs : List Char) : Style → Text
  | .plain => Text.ofChars cs
  | .single => "'" ++ singleQuotedFrom indent false cs ++ "'"
  | .double => doubleQuoted cs
  | .block => blockMark cs ++ blockLinesFrom indent true true cs

/-! ## Scalars -/

/-- **A scalar that is to be written**: its tag, if it needs one, its characters and its style. -/
structure Written where
  tag : Text
  chars : List Char
  style : Style

/-- How many digits of base 64 stand on a line. -/
def base64Width : Nat := 70

/-- Bytes in base 64: on one line, or on several ones if they are many. -/
def base64Of (t : Text) : Text :=
  let digits := Base64.encode t
  if digits.length < base64Width then digits
  else Base64.lines base64Width (digits.length + 1) digits

/-- **A text as a scalar.** What is no valid text is written as bytes. -/
def Written.of (t : Text) : Written :=
  match t.chars? with
  | some cs => ⟨[], cs, .of (meansItself t) cs⟩
  | none =>
    let cs := (base64Of t).map fun b => Char.ofNat b.toNat
    ⟨bytesTag, cs, .of true cs⟩

namespace Written

/-- A scalar in its style. -/
def render (w : Written) (indent : Nat) : Text :=
  let tag : Text := if w.tag.isEmpty then [] else w.tag ++ Text.spaces 1
  tag ++ styled indent w.chars w.style

/-- Whether the last line of a scalar is ended by the scalar itself. -/
def isEnded (w : Written) : Bool := w.style = .block && (w.chars.getLast?.map isBreak).getD false

/-- A scalar in its style with the line ended. -/
def renderLine (w : Written) (indent : Nat) : Text :=
  if w.isEnded then w.render indent else w.render indent ++ "\n"

/-- Whether a scalar may stand in front of a colon without being marked as a key: it is short, and its
text is on one line. -/
def isShortKey (w : Written) : Bool :=
  !w.chars.any endsLine && w.tag.length + (Text.ofChars w.chars).length ≤ 128

end Written

/-! ## Documents -/

mutual

/-- What stands behind the colon of a field whose name stands in column `indent`. The first field of a
table behind a marked key stands on the line of the colon. -/
def renderValue (indent : Nat) (shortKey : Bool) : Document → Text
  | .text t => " " ++ (Written.of t).renderLine (indent + 2)
  | .flag b => " " ++ Document.flagText b ++ "\n"
  | .number n => " " ++ Text.ofInt n ++ "\n"
  | .table [] => " \x7b\x7d\n"
  | .table fields =>
    let lines := renderFrom (indent + 2) fields
    if shortKey then "\n" ++ lines else " " ++ lines.drop (indent + 2)

/-- The fields of a table whose names stand in column `indent`. -/
def renderFrom (indent : Nat) : List (Text × Document) → Text
  | [] => []
  | (name, value) :: fields =>
    let key := Written.of name
    let start : Text :=
      if key.isShortKey then key.render (indent + 2) ++ ":"
      else "? " ++ key.renderLine (indent + 2) ++ Text.spaces indent ++ ":"
    Text.spaces indent ++ start ++ renderValue indent key.isShortKey value ++ renderFrom indent fields

end

/-- **A table as a YAML text.** -/
def render (fields : List (Text × Document)) : Text := renderFrom 0 fields

end Yaml

end TealAudit
