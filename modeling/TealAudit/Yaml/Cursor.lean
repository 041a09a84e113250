/-!
# Places in a YAML text

A YAML text is read from a cursor: what is still to be read, with the line and the column it starts
in. In YAML columns carry meaning, since what belongs together stands equally far to the right.
-/

namespace TealAudit

namespace Yaml

/-- **A place in a text**: what is still to be read, and where it starts. -/
structure Cursor where
  rest : List Char
  line : Nat := 0
  column : Nat := 0
deriving DecidableEq, Repr

/-- Whether a character is a space or a tab. -/
def isBlank (c : Char) : Bool := c = ' ' || c = '\t'

/-- Whether a character ends a line: a line feed, or a line or paragraph separator. -/
def isBreak (c : Char) : Bool := c = '\n' || c = '\u2028' || c = '\u2029'

/-- Whether a text ends or goes on with a blank or a line end. -/
def startsGap : List Char → Bool
  | [] => true
  | c :: _ => isBlank c || isBreak c

/-- Whether a text ends or goes on with a space or a line end. -/
def startsSpace : List Char → Bool
  | [] => true
  | c :: _ => c = ' ' || isBreak c

namespace Cursor

/-- The place after `n` characters of one line. -/
def forward (c : Cursor) (n : Nat) : Cursor := { c with rest := c.rest.drop n, column := c.column + n }

/-- Whether a line stands here that starts or ends a document. -/
def atMarker (c : Cursor) : Bool :=
  c.column = 0 && (c.rest.take 3 = ['-', '-', '-'] || c.rest.take 3 = ['.', '.', '.']) &&
    startsGap (c.rest.drop 3)

/-- The place at the end of the line. -/
def lineEnd (c : Cursor) : Cursor := c.forward (c.rest.takeWhile (!isBreak ·)).length

/-- Past a comment on this line, if one follows behind blanks. -/
def skipComment (c : Cursor) : Cursor :=
  if (c.rest.dropWhile isBlank).head? = some '#' then c.lineEnd else c

/-- The end of the last one of comments between which only blanks and line ends stand. `behind` is the
end of the last comment so far, and `comment` says whether a further one is being read. -/
def commentsFrom (comment : Bool) (behind : Cursor) : List Char → (line column : Nat) → Cursor
  | [], line, column => if comment then ⟨[], line, column⟩ else behind
  | c :: rest, line, column =>
    if isBreak c then
      commentsFrom false (if comment then ⟨c :: rest, line, column⟩ else behind) rest (line + 1) 0
    else if comment || c = '#' then commentsFrom true behind rest line (column + 1)
    else if isBlank c then commentsFrom false behind rest line (column + 1)
    else behind

/-- Past the comments that start here. -/
def skipComments (c : Cursor) : Cursor :=
  if c.rest.head? = some '#' then commentsFrom false c c.rest c.line c.column else c

/-- Past blanks, line ends and comments, and whether a key may start there. Tabs count as blanks in
brackets and where no key may start. At the start of a line outside of brackets a key may start. -/
def skipFrom (brackets : Bool) : (fuel : Nat) → (keyAllowed : Bool) → Cursor → Cursor × Bool
  | 0, keyAllowed, c => (c, keyAllowed)
  | fuel + 1, keyAllowed, c =>
    let isSkipped (x : Char) : Bool := x = ' ' || (x = '\t' && (brackets || !keyAllowed))
    let c := (c.forward (c.rest.takeWhile isSkipped).length).skipComments
    match c.rest with
    | x :: rest =>
      if isBreak x then skipFrom brackets fuel (!brackets || keyAllowed) ⟨rest, c.line + 1, 0⟩
      else (c, keyAllowed)
    | [] => (c, keyAllowed)

/-- Past all that stands in front of the next token, and whether a key may start there. -/
def skip (c : Cursor) (brackets keyAllowed : Bool) : Cursor × Bool :=
  skipFrom brackets (c.rest.length + 1) keyAllowed c

end Cursor

end Yaml

end TealAudit
