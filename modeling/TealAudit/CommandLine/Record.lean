import TealAudit.Text

/-!
# Records

A record is fields with commas between them. A field in double quotes may hold commas and line ends,
and a quote when it is written twice. Elsewhere a quote is an error, told by its line and column.
-/

namespace TealAudit

namespace Record

/-- **Why a text is no record**: there is none, or a quote is where it may not be. The place is given
by the line in which the record starts and by line and column. -/
inductive Fault where
  | nothing
  | bareQuote (start line column : Nat)
  | looseQuote (start line column : Nat)
deriving DecidableEq, Repr

/-- A place in words. -/
def placeText (start line column : Nat) : Text :=
  let inRecord : Text := if start = line then [] else "record on line " ++ Text.ofNat start ++ "; "
  inRecord ++ "parse error on line " ++ Text.ofNat line ++ ", column " ++ Text.ofNat column ++ ": "

/-- A fault in words. -/
def Fault.message : Fault → Text
  | nothing => "EOF"
  | bareQuote start line column => placeText start line column ++ "bare \" in non-quoted field"
  | looseQuote start line column =>
    placeText start line column ++ "extraneous or missing \" in quoted-field"

/-- Where a record is being read: in front of a field, in a field, in quotes, or behind a quote in
quotes. -/
inductive Mode where
  | start
  | bare
  | quoted
  | closing
deriving DecidableEq, Repr

/-- The fields of a record that starts in line `first`, from a place in it on; `field` is what has
been read of the field there. -/
def readFrom (first : Nat) : Mode → (field : Text) → (line column : Nat) → Text →
    Except Fault (List Text)
  | .quoted, _, line, column, [] => .error (.looseQuote first line column)
  | _, field, _, _, [] => .ok [field]
  | mode, field, line, column, b :: rest =>
    let isQuote := b = Text.byte '"'
    let isComma := b = Text.byte ','
    let isLineEnd := b = Text.byte '\n'
    match mode with
    | .quoted =>
      if isQuote then readFrom first .closing field line (column + 1) rest
      else if isLineEnd && !rest.isEmpty then
        readFrom first .quoted (field ++ [b]) (line + 1) 1 rest
      else readFrom first .quoted (field ++ [b]) line (column + 1) rest
    | .closing =>
      if isQuote then readFrom first .quoted (field ++ [b]) line (column + 1) rest
      else if isComma then (field :: ·) <$> readFrom first .start [] line (column + 1) rest
      else if isLineEnd then .ok [field]
      else .error (.looseQuote first line (column - 1))
    | mode =>
      if isQuote then
        if mode = .start then readFrom first .quoted [] line (column + 1) rest
        else .error (.bareQuote first line column)
      else if isComma then (field :: ·) <$> readFrom first .start [] line (column + 1) rest
      else if isLineEnd then .ok [field]
      else readFrom first .bare (field ++ [b]) line (column + 1) rest

/-- The record that follows blank lines, in line `line` or a later one. -/
def firstFrom : (line : Nat) → Text → Except Fault (List Text)
  | _, [] => .error .nothing
  | line, b :: rest =>
    if b = Text.byte '\n' then firstFrom (line + 1) rest
    else readFrom line .start [] line 1 (b :: rest)

/-- A text with every line end written as one, and none of a half one at its end. -/
def plainLineEnds : Text → Text
  | [] => []
  | [b] => if b = Text.byte '\r' then [] else [b]
  | b :: c :: rest =>
    if b = Text.byte '\r' && c = Text.byte '\n' then c :: plainLineEnds rest
    else b :: plainLineEnds (c :: rest)

/-- **The first record of a text.** An empty text has no fields. -/
def parse (t : Text) : Except Fault (List Text) :=
  if t.isEmpty then .ok [] else firstFrom 1 (plainLineEnds t)

end Record

end TealAudit
