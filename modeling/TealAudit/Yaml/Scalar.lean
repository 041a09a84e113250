import TealAudit.Yaml.Cursor

/-!
# YAML scalars

A scalar may go on over several lines. Within a plain or a quoted scalar a line end counts as a
space and a blank line as a line end. A block scalar holds the lines that stand to the right of it,
as they are or with line ends as spaces.
-/

namespace TealAudit

namespace Yaml

/-! ## Gaps -/

/-- **A gap** between two words of a scalar: blanks, or line ends. Of line ends the first one stands
apart; it is not there when a backslash took it away. -/
inductive Gap where
  | blanks (cs : List Char)
  | lines (first : Option Char) (more : List Char)
deriving DecidableEq, Repr

namespace Gap

/-- Whether a gap has a line end. -/
def isLines : Gap → Bool
  | blanks _ => false
  | lines _ _ => true

/-- A gap that goes on with a blank: after a line end blanks are left out. -/
def blank (c : Char) : Gap → Gap
  | blanks cs => blanks (cs ++ [c])
  | gap => gap

/-- A gap that goes on with a line end. -/
def lineEnd (c : Char) : Gap → Gap
  | blanks _ => lines (some c) []
  | lines first more => lines first (more ++ [c])

/-- What a gap stands for: one line feed for a space, and of several ones the first for nothing. -/
def text : Gap → List Char
  | blanks cs => cs
  | lines (some '\n') [] => [' ']
  | lines (some '\n') more => more
  | lines first more => first.toList ++ more

end Gap

/-- The gap at a place, after its part `gap`, and the place behind it. -/
def gapFrom : Gap → List Char → (line column : Nat) → Gap × Cursor
  | gap, [], line, column => (gap, ⟨[], line, column⟩)
  | gap, c :: rest, line, column =>
    if isBlank c then gapFrom (gap.blank c) rest line (column + 1)
    else if isBreak c then gapFrom (gap.lineEnd c) rest (line + 1) 0
    else (gap, ⟨c :: rest, line, column⟩)

/-- Whether a tab stands to the left of column `floor` in a gap, where a line is indented. -/
def hasTabBefore (floor : Nat) : (indented : Bool) → List Char → (column : Nat) → Bool
  | _, [], _ => false
  | indented, c :: rest, column =>
    if isBreak c then hasTabBefore floor true rest 0
    else if isBlank c then
      (c = '\t' && indented && column < floor) || hasTabBefore floor indented rest (column + 1)
    else false

/-! ## Plain scalars -/

/-- Characters that start and end lists and maps in brackets. -/
def isBracketMark (c : Char) : Bool := [',', '[', ']', '\x7b', '\x7d'].contains c

/-- Characters that start something else than a plain scalar. -/
def isIndicator (c : Char) : Bool :=
  isBracketMark c ||
    ['-', '?', ':', '#', '&', '*', '!', '|', '>', '\'', '"', '%', '@', '\x60'].contains c

/-- Whether a plain scalar starts here. -/
def startsPlain (brackets : Bool) : List Char → Bool
  | [] => false
  | c :: rest =>
    !(isBlank c || isBreak c || isIndicator c) ||
      (c = '-' && !((rest.head?.map isBlank).getD false)) ||
      (!brackets && (c = '?' || c = ':') && !startsGap rest)

/-- The word of a plain scalar that stands here. -/
def plainWord (brackets : Bool) : List Char → List Char
  | [] => []
  | c :: rest =>
    if isBlank c || isBreak c || (c = ':' && startsGap rest) then []
    else if brackets && (isBracketMark c || (c = '?' && startsSpace rest)) then []
    else c :: plainWord brackets rest

/-- **A scalar that was read**: its characters, the place behind it, and whether that place is on a
later line than its last word. -/
structure ScalarRead where
  text : List Char
  behind : Cursor
  lineEnded : Bool

/-- The plain scalar that goes on at a place behind a gap. Outside of brackets its lines stand in
column `floor` or to the right of it. The gap behind the last word is read, too. -/
def plainFrom (brackets : Bool) (floor : Nat) : (fuel : Nat) → Gap → Cursor → Option ScalarRead
  | 0, _, _ => none
  | fuel + 1, gap, c =>
    let word := plainWord brackets c.rest
    if c.atMarker || c.rest.head? = some '#' || word.isEmpty then some ⟨[], c, gap.isLines⟩
    else do
      let d := c.forward word.length
      let (next, e) := gapFrom (.blanks []) d.rest d.line d.column
      if hasTabBefore floor false d.rest d.column then none
      let more ←
        if next = .blanks [] || (!brackets && e.column < floor) then some ⟨[], e, next.isLines⟩
        else plainFrom brackets floor fuel next e
      return { more with text := gap.text ++ word ++ more.text }

/-- **The plain scalar** at a place. -/
def plain (brackets : Bool) (floor : Nat) (c : Cursor) : Option ScalarRead :=
  plainFrom brackets floor (c.rest.length + 1) (.blanks []) c

/-! ## Quoted scalars -/

/-- The character that a letter after a backslash stands for. -/
def escaped? (c : Char) : Option Char :=
  ([('0', 0x00), ('a', 0x07), ('b', 0x08), ('t', 0x09), ('\t', 0x09), ('n', 0x0A), ('v', 0x0B),
    ('f', 0x0C), ('r', 0x0D), ('e', 0x1B), (' ', 0x20), ('"', 0x22), ('\'', 0x27), ('\\', 0x5C),
    ('N', 0x85), ('_', 0xA0), ('L', 0x2028), ('P', 0x2029)].lookup c).map Char.ofNat

/-- How many digits in base sixteen follow a letter after a backslash. -/
def escapedDigits? (c : Char) : Option Nat := [('x', 2), ('u', 4), ('U', 8)].lookup c

/-- The value of a digit in base sixteen. -/
def hexValue? (c : Char) : Option Nat :=
  if '0' ≤ c && c ≤ '9' then some (c.toNat - 48)
  else if 'a' ≤ c && c ≤ 'f' then some (c.toNat - 87)
  else if 'A' ≤ c && c ≤ 'F' then some (c.toNat - 55)
  else none

/-- The character with a number, if there is one. -/
def charOf? (n : Nat) : Option Char := if n.isValidChar then some (Char.ofNat n) else none

/-- What a quoted scalar is in the middle of: a gap, or the number of a character of which `left`
digits are still to come. -/
inductive Quoting where
  | gap (g : Gap)
  | number (left value : Nat)

/-- A quoted scalar from a place in it up to its closing quote, and the place behind. In double
quotes a backslash escapes; in single quotes a quote is written twice. -/
def quotedFrom (double : Bool) : Quoting → List Char → (line column : Nat) →
    Option (List Char × Cursor)
  | _, [], _, _ => none
  | .number left value, c :: rest, line, column => do
    let value := value * 16 + (← hexValue? c)
    match left with
    | 0 => none
    | 1 =>
      let (cs, e) ← quotedFrom double (.gap (.blanks [])) rest line (column + 1)
      return ((← charOf? value) :: cs, e)
    | left + 1 => quotedFrom double (.number left value) rest line (column + 1)
  | .gap g, c :: rest, line, column => do
    if isBlank c then quotedFrom double (.gap (g.blank c)) rest line (column + 1)
    else if isBreak c then quotedFrom double (.gap (g.lineEnd c)) rest (line + 1) 0
    else if (⟨c :: rest, line, column⟩ : Cursor).atMarker then none
    else if c = '"' && double then return (g.text, ⟨rest, line, column + 1⟩)
    else if c = '\'' && !double then
      match rest with
      | '\'' :: more =>
        let (cs, e) ← quotedFrom double (.gap (.blanks [])) more line (column + 2)
        return (g.text ++ '\'' :: cs, e)
      | _ => return (g.text, ⟨rest, line, column + 1⟩)
    else if c = '\\' && double then
      match rest with
      | [] => none
      | x :: more =>
        if isBreak x then
          let (cs, e) ← quotedFrom double (.gap (.lines none [])) more (line + 1) 0
          return (g.text ++ cs, e)
        else
        match escaped? x, escapedDigits? x with
        | some y, _ =>
          let (cs, e) ← quotedFrom double (.gap (.blanks [])) more line (column + 2)
          return (g.text ++ y :: cs, e)
        | none, some n =>
          let (cs, e) ← quotedFrom double (.number n 0) more line (column + 2)
          return (g.text ++ cs, e)
        | none, none => none
    else
      let (cs, e) ← quotedFrom double (.gap (.blanks [])) rest line (column + 1)
      return (g.text ++ c :: cs, e)

/-- **The quoted scalar** whose opening quote stands at a place. -/
def quoted (double : Bool) (c : Cursor) : Option ScalarRead :=
  (quotedFrom double (.gap (.blanks [])) (c.rest.drop 1) c.line (c.column + 1)).map
    fun (text, behind) => ⟨text, behind, false⟩

/-! ## Block scalars -/

/-- What becomes of the line ends at the end of a block scalar: none is kept, one, or all. -/
inductive Chomping where
  | strip
  | clip
  | keep
deriving DecidableEq, Repr

/-- The chomping that a sign asks for. -/
def chomping? (c : Char) : Option Chomping :=
  if c = '-' then some .strip else if c = '+' then some .keep else none

/-- The indentation that a digit asks for. -/
def indentation? (c : Char) : Option Nat := if '1' ≤ c && c ≤ '9' then some (c.toNat - 48) else none

/-- What the line that opens a block scalar asks for, after its mark. -/
def blockHeader (line : List Char) : Option (Chomping × Option Nat) :=
  let sign := line.head?.bind chomping?
  let line := if sign.isSome then line.drop 1 else line
  let digit := line.head?.bind indentation?
  let line := if digit.isSome then line.drop 1 else line
  let later := if sign.isNone then line.head?.bind chomping? else none
  let line := (if later.isSome then line.drop 1 else line).dropWhile isBlank
  if line.isEmpty || line.head? = some '#' then some ((sign <|> later).getD .clip, digit) else none

/-- **A line** and the line end behind it, which the last line of a text does not have. -/
structure Line where
  text : List Char
  ending : Option Char
deriving DecidableEq, Repr

/-- The lines of a text. -/
def linesOf : List Char → List Line
  | [] => [⟨[], none⟩]
  | c :: rest =>
    if isBreak c then ⟨[], some c⟩ :: linesOf rest
    else
      match linesOf rest with
      | line :: lines => { line with text := c :: line.text } :: lines
      | [] => [⟨[c], none⟩]

/-- The characters of lines. -/
def ofLines (lines : List Line) : List Char := lines.flatMap fun line => line.text ++ line.ending.toList

/-- How many spaces a line starts with. -/
def Line.spaces (line : Line) : Nat := (line.text.takeWhile (· = ' ')).length

/-- The column in which a block scalar stands that does not say it: that of its first line, or of a
blank line in front that is longer. A tab may not stand there. -/
def blockColumn? : List Line → Option Nat
  | [] => some 0
  | line :: lines =>
    match line.text.drop line.spaces with
    | [] => if lines.isEmpty then some line.spaces else (blockColumn? lines).map (max line.spaces)
    | c :: _ => if c = '\t' then none else some line.spaces

/-- What a block scalar has read: the line end that is open, whether the last line started with a
blank, and the ends of the blank lines that follow. -/
structure BlockState where
  opened : Option Char := none
  blank : Bool := false
  breaks : List Char := []

/-- The line ends that are written in front of a line. -/
def BlockState.lead (s : BlockState) (literal blank : Bool) : List Char :=
  let first : List Char :=
    if literal || s.blank || blank || s.opened ≠ some '\n' then s.opened.toList
    else if s.breaks.isEmpty then [' ']
    else []
  first ++ s.breaks

/-- The line ends that are written at the end. -/
def BlockState.tail (s : BlockState) (chomping : Chomping) : List Char :=
  match chomping with
  | .strip => []
  | .clip => s.opened.toList
  | .keep => s.opened.toList ++ s.breaks

/-- The text of a block scalar whose lines stand in column `column`, and the lines behind it. A tab
may not stand in the indentation. -/
def blockFrom (literal : Bool) (chomping : Chomping) (column : Nat) :
    BlockState → List Line → Option (List Char × List Line)
  | s, [] => some (s.tail chomping, [])
  | s, line :: lines =>
    let spaces := min column line.spaces
    if spaces = line.text.length then
      if lines.isEmpty then some (s.tail chomping, [])
      else blockFrom literal chomping column { s with breaks := s.breaks ++ line.ending.toList } lines
    else if spaces < column then
      if (line.text.drop spaces).head? = some '\t' then none
      else some (s.tail chomping, line :: lines)
    else do
      let content := line.text.drop column
      let blank := (content.head?.map isBlank).getD false
      let (more, behind) ← blockFrom literal chomping column ⟨line.ending, blank, []⟩ lines
      return (s.lead literal blank ++ content ++ more, behind)

/-- **The block scalar** whose mark stands at a place, in something whose parts stand in column
`floor` or to the right of it. -/
def block (floor : Nat) (c : Cursor) : Option ScalarRead := do
  let literal := c.rest.head? = some '|'
  let all := linesOf (c.rest.drop 1)
  let (chomping, indentation) ← blockHeader ((all.head?.map Line.text).getD [])
  let lines := all.drop 1
  let column ← match indentation with
    | some n => some (floor - 1 + n)
    | none => (blockColumn? lines).map fun n => max n (max floor 1)
  let (text, behind) ← blockFrom literal chomping column {} lines
  return ⟨text, ⟨ofLines behind, c.line + all.length - behind.length, 0⟩, true⟩

end Yaml

end TealAudit
