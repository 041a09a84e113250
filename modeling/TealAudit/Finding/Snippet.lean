import TealAudit.Finding
import TealAudit.Finding.Styled
import TealAudit.Text.Blank

/-!
# Snippets

The source lines that a finding is about, with their numbers. One range of lines is shown for each
block and for each single instruction; a range that is not within the source is left out. The
indentation that all shown lines share is taken away, and tabs become spaces up to the next stop.
-/

namespace TealAudit

/-- A range of source lines, ends included. -/
structure LineRange where
  first : Nat
  last : Nat
deriving DecidableEq, Repr

/-- The ranges of lines that a finding is about. -/
def Finding.ranges (f : Finding) : List LineRange :=
  f.blocks.map (fun b => ⟨b.span.1, b.span.2⟩) ++ f.instructions.map fun i => ⟨i.line, i.line⟩

namespace Snippet

/-- The lines of a source text as they are shown: what stands between line feeds. -/
def linesOf (source : Text) : List Text := Text.splitOn (Text.byte '\n') source

/-! ## Indentation -/

/-- The longest list that two lists start with. -/
def commonStart {α : Type} [DecidableEq α] : List α → List α → List α
  | a :: as, b :: bs => if a = b then a :: commonStart as bs else []
  | _, _ => []

/-- **The common indentation** of lines: the longest white space that every line starts with, lines
of nothing but white space left aside. -/
def commonIndent (lines : List Text) : Text :=
  match (lines.filter fun line => !line.isBlank).map Text.indent with
  | [] => []
  | first :: rest => Text.ofPoints (rest.foldl commonStart first)

/-! ## Tabs -/

/-- The distance between tab stops. -/
def tabStop : Nat := 8

/-- Points with their tabs turned into spaces, from a column on; a byte of no code point becomes the
replacement character. -/
def expandFrom (column : Nat) : List Point → Text
  | [] => []
  | .stray _ :: rest => String.utf8EncodeChar (Char.ofNat 0xFFFD) ++ expandFrom (column + 1) rest
  | .scalar c :: rest =>
    if c = '\t' then
      let n := tabStop - column % tabStop
      Text.spaces n ++ expandFrom (column + n) rest
    else String.utf8EncodeChar c ++ expandFrom (column + 1) rest

/-- A line with its tabs turned into spaces. -/
def expandTabs (line : Text) : Text := expandFrom 0 line.points

/-! ## Shown lines -/

/-- Whether a range lies within `count` lines. -/
def fits (count : Nat) (r : LineRange) : Bool :=
  0 < r.first && r.first ≤ r.last && r.last ≤ count

/-- The numbers of the lines of a range. -/
def numbers (r : LineRange) : List Nat := (List.range (r.last + 1 - r.first)).map (r.first + ·)

/-- The lines of a range, with their numbers. -/
def rows (source : List Text) (r : LineRange) : List (Nat × Text) :=
  (numbers r).filterMap fun n => source[n - 1]?.map (n, ·)

/-- The lines of all ranges that fit. -/
def shown (source : List Text) (ranges : List LineRange) : List Text :=
  (ranges.filter (fits source.length)).flatMap fun r => (rows source r).map (·.2)

/-- A line of a snippet: its number on the right of `width` columns, and its text. -/
def row (width : Nat) (indent : Text) (r : Nat × Text) : List Piece :=
  [.styled .gutter (Text.padStart width (Text.ofNat r.1) ++ " | "),
    .plain (expandTabs (Text.dropStart indent r.2) ++ "\n")]

/-- The mark in front of a range: a bar before the first range, a colon before the later ones. -/
def rangeMark (width index : Nat) : Piece :=
  .styled .gutter (Text.spaces (width + 1) ++ (if index = 0 then "|\n" else ":\n"))

/-- **A snippet**: for each range that fits, its mark and its lines. -/
def render (width : Nat) (source : List Text) (ranges : List LineRange) : List Piece :=
  let indent := commonIndent (shown source ranges)
  ranges.zipIdx.flatMap fun (r, index) =>
    if fits source.length r then
      rangeMark width index :: (rows source r).flatMap (row width indent)
    else []

end Snippet

end TealAudit
