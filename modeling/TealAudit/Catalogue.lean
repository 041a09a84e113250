import TealAudit.Detector
import TealAudit.Text.Blank
import TealAudit.Text.Width

/-!
# The catalogue of detectors

Detectors in a table with ruled lines. A column is as wide as its widest cell; headings are centred,
numbers stand on the right and all else on the left. A cell with line feeds takes several lines of
its row.
-/

namespace TealAudit.Catalogue

/-! ## Numbers -/

/-- Whether a text is a string of `n` digits or fewer, and at least one. -/
def areDigits (most : Option Nat) (t : Text) : Bool :=
  !t.isEmpty && t.all Text.isDigit && most.all fun m => t.length ≤ m

/-- Whether a text is a whole number, perhaps with commas before each three digits. -/
def isWhole (t : Text) : Bool :=
  match Text.splitOn (Text.byte ',') t with
  | [] => false
  | [digits] => areDigits none digits
  | first :: rest =>
    areDigits (some 3) first && rest.all fun piece => piece.length = 3 && areDigits none piece

/-- Whether a text is a number: perhaps a minus sign, a whole number, perhaps a point and digits. -/
def isNumber (t : Text) : Bool :=
  match Text.splitOn (Text.byte '.') (Text.dropStart "-" t) with
  | [whole] => isWhole whole
  | [whole, decimals] => isWhole whole && areDigits none decimals
  | _ => false

/-! ## Cells -/

/-- A text in the middle of `width` columns, an odd space on its right. -/
def centred (width : Nat) (t : Text) : Text :=
  let gap := width - t.width
  Text.spaces (gap / 2) ++ t ++ Text.spaces (gap - gap / 2)

/-- A text at its side of `width` columns: numbers on the right, all else on the left. -/
def aligned (width : Nat) (t : Text) : Text :=
  let gap := Text.spaces (width - t.width)
  if isNumber (Text.trim t) then gap ++ t else t ++ gap

/-- A row of texts between bars, each fitted to its column by `fit`. -/
def bars (fit : Nat → Text → Text) (widths : List Nat) (cells : List Text) : Text :=
  (List.zipWith (fun width cell => "| " ++ fit width cell ++ " ") widths cells).flatten ++ "|\n"

/-- The line of a rule. -/
def rule (widths : List Nat) : Text :=
  (widths.map fun width => "+" ++ List.replicate (width + 2) (Text.byte '-')).flatten ++ "+\n"

/-- The lines of a cell. -/
def cellLines (cell : Text) : List Text := Text.splitOn (Text.byte '\n') cell

/-- What stands in a row below the end of a shorter cell. -/
def filler : Text := "  "

/-- The lines of a row. -/
def rowLines (widths : List Nat) (row : List Text) : Text :=
  let cells := row.map cellLines
  let height := (cells.map List.length).foldl max 0
  (List.range height).flatMap fun k =>
    bars aligned widths (cells.map fun lines => lines[k]?.getD filler)

/-- The width of a column that holds these cells. -/
def columnWidth (cells : List Text) : Nat :=
  ((cells.flatMap cellLines).map Text.width).foldl max 0

/-- **A table** of rows that are as long as the headings. -/
def table (headings : List Text) (rows : List (List Text)) : Text :=
  let widths := headings.zipIdx.map fun (heading, k) =>
    columnWidth (heading :: rows.map fun row => row[k]?.getD [])
  rule widths ++ bars centred widths headings ++ rule widths ++ rows.flatMap (rowLines widths) ++
    rule widths

/-! ## Detectors -/

/-- The headings of the catalogue. -/
def headings : List Text := ["#", "NAME", "DESCRIPTION", "IMPACT", "CONFIDENCE", "TYPE"]

/-- The row of a detector, `index` detectors behind the first. -/
def row (d : Descriptor) (index : Nat) : List Text :=
  [Text.ofNat (index + 1), d.name, d.description, d.impact.text, d.confidence.text, d.type.text]

/-- **The catalogue of detectors**, numbered from one. -/
def render (ds : List Descriptor) : Text := table headings (ds.zipIdx.map fun (d, k) => row d k)

end TealAudit.Catalogue
