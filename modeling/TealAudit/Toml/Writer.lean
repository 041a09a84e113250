import TealAudit.Document

/-!
# Writing TOML

A document is written with the values of a table first and its inner tables after them, each under a
header of its own. Inner tables are indented, and the first one stands after an empty line.
-/

namespace TealAudit

namespace Toml

/-- A byte of a text in quotes. -/
def quotedByte (b : UInt8) : Text :=
  let short := [(0x08, 'b'), (0x09, 't'), (0x0A, 'n'), (0x0C, 'f'), (0x0D, 'r'), (0x22, '"'),
    (0x5C, '\\')].lookup b.toNat
  match short with
  | some c => [Text.byte '\\', Text.byte c]
  | none => if b < 0x20 || b = 0x7F then "\\u" ++ Text.hex 4 b.toNat else [b]

/-- **A text in quotes.** -/
def quoted (t : Text) : Text := "\"" ++ t.flatMap quotedByte ++ "\""

/-- Whether a byte may stand in a name without quotes. -/
def isBareByte (b : UInt8) : Bool :=
  Text.isDigit b || (Text.byte 'a' ≤ b && b ≤ Text.byte 'z') ||
    (Text.byte 'A' ≤ b && b ≤ Text.byte 'Z') || b = Text.byte '_' || b = Text.byte '-'

/-- A name, in quotes where it needs them. -/
def name (t : Text) : Text := if !t.isEmpty && t.all isBareByte then t else quoted t

/-- A value that is no table. -/
def value? : Document → Option Text
  | .text t => some (quoted t)
  | .flag b => some (Document.flagText b)
  | .number n => some (Text.ofInt n)
  | .table _ => none

/-- The lines of the fields that are no tables. -/
def valueLines (indent : Nat) (fields : List (Text × Document)) : Text :=
  fields.flatMap fun (key, field) =>
    match value? field with
    | some written => Text.spaces indent ++ name key ++ " = " ++ written ++ "\n"
    | none => []

/-- The inner tables among fields, under the header `header`. -/
def tablesFrom (header : List Text) : List (Text × Document) → Text
  | [] => []
  | (key, .table inner) :: fields =>
    let path := header ++ [key]
    let indent := 2 * header.length
    let gap : Text := if header.isEmpty then "\n" else []
    gap ++ Text.spaces indent ++ "[" ++ Text.join "." (path.map name) ++ "]\n" ++
      valueLines (indent + 2) inner ++ tablesFrom path inner ++ tablesFrom header fields
  | _ :: fields => tablesFrom header fields

/-- **A table as a TOML text.** -/
def render (fields : List (Text × Document)) : Text := valueLines 0 fields ++ tablesFrom [] fields

end Toml

end TealAudit
