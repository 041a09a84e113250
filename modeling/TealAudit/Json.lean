import TealAudit.Text.Point

/-!
# Writing JSON

A JSON value is written over several lines, two spaces a level, with one item or field on each line.
Texts are safe inside a web page: the characters that a browser looks at are escaped, and so is what
is no valid text.
-/

namespace TealAudit

/-- **A JSON value.** Fields are written in the order in which they stand. -/
inductive Json where
  | null
  | text (t : Text)
  | number (n : Int)
  | list (items : List Json)
  | object (fields : List (Text × Json))
deriving Repr

namespace Json

/-- A point of a text in quotes. -/
def escape : Point → Text
  | .stray _ => "\\ufffd"
  | .scalar c =>
    if c = '"' then "\\\""
    else if c = '\\' then "\\\\"
    else if c = '\n' then "\\n"
    else if c = '\r' then "\\r"
    else if c = '\t' then "\\t"
    else if c = '\x08' then "\\b"
    else if c = '\x0c' then "\\f"
    else if c.toNat < 0x20 || ['<', '>', '&'].contains c || c.toNat = 0x2028 || c.toNat = 0x2029 then
      "\\u" ++ Text.hex 4 c.toNat
    else String.utf8EncodeChar c

/-- A text in quotes. -/
def quoted (t : Text) : Text := "\"" ++ t.points.flatMap escape ++ "\""

/-- Lines between brackets, each one level further in than `depth`. -/
def enclose (depth : Nat) (opening closing : Text) (lines : List Text) : Text :=
  if lines.isEmpty then opening ++ closing
  else
    let indented := lines.map (Text.spaces (2 * depth + 2) ++ ·)
    opening ++ "\n" ++ Text.join ",\n" indented ++ "\n" ++ Text.spaces (2 * depth) ++ closing

mutual

/-- A value `depth` levels in. -/
def renderAt (depth : Nat) : Json → Text
  | null => "null"
  | text t => quoted t
  | number n => Text.ofInt n
  | list items => enclose depth "[" "]" (itemLines depth items)
  | object fields => enclose depth "\x7b" "\x7d" (fieldLines depth fields)

/-- The items of a list `depth` levels in. -/
def itemLines (depth : Nat) : List Json → List Text
  | [] => []
  | item :: items => renderAt (depth + 1) item :: itemLines depth items

/-- The fields of an object `depth` levels in. -/
def fieldLines (depth : Nat) : List (Text × Json) → List Text
  | [] => []
  | (name, value) :: fields =>
    (quoted name ++ ": " ++ renderAt (depth + 1) value) :: fieldLines depth fields

end

/-- **A value as a text.** -/
def render (j : Json) : Text := renderAt 0 j

end Json

end TealAudit
