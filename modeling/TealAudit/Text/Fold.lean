import TealAudit.Text.Point

/-!
# Names in any case

A name made of ASCII characters is recognised in any case. Two letters outside ASCII fold onto ASCII
ones under Unicode's simple case folding: the long s onto `s` and the Kelvin sign onto `k`; no other
code point does, so folding those and the capital letters decides equality with an ASCII name.
-/

namespace TealAudit

/-- A code point with its case folded, as far as the result is an ASCII character. -/
def foldCase (c : Char) : Char :=
  if 'A' ≤ c && c ≤ 'Z' then Char.ofNat (c.toNat + 32)
  else if c.toNat = 0x17F then 's'
  else if c.toNat = 0x212A then 'k'
  else c

/-- A point with its case folded. -/
def Point.fold : Point → Point
  | .scalar c => .scalar (foldCase c)
  | .stray b => .stray b

/-- Whether a text spells the ASCII name `name` in any case. -/
def Text.spells (t name : Text) : Bool := t.points.map Point.fold = name.points.map Point.fold

end TealAudit
