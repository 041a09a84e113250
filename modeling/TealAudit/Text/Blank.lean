import TealAudit.Text.Point

/-!
# White space

Which points are white space, and trimming a text of it. The set is Unicode's `White_Space`; a byte
that belongs to no code point is never white space.
-/

namespace TealAudit

/-- The ranges of white space, ends included. -/
def Point.blankRanges : List (Nat × Nat) :=
  [(0x09, 0x0D), (0x20, 0x20), (0x85, 0x85), (0xA0, 0xA0), (0x1680, 0x1680), (0x2000, 0x200A),
    (0x2028, 0x2029), (0x202F, 0x202F), (0x205F, 0x205F), (0x3000, 0x3000)]

/-- Whether a point is white space. -/
def Point.isBlank : Point → Bool
  | .scalar c => Point.blankRanges.any fun r => r.1 ≤ c.toNat && c.toNat ≤ r.2
  | .stray _ => false

namespace Text

/-- The text from its first point that is not white space. -/
def trimStart (t : Text) : Text := ofPoints (t.points.dropWhile Point.isBlank)

/-- The text without white space at its two ends. -/
def trim (t : Text) : Text :=
  ofPoints (((t.points.dropWhile Point.isBlank).reverse.dropWhile Point.isBlank).reverse)

/-- The white space that a text starts with. -/
def indent (t : Text) : List Point := t.points.takeWhile Point.isBlank

/-- Whether a text holds white space only. -/
def isBlank (t : Text) : Bool := t.points.all Point.isBlank

end Text

end TealAudit
