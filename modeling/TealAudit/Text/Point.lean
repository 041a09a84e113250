import TealAudit.Text

/-!
# Code points of a text

A text is read as UTF-8 where it is valid and byte by byte where it is not: a **point** is a code
point or a byte that belongs to none. A code point is accepted exactly when its encoding is what
stands in the text, which leaves out overlong forms, surrogates and values past the last code point
without naming them. Writing the points of a text one after the other gives the text back.
-/

namespace TealAudit

/-- **A point of a text**: a code point, or a byte that is part of no code point. -/
inductive Point where
  | scalar (c : Char)
  | stray (b : UInt8)
deriving DecidableEq, Repr

namespace Point

/-- The bytes a point stands for. -/
def encode : Point → Text
  | scalar c => String.utf8EncodeChar c
  | stray b => [b]

/-- The character a point is read as: a byte that is part of no code point is read as U+FFFD. -/
def char : Point → Char
  | scalar c => c
  | stray _ => Char.ofNat 0xFFFD

/-- How many bytes follow a leading byte in its code point. -/
def tailLength (b : UInt8) : Nat :=
  if b < 0xC0 then 0 else if b < 0xE0 then 1 else if b < 0xF0 then 2 else 3

/-- The bits that a leading byte gives to the value of its code point. -/
def leadBits (b : UInt8) : Nat :=
  if b < 0x80 then b.toNat
  else if b < 0xE0 then b.toNat % 32
  else if b < 0xF0 then b.toNat % 16
  else b.toNat % 8

/-- The code point that starts with the byte `b` and goes on in `rest`, with the number of bytes of
`rest` that it takes. -/
def read? (b : UInt8) (rest : Text) : Option (Char × Nat) :=
  let tail := rest.take (tailLength b)
  let c := Char.ofNat (tail.foldl (fun n x => n * 64 + x.toNat % 64) (leadBits b))
  if String.utf8EncodeChar c = b :: tail then some (c, tail.length) else none

end Point

namespace Text

/-- The points of a text after its first `skip` bytes, which belong to the code point before. -/
def pointsFrom : (skip : Nat) → Text → List Point
  | _, [] => []
  | skip + 1, _ :: rest => pointsFrom skip rest
  | 0, b :: rest =>
    match Point.read? b rest with
    | some (c, n) => .scalar c :: pointsFrom n rest
    | none => .stray b :: pointsFrom 0 rest

/-- **The points of a text**, from its start. -/
def points (t : Text) : List Point := pointsFrom 0 t

/-- The characters of a text, if it is valid UTF-8. -/
def chars? (t : Text) : Option (List Char) :=
  t.points.mapM fun
    | .scalar c => some c
    | .stray _ => none

/-- The text that points write. -/
def ofPoints (ps : List Point) : Text := ps.flatMap Point.encode

/-- Whether a text is valid UTF-8. -/
def isValid (t : Text) : Bool :=
  t.points.all fun
    | .scalar _ => true
    | .stray _ => false

end Text

end TealAudit
