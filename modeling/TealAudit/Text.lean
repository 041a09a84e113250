/-!
# Texts

A program, a path and a message are strings of bytes, of which only some are valid UTF-8, so a
**text** is a list of bytes. Literals of the library are written as strings and stand for their
UTF-8 bytes (`Text.ofString`). The order of texts is the order of bytes, position by position.

Cutting a text at a separator (`splitOn`) and its inverse (`join`) are the two ways in which lines
and lists are read and written here; `lines` is the reading of a program's lines.
-/

namespace TealAudit

/-- **A text** is a string of bytes. -/
abbrev Text := List UInt8

namespace Text

/-- The UTF-8 bytes of a string. -/
def ofString (s : String) : Text := s.toList.flatMap String.utf8EncodeChar

/-- The UTF-8 bytes of characters. -/
def ofChars (cs : List Char) : Text := cs.flatMap String.utf8EncodeChar

instance : Coe String Text := ⟨ofString⟩

/-- A byte given by its character, which is an ASCII one wherever this is used. -/
def byte (c : Char) : UInt8 := UInt8.ofNat c.toNat

/-! ## Numbers -/

/-- A number in decimal digits, with no leading zero. -/
def ofNat (n : Nat) : Text := (Nat.toDigits 10 n).map byte

/-- A number in decimal digits after a minus sign when it is negative. -/
def ofInt : Int → Text
  | .ofNat n => ofNat n
  | .negSucc n => byte '-' :: ofNat (n + 1)

/-- A digit of base sixteen, in lower case. -/
def hexDigit (n : Nat) : UInt8 :=
  if n < 10 then UInt8.ofNat (48 + n) else UInt8.ofNat (87 + n)

/-- The last `width` digits of `n` in base sixteen. -/
def hex : (width n : Nat) → Text
  | 0, _ => []
  | w + 1, n => hex w (n / 16) ++ [hexDigit (n % 16)]

/-- Whether a byte is a decimal digit. -/
def isDigit (b : UInt8) : Bool := byte '0' ≤ b && b ≤ byte '9'

/-- The value of a string of decimal digits; `none` when it is empty or holds another byte. -/
def toNat? (t : Text) : Option Nat :=
  if t.isEmpty || !t.all isDigit then none
  else some (t.foldl (fun n b => n * 10 + (b.toNat - 48)) 0)

/-! ## Ends -/

/-- Whether the text starts with `p`. -/
def startsWith (t p : Text) : Bool := p.isPrefixOf t

/-- Whether the text ends with `p`. -/
def endsWith (t p : Text) : Bool := p.isSuffixOf t

/-- The text without the leading `p`, or as it is when it does not start with `p`. -/
def dropStart (p t : Text) : Text := if p.isPrefixOf t then t.drop p.length else t

/-- `n` spaces. -/
def spaces (n : Nat) : Text := List.replicate n (byte ' ')

/-- The text with spaces in front, up to `width` bytes. -/
def padStart (width : Nat) (t : Text) : Text := spaces (width - t.length) ++ t

/-! ## Cutting and joining -/

/-- The pieces between the separators: one more than there are separators. -/
def splitOn (sep : UInt8) : Text → List Text
  | [] => [[]]
  | b :: rest =>
    if b = sep then [] :: splitOn sep rest
    else match splitOn sep rest with
      | [] => [[b]]
      | piece :: pieces => (b :: piece) :: pieces

/-- The texts one after the other, `sep` between neighbours. -/
def join (sep : Text) : List Text → Text
  | [] => []
  | [t] => t
  | t :: u :: rest => t ++ sep ++ join sep (u :: rest)

/-- A line without its carriage return, if it ends in one. -/
def dropReturn (line : Text) : Text :=
  if line.getLast? = some (byte '\r') then line.dropLast else line

/-- The pieces of which the last is dropped when it is empty. -/
def dropEmptyLast (pieces : List Text) : List Text :=
  if pieces.getLast? = some [] then pieces.dropLast else pieces

/-- **The lines of a program**: what stands between line feeds, without a carriage return at the
end. The line feed at the end of the text ends the last line and starts no further one. -/
def lines (t : Text) : List Text := (dropEmptyLast (splitOn (byte '\n') t)).map dropReturn

/-! ## Order -/

/-- Whether `a` comes at or before `b` in the order of bytes. -/
def atOrBefore (a b : Text) : Bool := decide (a ≤ b)

/-- The texts in the order of bytes. -/
def sort (ts : List Text) : List Text := ts.mergeSort atOrBefore

/-- Whether `p` occurs anywhere in the text. -/
def hasInfix (p : Text) : Text → Bool
  | [] => p.isEmpty
  | b :: rest => p.isPrefixOf (b :: rest) || hasInfix p rest

/-- The text with every byte `a` turned into `b`. -/
def replace (a b : UInt8) (t : Text) : Text := t.map fun x => if x = a then b else x

end Text

end TealAudit
