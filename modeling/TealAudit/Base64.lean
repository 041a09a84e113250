import TealAudit.Text

/-!
# Bytes in base 64

Three bytes are written as four digits of base 64. What is left over at the end is filled up with
equal signs.
-/

namespace TealAudit.Base64

/-- The digits of base 64. -/
def digits : Text := "ABCDEFGHIJKLMNOPQRSTUVWXYZabcdefghijklmnopqrstuvwxyz0123456789+/"

/-- Up to three bytes in base 64, filled up to four digits. -/
def encodeGroup (bytes : Text) : Text :=
  let whole : Text := bytes ++ List.replicate (3 - bytes.length) 0
  let n := whole.foldl (fun n b => n * 256 + b.toNat) 0
  let digit (i : Nat) : UInt8 := digits.getD (n / Nat.pow 64 (3 - i) % 64) 0
  ((List.range 4).map digit).take (bytes.length + 1) ++
    List.replicate (3 - bytes.length) (Text.byte '=')

/-- **Bytes in base 64.** -/
def encode : Text → Text
  | a :: b :: c :: rest => encodeGroup [a, b, c] ++ encode rest
  | [] => []
  | bytes => encodeGroup bytes

/-- The bytes of four digits. -/
def decodeGroup (group : Text) : Option Text := do
  let shown := group.takeWhile (· ≠ Text.byte '=')
  if shown.length < 2 || (group.drop shown.length).any (· ≠ Text.byte '=') then none
  let values ← shown.mapM fun b => digits.findIdx? (· = b)
  let n := (values ++ List.replicate (4 - values.length) 0).foldl (fun n v => n * 64 + v) 0
  return ([n / 65536 % 256, n / 256 % 256, n % 256].take (shown.length - 1)).map UInt8.ofNat

/-- The bytes of groups of four digits, of which only the last one may be filled up. -/
def decodeGroups : Text → Option Text
  | a :: b :: c :: d :: rest => do
    let group ← decodeGroup [a, b, c, d]
    if group.length < 3 && !rest.isEmpty then none
    return group ++ (← decodeGroups rest)
  | [] => some []
  | _ => none

/-- **The bytes that base 64 writes**, line ends left out. -/
def decode (t : Text) : Option Text :=
  decodeGroups (t.filter fun b => b ≠ Text.byte '\n' && b ≠ Text.byte '\r')

/-- Digits cut into lines of `width`, each with its line end. -/
def lines (width : Nat) : (fuel : Nat) → Text → Text
  | 0, t => t
  | fuel + 1, t =>
    if t.isEmpty then []
    else t.take width ++ Text.byte '\n' :: lines width fuel (t.drop width)

end TealAudit.Base64
