/-!
# Numbers of 64 bits

The limits of the whole numbers that fit into 64 bits, without a sign and with one.
-/

namespace TealAudit.Word

/-- How many numbers there are: those without a sign are below it. -/
def count : Nat := 0x10000000000000000

/-- Half of them: those with a sign are below it. -/
def half : Nat := 0x8000000000000000

/-- The least number with a sign. -/
def least : Int := -0x8000000000000000

/-- Whether a number fits with its sign. -/
def fits (n : Int) : Bool := least ≤ n && n < (half : Int)

end TealAudit.Word
