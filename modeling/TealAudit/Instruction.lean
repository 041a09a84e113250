import TealAudit.Opcode

/-!
# Instructions

One operation of a program, with its operands and the number of the line it stands on.
-/

namespace TealAudit

/-- **An instruction** of a program. -/
structure Instruction where
  name : Text
  flow : Flow
  operands : List Text
  line : Nat
deriving DecidableEq, Repr

namespace Instruction

/-- The labels an instruction may send control to, in the order of its operands. -/
def targets (i : Instruction) : List Text := if i.flow.namesLabels then i.operands else []

/-- The instruction as it is written, with one space before each operand. -/
def text (i : Instruction) : Text := Text.join " " (i.name :: i.operands)

end Instruction

end TealAudit
