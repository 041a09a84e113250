import TealAudit.Text

/-!
# How control leaves an instruction

Seven ways in which an instruction hands control on. All but the plain one end a basic block.
-/

namespace TealAudit

/-- **The flow of an instruction**: where control goes after it. -/
inductive Flow where
  /-- To the next instruction. -/
  | plain
  /-- To a label, always. -/
  | branch
  /-- To the next instruction or to a label. -/
  | conditional
  /-- To the next instruction or to one of several labels. -/
  | switch
  /-- To a subroutine, which returns behind this instruction. -/
  | call
  /-- To the place behind the call that is being served. -/
  | leave
  /-- Nowhere: the program ends. -/
  | terminal
deriving DecidableEq, Repr

namespace Flow

/-- Every flow, in the order of the numbers that stand for them. -/
def all : List Flow := [plain, branch, conditional, switch, call, leave, terminal]

/-- The name of a flow. -/
def name : Flow → Text
  | plain => "plain"
  | branch => "branch"
  | conditional => "conditional-branch"
  | switch => "switch"
  | call => "callsub"
  | leave => "retsub"
  | terminal => "terminal"

/-- Whether an instruction of this flow ends its block. -/
def transfers (f : Flow) : Bool := f != plain

/-- Whether the operands of an instruction of this flow are labels. -/
def namesLabels : Flow → Bool
  | branch | conditional | switch | call => true
  | plain | leave | terminal => false

/-- Whether control may go on to the next instruction. -/
def fallsThrough : Flow → Bool
  | plain | conditional | switch => true
  | branch | call | leave | terminal => false

/-- The flow that a number stands for. -/
def ofCode? (n : Int) : Option Flow := if n < 0 then none else all[n.toNat]?

/-- The name that is shown for a number; a number that stands for no flow has a name too. -/
def nameOfCode (n : Int) : Text :=
  match ofCode? n with
  | some f => f.name
  | none => "unknown"

/-- Whether the number of a flow says that it ends a block: every number but that of `plain` does. -/
def codeTransfers (n : Int) : Bool := n != 0

end Flow

end TealAudit
