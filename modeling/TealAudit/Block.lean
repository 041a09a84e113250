import TealAudit.Listing

/-!
# Basic blocks

A **block** is a run of instructions that control enters at the first and leaves at the last. A
listing is cut behind every instruction that transfers control and in front of every label; the
blocks laid end to end are the instructions of the listing.
-/

namespace TealAudit

/-- **A basic block**: its place among the blocks, the position of its first instruction, and its
instructions, of which there is at least one. -/
structure Block where
  index : Nat
  start : Nat
  entry : Instruction
  rest : List Instruction
deriving DecidableEq, Repr

namespace Block

/-- The instructions of a block in order. -/
def instructions (b : Block) : List Instruction := b.entry :: b.rest

/-- The last instruction of a block. -/
def exit (b : Block) : Instruction := (b.entry :: b.rest).getLast (by simp)

/-- The position behind the last instruction of a block. -/
def stop (b : Block) : Nat := b.start + b.rest.length + 1

/-- The first and the last source line of a block. -/
def span (b : Block) : Nat × Nat := (b.entry.line, b.exit.line)

/-- A block as text: a line for each instruction, behind the number of its source line. -/
def text (b : Block) : Text :=
  b.instructions.flatMap fun i => Text.ofNat i.line ++ ": " ++ i.text ++ "\n"

end Block

/-- Instructions cut into runs: an instruction is in one run with the next unless it transfers
control or a label points at the next. The first of them stands at position `n`. -/
def Instruction.runs (labelled : Nat → Bool) (n : Nat) :
    List Instruction → List (Instruction × List Instruction)
  | [] => []
  | i :: rest =>
    match runs labelled (n + 1) rest with
    | [] => [(i, [])]
    | (j, run) :: more =>
      if i.flow.transfers || labelled (n + 1) then (i, []) :: (j, run) :: more
      else (i, j :: run) :: more

/-- Runs as blocks: the first is block `index` and starts at position `start`. -/
def Block.place (index start : Nat) : List (Instruction × List Instruction) → List Block
  | [] => []
  | (entry, rest) :: more =>
    ⟨index, start, entry, rest⟩ :: place (index + 1) (start + rest.length + 1) more

namespace Listing

/-- Whether a label points at a position. -/
def isLabelled (l : Listing) (n : Nat) : Bool := l.labels.any fun entry => entry.2 = n

/-- **The blocks of a listing.** -/
def blocks (l : Listing) : List Block :=
  Block.place 0 0 (Instruction.runs l.isLabelled 0 l.instructions)

end Listing

end TealAudit
