import TealAudit.Dict
import TealAudit.Program
import TealAudit.Rank

/-!
# Findings

What a detector reports about a program: which blocks and instructions it is about, and the words
for it.
-/

namespace TealAudit

/-- **A finding.** -/
structure Finding where
  detector : Text
  file : Text
  impact : Impact
  confidence : Confidence
  blocks : List Block := []
  instructions : List Instruction := []
  message : Text := []
  suggestion : Text := []
  /-- The suffix of the drawing that highlights the blocks, when the finding asks for one. -/
  drawing : Option Text := none
  /-- What was measured, by name. -/
  metrics : Dict Int := .empty
deriving DecidableEq, Repr

namespace Finding

/-- The instructions a finding is about: those of its blocks, then the single ones. -/
def implicated (f : Finding) : List Instruction :=
  f.blocks.flatMap Block.instructions ++ f.instructions

/-- **The source lines of a finding**, each once, in ascending order. -/
def lines (f : Finding) : List Nat := (f.implicated.map (·.line)).eraseDups.mergeSort

/-- The first source line of a finding, 0 when there is none. -/
def firstLine (f : Finding) : Nat := f.lines.head?.getD 0

/-- The lines at which a finding starts: the first of each block, then those of the single
instructions. -/
def anchors (f : Finding) : List Nat :=
  f.blocks.map (·.entry.line) ++ f.instructions.map (·.line)

end Finding

end TealAudit
