import TealAudit.Detector

/-!
# Dead code

The blocks that control can never get to.
-/

namespace TealAudit.Detector.DeadCode

/-- What is known of the detector of dead code. -/
def descriptor : Descriptor where
  name := "deadCode"
  description := "Detect dead code"
  impact := Impact.optimization
  confidence := Confidence.high
  type := DetectorType.stateless
  wiki :=
    { title := "Dead code"
      description := "Detect basic blocks that will never be executed"
      exploit := "Dead code costs space on the blockchain and increases the deployment cost of the contract."
      recommendation := "Remove every piece of code flagged as dead." }

/-- The blocks that are not reachable, in ascending order. -/
def deadBlocks (p : Program) : List Block :=
  let reachable := p.reachable
  p.blocks.filter fun b => !reachable.contains b.index

/-- One finding with all dead blocks, if there are any. -/
def detect (p : Program) (file : Text) : List Finding :=
  match deadBlocks p with
  | [] => []
  | dead =>
    [{ descriptor.finding file with
        blocks := dead
        message := "Dead code found: " ++ Text.ofNat dead.length ++
          " basic block(s) can never be executed"
        suggestion := "Remove the unreachable instructions"
        drawing := some descriptor.name }]

end DeadCode

/-- **The detector of dead code.** -/
def deadCode : Detector := ⟨DeadCode.descriptor, DeadCode.detect⟩

end TealAudit.Detector
