import TealAudit.Detector

/-!
# High complexity

Programs whose cyclomatic complexity is above a threshold.
-/

namespace TealAudit.Detector.HighComplexity

/-- What is known of the detector of high complexity. -/
def descriptor : Descriptor where
  name := "highComplexity"
  description := "Detect programs with high cyclomatic complexity"
  impact := Impact.informational
  confidence := Confidence.medium
  type := DetectorType.stateless
  wiki :=
    { title := "High cyclomatic complexity"
      description := "Report programs whose reachable control flow graph has more independent paths than the threshold"
      exploit := "Programs with many paths are hard to review and to test exhaustively."
      recommendation := "Split the logic into subroutines or simplify the branching." }

/-- The threshold where none is given. -/
def defaultThreshold : Int := 10

/-- The name under which the complexity is reported among the metrics. -/
def metric : Text := "complexity"

/-- One finding at the first instruction, if the complexity is above the threshold. -/
def detect (threshold : Int) (p : Program) (file : Text) : List Finding :=
  let complexity := p.complexity
  if complexity ≤ threshold then []
  else
    [{ descriptor.finding file with
        instructions := p.blocks.head?.toList.map (·.entry)
        message := "Cyclomatic complexity is " ++ Text.ofInt complexity ++
          ", above the threshold of " ++ Text.ofInt threshold
        suggestion := "Split the program into subroutines or reduce the number of branches"
        metrics := Dict.empty.insert metric complexity }]

end HighComplexity

/-- **The detector of complexity above a threshold.** -/
def highComplexity (threshold : Int) : Detector :=
  ⟨HighComplexity.descriptor, HighComplexity.detect threshold⟩

end TealAudit.Detector
