import TealAudit.Finding

/-!
# Detectors

A detector is an analysis of a program together with what is known about it beforehand.
-/

namespace TealAudit

/-- What is written about a detector for its readers. -/
structure Wiki where
  title : Text := []
  description : Text := []
  exploit : Text := []
  recommendation : Text := []
deriving DecidableEq, Repr

/-- **What is known of a detector beforehand.** -/
structure Descriptor where
  name : Text := []
  description : Text := []
  impact : Impact := default
  confidence : Confidence := default
  type : DetectorType := default
  wiki : Wiki := {}
deriving DecidableEq, Repr

/-- A finding of this detector about a file, with nothing in it yet. -/
def Descriptor.finding (d : Descriptor) (file : Text) : Finding :=
  { detector := d.name, file, impact := d.impact, confidence := d.confidence }

/-- **A detector**: its descriptor, and what it finds in a program that goes by a file name. -/
structure Detector where
  descriptor : Descriptor
  detect : Program → Text → List Finding

end TealAudit
