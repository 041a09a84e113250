import TealAudit.Text.Fold
import TealAudit.Text.Quoted

/-!
# Ranks

A finding is ranked by its impact and by the confidence in it, and a detector by its type. Each of
the three is a **scale**: levels counted from zero, the lower ones with a name. A level without a
name is shown as its number. Names are read in any case.
-/

namespace TealAudit

/-- **A scale**: what it is called in front of a number, what it is called in a message, and the
names of its levels from zero on. -/
structure Scale where
  title : Text
  noun : Text
  names : List Text
deriving DecidableEq, Repr

namespace Scale

/-- How much harm the flagged code can do. -/
def impact : Scale :=
  ⟨"Impact", "impact", ["Informational", "Optimization", "Low", "Medium", "High"]⟩

/-- How likely a finding is a true one. -/
def confidence : Scale := ⟨"Confidence", "confidence", ["Low", "Medium", "High"]⟩

/-- Whether a detector looks at the shape of the graph only, or at data that flows in it. -/
def detectorType : Scale := ⟨"DetectorType", "detector type", ["stateless", "stateful"]⟩

end Scale

/-- **A rank** on a scale. -/
structure Rank (scale : Scale) where
  level : Int
deriving DecidableEq, Repr

/-- How much harm the flagged code can do. -/
abbrev Impact := Rank .impact

/-- How likely a finding is a true one. -/
abbrev Confidence := Rank .confidence

/-- What a detector looks at. -/
abbrev DetectorType := Rank .detectorType

/-- A name that a scale does not have. -/
structure UnknownRank where
  noun : Text
  given : Text
deriving DecidableEq, Repr

/-- An unknown name in words. -/
def UnknownRank.message (u : UnknownRank) : Text :=
  "unknown " ++ u.noun ++ " " ++ Text.quote u.given

namespace Rank

variable {scale : Scale}

instance : Inhabited (Rank scale) := ⟨⟨0⟩⟩

/-- The name of a rank, if it has one. -/
def name? (r : Rank scale) : Option Text :=
  if r.level < 0 then none else scale.names[r.level.toNat]?

/-- A rank as it is shown. -/
def text (r : Rank scale) : Text :=
  match r.name? with
  | some name => name
  | none => scale.title ++ "(" ++ Text.ofInt r.level ++ ")"

/-- The rank that a name stands for, in any case. -/
def parse (given : Text) : Except UnknownRank (Rank scale) :=
  match scale.names.findIdx? fun name => given.spells name with
  | some level => .ok ⟨level⟩
  | none => .error ⟨scale.noun, given⟩

end Rank

namespace Impact

/-- Worth knowing. -/
def informational : Impact := ⟨0⟩

/-- Costs more than it needs to. -/
def optimization : Impact := ⟨1⟩

/-- Low harm. -/
def low : Impact := ⟨2⟩

/-- Medium harm. -/
def medium : Impact := ⟨3⟩

/-- High harm. -/
def high : Impact := ⟨4⟩

end Impact

namespace Confidence

/-- Low confidence. -/
def low : Confidence := ⟨0⟩

/-- Medium confidence. -/
def medium : Confidence := ⟨1⟩

/-- High confidence. -/
def high : Confidence := ⟨2⟩

end Confidence

namespace DetectorType

/-- Looks at the shape of the graph only. -/
def stateless : DetectorType := ⟨0⟩

/-- Looks at data that flows in the graph. -/
def stateful : DetectorType := ⟨1⟩

end DetectorType

end TealAudit
