import TealAudit.Engine

/-!
# Configurations

What a configuration file sets: the name of the project, the detectors that are switched off, where
drawings go, the least impact that is reported and the threshold of complexity.
-/

namespace TealAudit

/-- **A configuration.** Its defaults are those of a project without a configuration file. -/
structure Config where
  name : Text := "tealer"
  /-- Whether a detector is switched off, by name. There may be no table of detectors at all. -/
  detectors : Option (Dict Bool) := some .empty
  exportDir : Text := []
  noExport : Bool := false
  minImpact : Impact := Impact.informational
  threshold : Int := 0
deriving DecidableEq, Repr

namespace Config

/-- Whether a detector is switched off, by name. No table of detectors names none. -/
def off (c : Config) : Dict Bool := c.detectors.getD .empty

/-- The settings of an engine that a configuration asks for. -/
def settings (c : Config) : List Setting :=
  [.least c.minImpact, .threshold c.threshold] ++
    (if c.exportDir.isEmpty then [] else [.folder c.exportDir]) ++
    (if c.noExport then [.noDrawings] else [])

/-- The detectors that are switched off. -/
def switchedOff (c : Config) : List Text := (c.off.entries.filter (·.2)).map (·.1)

/-- **The engine of a configuration**; further settings are made after those of the configuration. -/
def engine (c : Config) (more : List Setting) : Engine :=
  c.switchedOff.foldl Engine.ignore (Engine.ofSettings (c.settings ++ more))

end Config

end TealAudit
