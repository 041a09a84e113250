import TealAudit.Config.OfYaml
import TealAudit.Toml.Reader

/-!
# Configurations from TOML

A configuration is filled from the fields of a table. The name of a field is also taken in another
case; where it is there in several ones, the one as it is counts last. Fields of other names are not
looked at, and a value that does not fit its field spoils the configuration.
-/

namespace TealAudit

namespace Toml

/-- The values that are meant for a field, the one under its name as it is after the others. -/
def Fields.named (fields : Fields) (name : Text) : List Value :=
  let meant := fields.filter fun field => field.1.spells name
  ((meant.filter (·.1 ≠ name)) ++ meant.filter (·.1 = name)).map (·.2)

namespace Value

/-- A text. -/
def text? : Value → Option Text
  | .text t => some t
  | _ => none

/-- A flag. -/
def flag? : Value → Option Bool
  | .flag b => some b
  | _ => none

/-- A whole number. -/
def whole? : Value → Option Int
  | .whole n => some n
  | _ => none

/-- The fields of a table. -/
def fields? : Value → Option Fields
  | .table fields => some fields
  | _ => none

end Value

end Toml

namespace Config

open Toml (Value)

/-- The value of a field: `old` when it is not there, and none when one does not fit. -/
def tomlField {α : Type} (fields : Toml.Fields) (name : Text) (read : Value → Option α)
    (old : α) : Option α :=
  (fields.named name).foldlM (fun _ value => read value) old

/-- Whether a detector is switched off, from the table of its settings. -/
def tomlOff (v : Value) : Option Bool := do
  let fields ← v.fields?
  tomlField fields offField Value.flag? false

/-- Detectors that are switched off and on, besides those in `off`. What is no table names none. -/
def tomlDetectors (off : Dict Bool) (v : Value) : Option (Dict Bool) :=
  match v.fields? with
  | none => some off
  | some fields =>
    fields.foldlM (fun off (name, value) => (tomlOff value).map (off.insert name)) off

/-- The least impact, from its name. -/
def tomlImpact (v : Value) : Option Impact := do
  match Rank.parse (← v.text?) with
  | .ok impact => some impact
  | .error _ => none

/-- **The configuration of a TOML table.** -/
def ofToml (fields : Toml.Fields) : Option Config := do
  let start : Config := {}
  return {
    name := ← tomlField fields nameField Value.text? start.name
    detectors := some (← (fields.named detectorsField).foldlM tomlDetectors start.off)
    exportDir := ← tomlField fields exportDirField Value.text? start.exportDir
    noExport := ← tomlField fields noExportField Value.flag? start.noExport
    minImpact := ← tomlField fields minImpactField tomlImpact start.minImpact
    threshold := ← tomlField fields thresholdField Value.whole? start.threshold }

end Config

end TealAudit
