import TealAudit.Config
import TealAudit.Text.Natural
import TealAudit.Toml.Writer
import TealAudit.Yaml.Writer

/-!
# Configurations as documents

A configuration is written in one of two **formats**. The fields are the same in both; what has its
default value is left out, except for the name, the least impact and, in TOML, the threshold.
-/

namespace TealAudit

/-- The format of a configuration file. -/
inductive Format where
  | yaml
  | toml
deriving DecidableEq, Repr

namespace Format

/-- A document in a format. -/
def render : Format → List (Text × Document) → Text
  | yaml => Yaml.render
  | toml => Toml.render

/-- Names in the order in which a format lists them: YAML naturally, TOML byte by byte. -/
def sort : Format → List Text → List Text
  | yaml => Text.sortNaturally
  | toml => Text.sort

end Format

namespace Config

/-- The field of the project's name. -/
def nameField : Text := "name"

/-- The field of the detectors, a table by name. -/
def detectorsField : Text := "detectors"

/-- The field of a detector that says whether it is switched off. -/
def offField : Text := "off"

/-- The field of the folder for drawings. -/
def exportDirField : Text := "export_dir"

/-- The field that says whether drawings are left out. -/
def noExportField : Text := "no_export"

/-- The field of the least impact. -/
def minImpactField : Text := "min_impact"

/-- The field of the threshold of complexity. -/
def thresholdField : Text := "complexity_threshold"

/-- The table of the detectors. -/
def detectorFields (c : Config) (format : Format) : List (Text × Document) :=
  (format.sort c.off.keys).map fun name =>
    (name, .table [(offField, .flag ((c.off.find? name).getD false))])

/-- **A configuration as a document.** -/
def document (c : Config) (format : Format) : List (Text × Document) :=
  [(nameField, .text c.name)] ++
    (if c.off.isEmpty then [] else [(detectorsField, .table (c.detectorFields format))]) ++
    (if c.exportDir.isEmpty then [] else [(exportDirField, .text c.exportDir)]) ++
    (if c.noExport then [(noExportField, .flag true)] else []) ++
    [(minImpactField, .text c.minImpact.text)] ++
    (if c.threshold = 0 ∧ format = .yaml then [] else [(thresholdField, .number c.threshold)])

end Config

end TealAudit
