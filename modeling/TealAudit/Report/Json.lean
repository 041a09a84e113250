import TealAudit.Engine
import TealAudit.Json

/-!
# Reports in JSON

The findings of several programs as one object: a field for each file, with the list of its findings.
-/

namespace TealAudit

/-- The field of a text, left out when the text is empty. -/
def Json.textField (name t : Text) : List (Text × Json) := if t.isEmpty then [] else [(name, .text t)]

/-- The metrics of a finding, left out when there are none. -/
def Finding.metricFields (f : Finding) : List (Text × Json) :=
  if f.metrics.isEmpty then []
  else [("metrics", .object (f.metrics.entries.map fun (name, n) => (name, .number n)))]

/-- The lines of a finding; null stands for none at all. -/
def Finding.jsonLines (f : Finding) : Json :=
  if f.lines.isEmpty then .null else .list (f.lines.map fun (n : Nat) => .number n)

/-- **A finding in JSON**, with the file of its drawing. -/
def Finding.json (f : Finding) (drawing : Text) : Json :=
  .object ([
    (("detector" : Text), .text f.detector),
    ("impact", .text f.impact.text),
    ("confidence", .text f.confidence.text),
    ("lines", f.jsonLines),
    ("message", .text f.message)] ++
    Json.textField "suggestion" f.suggestion ++ Json.textField "export" drawing ++ f.metricFields)

namespace Report

/-- The findings of a report in JSON. -/
def jsonFindings (r : Report) : List Json :=
  r.findings.map fun f => f.json ((r.drawings.find? f.detector).getD [])

/-- The findings of each file, the files in ascending order. Of two reports on one file the later one
counts. -/
def byFile (rs : List Report) : Dict (List Json) := .ofList (rs.map fun r => (r.file, r.jsonFindings))

/-- **Reports in JSON.** -/
def jsonOf (rs : List Report) : Json :=
  .object ((byFile rs).entries.map fun (file, findings) => (file, .list findings))

end Report

end TealAudit
