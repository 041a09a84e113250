import TealAudit.Batch
import TealAudit.CommandLine.Verdict
import TealAudit.Finding.Render
import TealAudit.Program
import TealAudit.Report.Json

/-!
# Commands on programs

The commands that work through programs: to report what the detectors find, as text or in JSON; to
draw whole programs; and to tell the complexity of each program. A program that fails does not keep
the others from being worked through.
-/

namespace TealAudit

/-- The lines that name the drawings of a report. -/
def Report.drawingLines (r : Report) : Text :=
  r.drawings.entries.flatMap fun (_, path) => "Graph exported: " ++ path ++ "\n"

/-- **A report as it is shown**: its findings and the drawings that were written. -/
def Report.shown (r : Report) : Text :=
  let findings : Text :=
    if r.findings.isEmpty then [] else Finding.renderAll false r.source r.drawings r.findings
  findings ++ r.drawingLines

namespace CommandLine

/-- The line that names a program before it is worked on. -/
def analyseLine (path : Text) : Text := "Analyze " ++ path ++ "\n"

namespace Options

/-- The settings of an engine that options ask for. -/
def settings (o : Options) : List Setting :=
  (if o.exportDir.isEmpty then [] else [.folder o.exportDir]) ++
    (if o.noExport then [.noDrawings] else [])

/-- **The engine of a command**: that of its configuration with what the options set, and without
the detectors that they leave out. -/
def engine (o : Options) (d : Disk) (more : List Setting) : Except ConfigError Engine := do
  let c ← Config.loadOrDefault d o.config
  return o.exclude.foldl Engine.ignore (c.engine (o.settings ++ more))

/-- What stops the work: a time limit that is over from the start. -/
def interrupt? (o : Options) : Option Interrupt := if o.timeout ≤ 0 then some .deadline else none

end Options

/-! ## Findings -/

/-- What is shown of an event of a batch. -/
def eventText : Batch.Event → Text
  | .analysed file (.ok report) => analyseLine file ++ report.shown
  | .analysed file (.error _) => analyseLine file
  | _ => []

/-- **The verdict on a batch**: failed, if anything failed, and otherwise whether a report has a
finding. -/
def verdictOn (events : List Batch.Event) : Verdict :=
  let failures := Batch.failures events
  if !failures.isEmpty then .failed (.analysis failures)
  else if (Batch.reports events).any (!·.findings.isEmpty) then .findings
  else .clean

/-- The reports of a batch in JSON, written where the options say. That they cannot be written is
told if nothing else failed. -/
def jsonOutcome (o : Options) (events : List Batch.Event) (d : Disk) : Outcome :=
  let text := (Report.jsonOf (Batch.reports events)).render
  let verdict := verdictOn events
  if o.output.isEmpty then ⟨text ++ "\n", verdict, d⟩
  else
    match d.write o.output text with
    | .ok d => ⟨[], verdict, d⟩
    | .error e =>
      ⟨[], if (Batch.failures events).isEmpty then .failed (.output e) else verdict, d⟩

/-- **The findings of programs**, as text or in JSON. -/
def detect (o : Options) (s : Session) (paths : List Text) : Outcome :=
  let (events, s) := Batch.run (fun _ => o.interrupt?) s paths
  if o.json then jsonOutcome o events s.disk
  else ⟨events.flatMap eventText, verdictOn events, s.disk⟩

/-! ## Drawings -/

/-- Whole programs drawn one after the other: what is shown, what failed, and the session. -/
def drawAll (interrupt : Option Interrupt) : Session → List Text → Text × List Failure × Session
  | s, [] => ([], [], s)
  | s, path :: rest =>
    match interrupt with
    | some why => ([], [.interrupted why], s)
    | none =>
      match s.drawProgram path with
      | (.ok file, s) =>
        let (text, failures, s) := drawAll interrupt s rest
        (analyseLine path ++ "CFG exported: " ++ file ++ "\n" ++ text, failures, s)
      | (.error failure, s) =>
        let (text, failures, s) := drawAll interrupt s rest
        (analyseLine path ++ text, failure :: failures, s)

/-- **The drawings of whole programs.** -/
def draw (o : Options) (s : Session) (paths : List Text) : Outcome :=
  let (text, failures, s) := drawAll o.interrupt? s paths
  ⟨text, if failures.isEmpty then .clean else .failed (.analysis failures), s.disk⟩

/-! ## Complexity -/

/-- The line on the complexity of a program. -/
def complexityLine (threshold : Int) (r : Report) : Text :=
  let n := r.program.complexity
  let mark : Text := if threshold < n then " (above threshold)" else []
  r.file ++ ": " ++ Text.ofInt n ++ mark ++ "\n"

/-- The engine that runs no detector. -/
def graphEngine : Engine := Engine.ofSettings [.registry {}, .noDrawings]

/-- **The complexity of programs**, those above the threshold marked. -/
def measure (o : Options) (d : Disk) (paths : List Text) : Outcome :=
  let (events, s) := Batch.run (fun _ => o.interrupt?) { engine := graphEngine, disk := d } paths
  let reports := Batch.reports events
  let failures := Batch.failures events
  let verdict : Verdict :=
    if !failures.isEmpty then .failed (.analysis failures)
    else if reports.any fun r => o.threshold < r.program.complexity then .findings
    else .clean
  ⟨reports.flatMap (complexityLine o.threshold), verdict, s.disk⟩

end CommandLine

end TealAudit
