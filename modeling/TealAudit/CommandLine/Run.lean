import TealAudit.Catalogue
import TealAudit.CommandLine.Analysis
import TealAudit.Watch

/-!
# Running a command line

A command line is run on a disk. Every command is over at once except for the one that watches: it
is **watching** from then on, and takes changes to files one by one.
-/

namespace TealAudit

namespace CommandLine

/-- A short explanation of the commands. -/
def helpText : Text :=
  "tealer builds the control flow graph of TEAL programs and runs detectors over it.\n\n" ++
  "Usage:\n  tealer [flags] [programs...]\n  tealer init\n  tealer watch [paths...]\n" ++
  "  tealer cyclo [--threshold n] [paths...]\n"

/-! ## Watching -/

/-- **A command that watches**: its session and the folders it looks at. -/
structure Watching where
  session : Session
  folders : List WatchedFolder

/-- What is shown of a program that was analysed while watching. A failure is not shown. -/
def observedText (path : Text) (result : Except Failure Report) : Text :=
  analyseLine path ++
    match result with
    | .error _ => []
    | .ok report =>
      if report.findings.isEmpty then "no findings in " ++ path ++ "\n" else report.shown

/-- **The text and the watch after a change.** -/
def Watching.observe (w : Watching) (change : FileChange) : Text × Watching :=
  let (seen, session) := w.session.observe w.folders change
  let text : Text := match seen with
    | some (path, result) => observedText path result
    | none => []
  (text, { w with session })

/-- The text and the watch after changes. -/
def Watching.observeAll (w : Watching) : List FileChange → Text × Watching
  | [] => ([], w)
  | change :: rest =>
    let (text, w) := w.observe change
    let (more, w) := w.observeAll rest
    (text ++ more, w)

/-- **What a command line comes to**: it is over, or it watches after it has written a text. -/
inductive Started where
  | over (outcome : Outcome)
  | watching (text : Text) (w : Watching)

/-- The watch of paths, started. -/
def startWatch (o : Options) (d : Disk) (paths : List Text) : Started :=
  if paths.isEmpty then .over ⟨[], .failed .noInput, d⟩
  else
    match o.engine d [.cache 0] with
    | .error e => .over ⟨[], .failed (.engine e), d⟩
    | .ok engine =>
      match WatchedFolder.ofArguments d paths with
      | .error failure => .over ⟨[], .failed (.analysis [failure]), d⟩
      | .ok folders =>
        .watching ("Watching " ++ Text.ofNat paths.length ++ " path(s), press Ctrl+C to stop\n")
          ⟨{ engine, disk := d }, folders⟩

/-! ## The other commands -/

/-- **The findings or the drawings of programs**, or the catalogue of detectors. -/
def analyse (o : Options) (d : Disk) (paths : List Text) : Outcome :=
  if o.listDetectors then ⟨Catalogue.render Registry.builtin.descriptors, .clean, d⟩
  else if paths.isEmpty then ⟨[], .failed .noInput, d⟩
  else
    match o.engine d [] with
    | .error e => ⟨[], .failed (.engine e), d⟩
    | .ok engine =>
      let session : Session := { engine, disk := d }
      if o.printGraph then draw o session paths else detect o session paths

/-- The configuration that a new project starts with: every detector is on. -/
def firstConfig : Config :=
  { detectors := some (.ofList (Registry.builtin.descriptors.map fun d => (d.name, false)))
    threshold := Detector.HighComplexity.defaultThreshold }

/-- **A first configuration file** written. -/
def initialise (o : Options) (d : Disk) : Outcome :=
  let path := if o.config.isEmpty then Config.defaultPath else o.config
  match firstConfig.save d path with
  | .error e => ⟨[], .failed (.initialising e), d⟩
  | .ok d => ⟨"Configuration file created/updated: " ++ path ++ "\n", .clean, d⟩

/-- The complexity of programs, if there are any. -/
def measureAny (o : Options) (d : Disk) (paths : List Text) : Outcome :=
  if paths.isEmpty then ⟨[], .failed .noInput, d⟩ else measure o d paths

/-! ## Command lines -/

/-- A command line started on a disk. -/
def Invocation.start (i : Invocation) (d : Disk) : Started :=
  if i.options.help then .over ⟨helpText, .clean, d⟩
  else
    match i.command with
    | .analyse => .over (analyse i.options d i.arguments)
    | .initialise => .over (initialise i.options d)
    | .watch => startWatch i.options d i.arguments
    | .complexity => .over (measureAny i.options d i.arguments)

/-- **A command line started**, from its arguments. -/
def start (d : Disk) (arguments : List Text) : Started :=
  match Invocation.parse arguments with
  | .error e => .over ⟨[], .failed (.usage e), d⟩
  | .ok i => i.start d

/-- **A command line run** to its end; a watch ends after `changes`. -/
def run (d : Disk) (arguments : List Text) (changes : List FileChange) : Outcome :=
  match start d arguments with
  | .over outcome => outcome
  | .watching text w =>
    let (more, w) := w.observeAll changes
    ⟨text ++ more, .clean, w.session.disk⟩

end CommandLine

end TealAudit
