import TealAudit.Cache
import TealAudit.Drawing
import TealAudit.Failure
import TealAudit.Finding.Snippet
import TealAudit.Registry
import TealAudit.Suppression

/-!
# The engine

An **engine** is a set of detectors and how they are run: which are left out, which findings are too
slight to report, whether and where the drawings that findings ask for are written, and whether
results are kept for unchanged programs.

`Engine.analyse` is the analysis itself and touches no file. A **session** is an engine at work on a
disk: it looks into the cache first, then analyses, draws, and keeps the result.
-/

namespace TealAudit

/-- **The outcome of the analysis of a program.** -/
structure Report where
  file : Text
  program : Program
  /-- The lines of the program as they are shown. -/
  source : List Text
  findings : List Finding
  /-- The files of the drawings that were written, by detector. -/
  drawings : Dict Text := .empty
deriving DecidableEq, Repr

/-- **An engine.** -/
structure Engine where
  registry : Registry := .builtin
  /-- Detectors that take the place of registered ones. -/
  overrides : Dict Detector := .empty
  /-- The names of the detectors that are left out. -/
  ignored : List Text := []
  /-- Where drawings are written. -/
  folder : Text := Path.dot
  /-- Whether the drawings that findings ask for are written. -/
  draws : Bool := true
  /-- The least impact that is reported. -/
  least : Impact := Impact.informational
  cache : Option (Cache Text Report) := none

/-- **A setting of an engine.** -/
inductive Setting where
  | registry (r : Registry)
  | least (impact : Impact)
  /-- The threshold of complexity; only a positive one is taken. -/
  | threshold (n : Int)
  | folder (path : Text)
  | noDrawings
  | cache (maxAge : Int)

namespace Engine

/-- The engine with one setting made. -/
def configure (e : Engine) : Setting → Engine
  | .registry r => { e with registry := r }
  | .least impact => { e with least := impact }
  | .threshold n =>
    if 0 < n then
      { e with overrides :=
          e.overrides.insert Detector.HighComplexity.descriptor.name (.highComplexity n) }
    else e
  | .folder path => { e with folder := path }
  | .noDrawings => { e with draws := false }
  | .cache maxAge => { e with cache := some ⟨id, maxAge, .empty⟩ }

/-- The engine with settings made in order. -/
def ofSettings (settings : List Setting) : Engine := settings.foldl configure {}

/-- The engine with a detector left out. -/
def ignore (e : Engine) (name : Text) : Engine := { e with ignored := name :: e.ignored }

/-- The descriptors of the detectors that run, in the order of the registry. -/
def enabled (e : Engine) : List Descriptor :=
  e.registry.descriptors.filter fun d => !e.ignored.contains d.name

/-- The detector that runs under a name. -/
def detector? (e : Engine) (name : Text) : Option Detector :=
  e.overrides.find? name <|> e.registry.detector? name

/-- Everything that the detectors find in a program, detector by detector. -/
def detect (e : Engine) (p : Program) (name : Text) : List Finding :=
  (e.enabled.filterMap fun d => e.detector? d.name).flatMap fun d => d.detect p name

/-- **The analysis of a program**: what its detectors find, without what is too slight and what the
program itself suppresses. -/
def analyse (e : Engine) (name source : Text) : Except SyntaxError Report := do
  let p ← Program.ofSource name source
  let weighty := (e.detect p name).filter fun f => e.least.level ≤ f.impact.level
  return ⟨name, p, Snippet.linesOf source, (Suppression.ofSource source).filter weighty, .empty⟩

end Engine

/-! ## Drawings -/

namespace Disk

/-- The disk with a drawing of a program written into a folder, and the path of the drawing. -/
def draw (d : Disk) (folder suffix : Text) (p : Program) (highlighted : List Nat) :
    Except FileError (Text × Disk) :=
  let path := Path.join folder (Drawing.fileName p.name suffix)
  (path, ·) <$> d.write path (Drawing.highlighting p highlighted).render

/-- The drawings that findings ask for, written one after the other. What was written before a
drawing fails stays written. -/
def drawAll (folder : Text) (p : Program) (d : Disk) (drawings : Dict Text) :
    List Finding → Except Failure (Dict Text) × Disk
  | [] => (.ok drawings, d)
  | f :: rest =>
    match f.drawing with
    | none => d.drawAll folder p drawings rest
    | some suffix =>
      match d.draw folder suffix p (f.blocks.map (·.index)) with
      | .error e => (.error (.exporting f.detector p.name e), d)
      | .ok (path, d) => d.drawAll folder p (drawings.insert f.detector path) rest

end Disk

/-! ## Sessions -/

/-- **An engine at work**: on a disk, at a time. -/
structure Session where
  engine : Engine
  disk : Disk
  now : Nat := 0

/-- A report, and whether it was kept from before. -/
structure Outcome where
  report : Report
  kept : Bool

namespace Session

/-- The session after `n` nanoseconds. -/
def pass (s : Session) (n : Nat) : Session := { s with now := s.now + n }

/-- The time that one step of a session is taken to last, in nanoseconds. -/
def tick : Nat := 1000

/-- The report that the cache gives out for a program, and the session after the request. -/
def lookUp (s : Session) (name source : Text) : Option Report × Session :=
  match s.engine.cache with
  | none => (none, s)
  | some cache =>
    let (report, cache) := cache.get s.now name source
    (report, { s with engine := { s.engine with cache := some cache } })

/-- The session with a report kept, if it has a cache. -/
def keep (s : Session) (name source : Text) (r : Report) : Session :=
  { s with engine :=
      { s.engine with cache := s.engine.cache.map fun c => c.set s.now name source r } }

/-- A report with the drawings that its findings ask for written. -/
def drawReport (s : Session) (r : Report) : Except Failure Report × Session :=
  if s.engine.draws then
    let (drawings, disk) := s.disk.drawAll s.engine.folder r.program .empty r.findings
    ((fun drawings => { r with drawings }) <$> drawings, { s with disk })
  else (.ok r, s)

/-- **The analysis of a source text** under a name. -/
def runSource (s : Session) (name source : Text) : Except Failure Outcome × Session :=
  match s.lookUp name source with
  | (some report, s) => (.ok ⟨report, true⟩, s)
  | (none, s) =>
    match s.engine.analyse name source with
    | .error e => (.error (.refused e), s)
    | .ok report =>
      match s.drawReport report with
      | (.error failure, s) => (.error failure, s)
      | (.ok report, s) => (.ok ⟨report, false⟩, s.keep name source report)

/-- **The analysis of a file.** -/
def run (s : Session) (path : Text) : Except Failure Outcome × Session :=
  match s.disk.read path with
  | .error e => (.error (.reading path e), s)
  | .ok source => s.runSource path source

/-- The suffix of a drawing of a whole program. -/
def wholeSuffix : Text := "cfg"

/-- **A drawing of the whole program** in a file, with nothing highlighted; the path of the drawing. -/
def drawProgram (s : Session) (path : Text) : Except Failure Text × Session :=
  match s.disk.read path with
  | .error e => (.error (.reading path e), s)
  | .ok source =>
    match Program.ofSource path source with
    | .error e => (.error (.refused e), s)
    | .ok p =>
      match s.disk.draw s.engine.folder wholeSuffix p [] with
      | .error e => (.error (.drawing e), s)
      | .ok (path, disk) => (.ok path, { s with disk })

end Session

end TealAudit
