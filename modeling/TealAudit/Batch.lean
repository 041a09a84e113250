import TealAudit.Engine
import TealAudit.Scan

/-!
# Batches of programs

Paths are worked through one after the other: a file is analysed, a folder stands for the programs
below it. A path or a file that fails does not stop the batch. The batch may be stopped from outside;
that is looked at before each file, and nothing is analysed afterwards.

What happens is written down as a list of events, from which the reports and the failures are read.
-/

namespace TealAudit

namespace Batch

/-- **What happens in a batch.** -/
inductive Event where
  /-- A path cannot be used. -/
  | unusable (failure : Failure)
  /-- A folder is worked through, with so many programs below it. -/
  | entered (folder : Text) (programs : Nat)
  /-- A file is analysed. -/
  | analysed (file : Text) (result : Except Failure Report)
  /-- The batch is stopped. -/
  | stopped (why : Interrupt)

/-- The programs that a path stands for, and whether it is a folder. Of a folder whose search is ended
by a failure, nothing is kept. -/
def expand (d : Disk) (path : Text) : Except Failure (Bool × List Text) :=
  match d.inspect .inspecting path with
  | .error e => .error (.accessing path e)
  | .ok (.file _) => .ok (false, [path])
  | .ok (.folder _) =>
    match Scan.paths d path [Path.programExtension] with
    | (_, some e) => .error (.walking path e)
    | (files, none) => .ok (true, files)

/-- The state of a batch: the session, how many files have been analysed, what has happened with the
last event first, and whether the batch is stopped. -/
structure State where
  session : Session
  count : Nat := 0
  events : List Event := []
  done : Bool := false

namespace State

/-- The state after one more event. -/
def log (s : State) (e : Event) : State := { s with events := e :: s.events }

/-- The state after the analysis of a file. -/
def analyse (s : State) (file : Text) : State :=
  let (outcome, session) := s.session.run file
  { s with
    session := session.pass Session.tick
    count := s.count + 1
    events := .analysed file ((·.report) <$> outcome) :: s.events }

/-- The state after files; `stop` says, by the number of files analysed, when the batch is stopped. -/
def analyseAll (stop : Nat → Option Interrupt) (s : State) : List Text → State
  | [] => s
  | file :: rest =>
    match stop s.count with
    | some why => { s.log (.stopped why) with done := true }
    | none => analyseAll stop (s.analyse file) rest

/-- The state after a path. -/
def enter (stop : Nat → Option Interrupt) (s : State) (path : Text) : State :=
  match expand s.session.disk path with
  | .error failure => s.log (.unusable failure)
  | .ok (isFolder, files) =>
    analyseAll stop (if isFolder then s.log (.entered path files.length) else s) files

/-- The state after paths. -/
def enterAll (stop : Nat → Option Interrupt) (s : State) : List Text → State
  | [] => s
  | path :: rest =>
    let s := s.enter stop path
    if s.done then s else enterAll stop s rest

end State

/-- **A batch**: what happens, in order, and the session afterwards. -/
def run (stop : Nat → Option Interrupt) (s : Session) (paths : List Text) : List Event × Session :=
  let s := State.enterAll stop { session := s } paths
  (s.events.reverse, s.session)

/-- A batch that nothing stops. -/
def unstopped : Nat → Option Interrupt := fun _ => none

/-- The files that were analysed. -/
def files (events : List Event) : List Text :=
  events.filterMap fun
    | .analysed file _ => some file
    | _ => none

/-- The reports of a batch. -/
def reports (events : List Event) : List Report :=
  events.filterMap fun
    | .analysed _ (.ok report) => some report
    | _ => none

/-- The failures of a batch. -/
def failures (events : List Event) : List Failure :=
  events.filterMap fun
    | .unusable failure => some failure
    | .analysed _ (.error failure) => some failure
    | .stopped why => some (.interrupted why)
    | _ => none

/-- Whether there is progress to show: some folder with programs was worked through. -/
def showsProgress (events : List Event) : Bool :=
  events.any fun
    | .entered _ programs => 0 < programs
    | _ => false

end Batch

end TealAudit
