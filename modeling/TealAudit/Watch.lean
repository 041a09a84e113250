import TealAudit.Engine

/-!
# Watching programs

Folders are watched, and a program that is created or written in one of them is analysed again. A
path that is a folder stands for itself and all folders below it as they are when watching starts,
hidden ones too; a file stands for its folder. A program is reported under the path of the watched
folder it is in.
-/

namespace TealAudit

/-- A folder that is watched: its clean path and its place. -/
structure WatchedFolder where
  path : Text
  place : List Text
deriving DecidableEq, Repr

namespace WatchedFolder

/-- The watched folder of a path. Who watches a folder has to be able to open it. -/
def ofPath (d : Disk) (path : Text) : Except FileFault WatchedFolder := do
  let place ← d.openPlace (Path.clean path)
  return ⟨Path.clean path, place⟩

/-- The folders that a path stands for. -/
def ofArgument (d : Disk) (path : Text) : Except Failure (List WatchedFolder) :=
  match d.inspect .inspecting path with
  | .error e => .error (.accessing path e)
  | .ok (.file _) => (ofPath d (Path.folder path)).mapError .watching |>.map ([·])
  | .ok t => ((t.folders path).mapM (ofPath d)).mapError .watchingAll

/-- The folders that paths stand for; the first path that cannot be used, otherwise. -/
def ofArguments (d : Disk) : List Text → Except Failure (List WatchedFolder)
  | [] => .ok []
  | path :: rest => do
    let folders ← ofArgument d path
    let more ← ofArguments d rest
    return folders ++ more

/-- The path under which a program is reported, if one of the folders holds it. -/
def reportedPath? (folders : List WatchedFolder) (d : Disk) (path : Text) : Option Text := do
  let place ← (d.unguarded.locate path).toOption
  let folder ← folders.find? fun f => f.place = place.dropLast
  return folder.path ++ [Path.slash] ++ Path.lastName path

end WatchedFolder

/-- **A change to a file.** -/
inductive FileChange where
  | written (path content : Text)
  | removed (path : Text)
deriving DecidableEq, Repr

namespace FileChange

/-- The disk after a change. -/
def apply (d : Disk) : FileChange → Disk
  | written path content => d.addFile path content
  | removed path => d.remove path

end FileChange

/-- How long after a change a program is analysed, so that several changes count as one, in
nanoseconds. -/
def Session.settlingTime : Nat := 100000000

/-- **The session after a change**, and the report it gives rise to, under its path. -/
def Session.observe (s : Session) (folders : List WatchedFolder) (change : FileChange) :
    Option (Text × Except Failure Report) × Session :=
  let s := { s.pass settlingTime with disk := change.apply s.disk }
  match change with
  | .removed _ => (none, s)
  | .written path _ =>
    match WatchedFolder.reportedPath? folders s.disk path with
    | none => (none, s)
    | some path =>
      if Path.isProgram path then
        let (outcome, s) := s.run path
        (some (path, (·.report) <$> outcome), s)
      else (none, s)

/-- The session after changes, and the reports they give rise to, in order. -/
def Session.observeAll (s : Session) (folders : List WatchedFolder) :
    List FileChange → List (Text × Except Failure Report) × Session
  | [] => ([], s)
  | change :: rest =>
    let (report, s) := s.observe folders change
    let (more, s) := s.observeAll folders rest
    (report.toList ++ more, s)

end TealAudit
