import TealAudit.CommandLine.Run

/-!
# The command line

The outermost layer: the files that a command line can reach are read into a disk, the command line
is run on it, what it writes is printed, and the files it changed are written back. A watch looks at
the files again from time to time.
-/

namespace TealAudit.Terminal

/-- The bytes of a text. -/
def bytesOf (t : Text) : ByteArray := ⟨t.toArray⟩

/-- A path as a string; one that is no valid text is taken for the empty one. -/
def pathOf (t : Text) : String := (String.fromUTF8? (bytesOf t)).getD ""

/-- The names of an absolute path. -/
def namesOf (path : Text) : List Text := (Text.splitOn Path.slash path).filter (!·.isEmpty)

/-- A tree, and what is forbidden in it. -/
abbrev Guarded := FileTree × List (Access × List Text)

/-- The file at a path and a place; it may not be opened if it cannot be read. -/
def readFile (path : String) (place : List Text) : IO Guarded :=
  try return (.file (← IO.FS.readBinFile path).toList, [])
  catch _ => return (.file [], [(.opening, place)])

mutual

/-- The tree at a path and a place, if there is one. -/
partial def readTree (path : String) (place : List Text) : IO (Option Guarded) :=
  try
    let real ← IO.FS.realPath path
    if ← real.isDir then some <$> readFolder path place else some <$> readFile path place
  catch _ => return none

/-- The folder at a path and a place; it may not be opened if it cannot be listed. -/
partial def readFolder (path : String) (place : List Text) : IO Guarded :=
  try
    let real ← IO.FS.realPath path
    let mut entries : List (Text × FileTree) := []
    let mut forbidden : List (Access × List Text) := []
    for entry in ← real.readDir do
      if let some (tree, rules) ← readEntry real.toString entry.fileName place then
        entries := (Text.ofString entry.fileName, tree) :: entries
        forbidden := rules ++ forbidden
    return (.folder (Dict.ofList entries).entries, forbidden)
  catch _ => return (.empty, [(.opening, place)])

/-- An entry of the folder at a path and a place. A linked folder and a link to nothing are left out. An
entry that is listed and cannot be reached shows that names may not be looked up in the folder. -/
partial def readEntry (folder name : String) (place : List Text) : IO (Option Guarded) :=
  try
    let child := folder ++ "/" ++ name
    let target ← IO.FS.realPath child
    if target.toString ≠ child && (← target.isDir) then return none
    else readTree child (place ++ [Text.ofString name])
  catch e => return if e matches .permissionDenied .. then some (.file [], [(.passing, place)]) else none

end

/-- The paths outside of the working folder that arguments name. -/
def outsidePaths (here : Text) (arguments : List Text) : List Text :=
  (arguments.flatMap fun a => [a, (a.dropWhile (· ≠ CommandLine.equals)).drop 1]).filterMap fun a =>
    let path := if Path.isAbsolute a then Path.clean a else Path.join here a
    if a.isEmpty || path = here || path.startsWith (here ++ [Path.slash]) then none else some path

/-- The disk that a command line can reach. -/
def readDisk (arguments : List Text) : IO Disk := do
  let here := Text.ofString (← IO.currentDir).toString
  let mut root := FileTree.empty
  let mut forbidden : List (Access × List Text) := []
  for path in outsidePaths here arguments ++ [here] do
    if let some (tree, rules) ← readTree (pathOf path) (namesOf path) then
      root := root.set (namesOf path) tree
      forbidden := rules ++ forbidden
  return { root, here := namesOf here, forbidden }

/-- A disk seen from its root. -/
def fromRoot (d : Disk) : Disk := { d with here := [] }

/-- Write the files of a disk that another one does not have. -/
def writeChanges (before after : Disk) : IO Unit :=
  for (path, content) in (fromRoot before).changedSince (fromRoot after) do
    IO.FS.writeBinFile (pathOf (Path.slash :: path)) (bytesOf content)

/-- Print a text. -/
def print (t : Text) : IO Unit := do
  let out ← IO.getStdout
  out.write (bytesOf t)
  out.flush

/-- What has changed from one disk to another. -/
def changes (before after : Disk) : List FileChange :=
  let gone := (fromRoot before).files.filter fun (path, _) =>
    !(fromRoot after).files.any fun (p, _) => p = path
  (gone.map fun (path, _) => .removed (Path.slash :: path)) ++
    ((fromRoot before).changedSince (fromRoot after)).map fun (path, content) =>
      .written (Path.slash :: path) content

/-- How long to wait before the files are looked at again, in milliseconds. -/
def pause : UInt32 := 200

/-- Look at the files again and again. -/
partial def watch (arguments : List Text) (w : CommandLine.Watching) : IO Unit := do
  IO.sleep pause
  let d ← readDisk arguments
  let (text, w) := w.observeAll (changes w.session.disk d)
  print text
  writeChanges d w.session.disk
  watch arguments w

/-- Run a command line, and give its exit status. -/
def run (arguments : List Text) : IO UInt32 := do
  let d ← readDisk arguments
  match CommandLine.start d arguments with
  | .over outcome =>
    print outcome.output
    writeChanges d outcome.disk
    (← IO.getStderr).write (bytesOf outcome.verdict.errorText)
    return outcome.verdict.status.toUInt32
  | .watching text w =>
    print text
    watch arguments w
    return 0

end TealAudit.Terminal

/-- The entry of the program. -/
def main (arguments : List String) : IO UInt32 :=
  TealAudit.Terminal.run (arguments.map TealAudit.Text.ofString)
