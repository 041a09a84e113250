import TealAudit.Disk

/-!
# Finding files

The files at and below a path whose extension is asked for. Folders whose name starts with a dot are
not entered, unless the search starts there; files with such a name are found.

A search goes through a tree step by step: it lists a folder and goes on to its entries, and it takes a
file that is asked for after a look at it. Each step is a call on the disk, by path, and may fail. The
first that does ends the search, and what was taken before is given back along with the failure.
-/

namespace TealAudit.Scan

/-- Whether a name is that of a hidden folder. -/
def isHidden (name : Text) : Bool := name.head? = some (Text.byte '.')

/-- Whether a folder is searched: it is not hidden, or its path is the one that the search starts at. -/
def enters (root path : Text) : Bool := path = root || !isHidden (Path.lastName path)

/-- Whether a path is asked for: its extension is among the given ones, or none is given. -/
def matchesAny (extensions : List Text) (path : Text) : Bool :=
  extensions.isEmpty || extensions.contains (Path.extension path)

/-- **A step of a search.** -/
inductive Step where
  /-- To list the folder at a path. -/
  | list (folder : Text)
  /-- To take a file, after a look at it as an entry of its folder. -/
  | take (file entry content : Text)
deriving DecidableEq, Repr

namespace Step

/-- Why a step fails on a disk. -/
def failure? (d : Disk) : Step → Option FileError
  | list folder =>
    match d.openPlace folder with
    | .ok _ => none
    | .error fault => some ⟨.opening, folder, fault⟩
  | take _ entry _ =>
    match d.inspect .entering entry with
    | .ok _ => none
    | .error e => some e

/-- The file that a step takes, with its content. -/
def file? : Step → Option (Text × Text)
  | list _ => none
  | take file _ content => some (file, content)

end Step

mutual

/-- **The steps of a search** through a tree that stands at `path`, as long as none of them fails. The
search starts at `root`, and `entry` is the path under which the tree is looked at. -/
def steps (root : Text) (extensions : List Text) (path entry : Text) : FileTree → List Step
  | .file content => if matchesAny extensions path then [.take path entry content] else []
  | .folder entries =>
    if enters root path then .list path :: stepsIn root extensions path entries else []

/-- The steps of a search through the entries of the folder at `path`. -/
def stepsIn (root : Text) (extensions : List Text) (path : Text) : List (Text × FileTree) → List Step
  | [] => []
  | (name, t) :: rest =>
    steps root extensions (Path.join path name) (path ++ Path.slash :: name) t ++
      stepsIn root extensions path rest

end

/-- Steps made one after the other, up to the first that fails: what they take, and the failure. -/
def perform (d : Disk) : List Step → List (Text × Text) × Option FileError
  | [] => ([], none)
  | step :: rest =>
    match step.failure? d with
    | some e => ([], some e)
    | none =>
      let (found, failure) := perform d rest
      (step.file?.toList ++ found, failure)

/-- **The files at and below a path**, each with its content, in the order of paths, and what ended the
search if anything did. -/
def files (d : Disk) (root : Text) (extensions : List Text) : List (Text × Text) × Option FileError :=
  match d.inspect .entering root with
  | .error e => ([], some e)
  | .ok t =>
    let (found, failure) := perform d (steps root extensions root root t)
    (found.mergeSort fun a b => Text.atOrBefore a.1 b.1, failure)

/-- The paths of the files at and below a path, and what ended the search if anything did. -/
def paths (d : Disk) (root : Text) (extensions : List Text) : List Text × Option FileError :=
  let (found, failure) := files d root extensions
  (found.map (·.1), failure)

end TealAudit.Scan
