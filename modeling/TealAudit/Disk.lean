import TealAudit.FileTree

/-!
# Disks

A file tree together with a working folder, and what can be done to its files by path. A path is
followed name by name: each name but the last has to lead to a folder, two dots lead to the folder
above, and a slash at the end asks for a folder. What cannot be done is reported with the call that
was tried and the path as it was given.

Not everything that is there can be used. At some places it is **forbidden** to open the file or to
list the folder that stands there, at some to look up names in the folder. The rules are about places,
whatever stands there, and no call changes them. A folder in which names may be looked up takes new
files as well.
-/

namespace TealAudit

/-- Why a file cannot be used. -/
inductive FileFault where
  | notFound
  | notFolder
  | isFolder
  | nameTooLong
  | invalid
  | denied
deriving DecidableEq, Repr

/-- A fault in words. -/
def FileFault.message : FileFault → Text
  | notFound => "no such file or directory"
  | notFolder => "not a directory"
  | isFolder => "is a directory"
  | nameTooLong => "file name too long"
  | invalid => "invalid argument"
  | denied => "permission denied"

/-- What was being done to a file. -/
inductive FileCall where
  | opening
  | reading
  | inspecting
  | entering
deriving DecidableEq, Repr

/-- The name of a call. -/
def FileCall.name : FileCall → Text
  | opening => "open"
  | reading => "read"
  | inspecting => "stat"
  | entering => "lstat"

/-- **A file that cannot be used**: the call, the path and the fault. -/
structure FileError where
  call : FileCall
  path : Text
  fault : FileFault
deriving DecidableEq, Repr

/-- A file error in words. -/
def FileError.message (e : FileError) : Text :=
  e.call.name ++ " " ++ e.path ++ ": " ++ e.fault.message

/-- What may be forbidden at a place. -/
inductive Access where
  /-- To look up a name in the folder. -/
  | passing
  /-- To open the file, or to list the folder. -/
  | opening
deriving DecidableEq, Repr

/-- **A disk**: a tree of files, the place in it from which relative paths start, and what is forbidden
at which places. -/
structure Disk where
  root : FileTree := .empty
  here : List Text := []
  forbidden : List (Access × List Text) := []
deriving Repr

namespace Disk

/-- The greatest length of a name. -/
def longestName : Nat := 255

/-- The length that a path stays below. -/
def pathLimit : Nat := 4096

/-- Whether an access is forbidden at a place. -/
def forbids (d : Disk) (access : Access) (place : List Text) : Bool :=
  d.forbidden.contains (access, place)

/-- The disk as it is for those to whom nothing is forbidden. -/
def unguarded (d : Disk) : Disk := { d with forbidden := [] }

/-- The place that names lead to from a place; each of them is looked up in a folder. An empty name is
that of the folder itself and needs no look-up. -/
def follow (d : Disk) (place : List Text) : List Text → Except FileFault (List Text)
  | [] => .ok place
  | name :: rest =>
    match d.root.at? place with
    | some (.folder entries) =>
      if name.isEmpty then d.follow place rest
      else if d.forbids .passing place then .error .denied
      else if name = Path.dot then d.follow place rest
      else if name = Path.dotDot then d.follow place.dropLast rest
      else if longestName < name.length then .error .nameTooLong
      else if entries.any fun e => e.1 = name then d.follow (place ++ [name]) rest
      else .error .notFound
    | some (.file _) => .error .notFolder
    | none => .error .notFound

/-- What is wrong with a path whatever the files are. -/
def pathFault? (path : Text) : Option FileFault :=
  if path.isEmpty then some .notFound
  else if path.contains 0 then some .invalid
  else if pathLimit ≤ path.length then some .nameTooLong
  else none

/-- The place where a path starts. -/
def start (d : Disk) (path : Text) : List Text := if Path.isAbsolute path then [] else d.here

/-- **The place of a path.** -/
def locate (d : Disk) (path : Text) : Except FileFault (List Text) :=
  match pathFault? path with
  | some fault => .error fault
  | none => d.follow (d.start path) (Text.splitOn Path.slash path)

/-- What stands at a path. -/
def get (d : Disk) (path : Text) : Except FileFault FileTree := do
  let place ← d.locate path
  match d.root.at? place with
  | some t => .ok t
  | none => .error .notFound

/-- What stands at a path, with a fault reported for a call. -/
def inspect (d : Disk) (call : FileCall) (path : Text) : Except FileError FileTree :=
  match d.get path with
  | .ok t => .ok t
  | .error fault => .error ⟨call, path, fault⟩

/-- The place of what is opened at a path. -/
def openPlace (d : Disk) (path : Text) : Except FileFault (List Text) := do
  let place ← d.locate path
  if d.forbids .opening place then .error .denied else .ok place

/-- **The content of a file.** A folder can be opened and not read. -/
def read (d : Disk) (path : Text) : Except FileError Text :=
  match d.openPlace path with
  | .error fault => .error ⟨.opening, path, fault⟩
  | .ok place =>
    match d.root.at? place with
    | some (.file content) => .ok content
    | some (.folder _) => .error ⟨.reading, path, .isFolder⟩
    | none => .error ⟨.opening, path, .notFound⟩

/-- The names of a path without the empty ones at its end. -/
def trimmedNames (path : Text) : List Text :=
  ((Text.splitOn Path.slash path).reverse.dropWhile List.isEmpty).reverse

/-- The place at which a path may be written. Its last name may be new; the folder before it is
there. A path that ends in a slash, or in dots, is that of a folder. -/
def placeFor (d : Disk) (path : Text) : Except FileFault (List Text) :=
  match pathFault? path with
  | some fault => .error fault
  | none => do
    let names := trimmedNames path
    let place ← d.follow (d.start path) names.dropLast
    match d.root.at? place with
    | some (.folder entries) =>
      match names.getLast? with
      | none => .error .isFolder
      | some name =>
        if d.forbids .passing place then .error .denied
        else if path.getLast? = some Path.slash || name = Path.dot || name = Path.dotDot then
          .error .isFolder
        else if longestName < name.length then .error .nameTooLong
        else if entries.any fun e => e.1 = name && e.2.isFolder then .error .isFolder
        else if d.forbids .opening (place ++ [name]) then .error .denied
        else .ok (place ++ [name])
    | some (.file _) => .error .notFolder
    | none => .error .notFound

/-- **The disk with a file written**, over the one that was there if there was one. -/
def write (d : Disk) (path content : Text) : Except FileError Disk :=
  match d.placeFor path with
  | .ok place => .ok { d with root := d.root.set place (.file content) }
  | .error fault => .error ⟨.opening, path, fault⟩

/-- The place of a path by its names alone. -/
def plainPlace (d : Disk) (path : Text) : List Text :=
  d.start path ++ (Text.splitOn Path.slash (Path.clean path)).filter fun name =>
    !name.isEmpty && name ≠ Path.dot

/-- The disk with a folder made, and the folders above it. -/
def addFolder (d : Disk) (path : Text) : Disk :=
  let place := d.plainPlace path
  if (d.root.at? place).isSome then d else { d with root := d.root.set place .empty }

/-- The disk with a file put in place, and the folders above it made. -/
def addFile (d : Disk) (path content : Text) : Disk :=
  { d with root := d.root.set (d.plainPlace path) (.file content) }

/-- The disk without a file or an empty folder; a folder with entries stays. This is done from outside,
and not bound by what is forbidden. -/
def remove (d : Disk) (path : Text) : Disk :=
  match d.unguarded.locate path with
  | .error _ => d
  | .ok place =>
    match d.root.at? place with
    | some (.folder (_ :: _)) => d
    | _ => { d with root := d.root.erase place }

/-- **The files of the working folder** and of those below it, by path in ascending order. -/
def files (d : Disk) : List (Text × Text) :=
  (((d.root.at? d.here).getD .empty).files []).mergeSort fun a b => Text.atOrBefore a.1 b.1

/-- The files of `d` that `before` did not have, or had with another content. -/
def changedSince (before d : Disk) : List (Text × Text) :=
  let old := before.files
  d.files.filter fun f => !old.contains f

end Disk

end TealAudit
