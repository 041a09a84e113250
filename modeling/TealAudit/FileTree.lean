import TealAudit.Dict
import TealAudit.Path

/-!
# File trees

Files in folders. A place in a tree is the list of names that leads to it from the top.
-/

namespace TealAudit

/-- **A file tree**: a file with its content, or a folder with named entries, in the order in which it
lists them. -/
inductive FileTree where
  | file (content : Text)
  | folder (entries : List (Text × FileTree))
deriving Repr

namespace FileTree

/-- The folder with nothing in it. -/
def empty : FileTree := folder []

instance : Inhabited FileTree := ⟨empty⟩

/-- Whether a tree is a folder. -/
def isFolder : FileTree → Bool
  | file _ => false
  | folder _ => true

/-- What stands at a place. -/
def at? : FileTree → List Text → Option FileTree
  | t, [] => some t
  | file _, _ :: _ => none
  | folder entries, name :: rest =>
    (entries.find? fun e => e.1 = name).bind fun e => e.2.at? rest

/-- The tree with `new` at a place; folders on the way are made where there is nothing, and a file
on the way stays as it is. -/
def set : FileTree → List Text → FileTree → FileTree
  | _, [], new => new
  | file content, _ :: _, _ => file content
  | folder entries, name :: rest, new =>
    let old := ((entries.find? fun e => e.1 = name).map (·.2)).getD empty
    folder (Dict.insertEntry name (old.set rest new) entries)

/-- The tree without what stands at a place. -/
def erase : FileTree → List Text → FileTree
  | t, [] => t
  | file content, _ :: _ => file content
  | folder entries, [name] => folder (entries.filter fun e => e.1 ≠ name)
  | folder entries, name :: next :: rest =>
    folder (entries.map fun e => if e.1 = name then (e.1, e.2.erase (next :: rest)) else e)

mutual

/-- **The files of a tree**, each with its path from `path` on and its content. -/
def files (path : Text) : FileTree → List (Text × Text)
  | file content => [(path, content)]
  | folder entries => filesOf path entries

/-- The files of the entries of a folder. -/
def filesOf (path : Text) : List (Text × FileTree) → List (Text × Text)
  | [] => []
  | (name, t) :: rest => files (Path.join path name) t ++ filesOf path rest

end

mutual

/-- The paths of a folder and of all folders below it, from `path` on. -/
def folders (path : Text) : FileTree → List Text
  | file _ => []
  | folder entries => path :: foldersOf path entries

/-- The paths of the folders among the entries of a folder. -/
def foldersOf (path : Text) : List (Text × FileTree) → List Text
  | [] => []
  | (name, t) :: rest => folders (Path.join path name) t ++ foldersOf path rest

end

end FileTree

end TealAudit
