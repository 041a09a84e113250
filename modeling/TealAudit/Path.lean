import TealAudit.Text

/-!
# Paths

Paths as texts: names set apart by slashes, absolute when they start with one. **Cleaning** a path
leaves out empty names and single dots and lets each pair of dots take away the name before it, all
without looking at any files.
-/

namespace TealAudit.Path

/-- The byte between the names of a path. -/
def slash : UInt8 := Text.byte '/'

/-- The name of the folder itself. -/
def dot : Text := "."

/-- The name of the folder above. -/
def dotDot : Text := ".."

/-- Whether a path starts at the root. -/
def isAbsolute (path : Text) : Bool := path.head? = some slash

/-- The names that are kept, the last one first, after `kept`. Two dots take a name away; where there
is none to take, they are kept in a relative path and dropped in an absolute one. -/
def reduce (absolute : Bool) (kept : List Text) : List Text → List Text
  | [] => kept
  | name :: rest =>
    if name.isEmpty || name = dot then reduce absolute kept rest
    else if name = dotDot then
      match kept with
      | last :: earlier =>
        if last = dotDot then reduce absolute (name :: kept) rest else reduce absolute earlier rest
      | [] => reduce absolute (if absolute then [] else [name]) rest
    else reduce absolute (name :: kept) rest

/-- **The clean form of a path**; that of the empty path is a dot. -/
def clean (path : Text) : Text :=
  let names := (reduce (isAbsolute path) [] (Text.splitOn slash path)).reverse
  if isAbsolute path then slash :: Text.join [slash] names
  else if names.isEmpty then dot
  else Text.join [slash] names

/-- **Two paths as one**, clean; an empty path adds nothing. -/
def join (a b : Text) : Text :=
  match [a, b].filter fun path => !path.isEmpty with
  | [] => []
  | paths => clean (Text.join [slash] paths)

/-- The last name of a path, empty when the path ends in a slash. -/
def lastName (path : Text) : Text := ((Text.splitOn slash path).getLast?).getD []

/-- **The extension of a path**: from the last dot of its last name on. -/
def extension (path : Text) : Text :=
  let name := lastName path
  if name.contains (Text.byte '.') then
    Text.byte '.' :: ((Text.splitOn (Text.byte '.') name).getLast?).getD []
  else []

/-- **The folder of a path**: the path without its last name, clean. -/
def folder (path : Text) : Text := clean (path.take (path.length - (lastName path).length))

/-- The extension of a program's file. -/
def programExtension : Text := ".teal"

/-- Whether a path is that of a program. -/
def isProgram (path : Text) : Bool := extension path = programExtension

end TealAudit.Path
