import TealAudit.Text

/-!
# TOML tables

A TOML text fills one table, key by key. A key has several parts when it leads through inner tables,
and those that are not there yet come to be on the way. What may be written twice is decided by what
is known of a key: a table that came to be on the way may be named once more, and a list may be
replaced.
-/

namespace TealAudit

namespace Toml

/-- **A value.** Numbers with a fraction and moments in time are told apart from all others, and not
from each other. -/
inductive Value where
  | text (t : Text)
  | whole (n : Int)
  | flag (b : Bool)
  | other
  | list (items : List Value)
  | table (fields : List (Text × Value))
  /-- A list of tables that headers add to, the last one first. -/
  | tables (items : List (List (Text × Value)))
deriving Repr, Inhabited

/-- The fields of a table, in the order in which they were added. -/
abbrev Fields := List (Text × Value)

namespace Fields

/-- The value of a field. -/
def get? (fields : Fields) (name : Text) : Option Value := fields.lookup name

/-- The fields with one set. -/
def set (fields : Fields) (name : Text) (value : Value) : Fields :=
  if (get? fields name).isSome then
    fields.map fun field => if field.1 = name then (name, value) else field
  else fields ++ [(name, value)]

/-- **The fields with a change to the table that a path leads to**: through tables, and through the
last one of a list of tables. -/
def change {α : Type} (f : Fields → Option (Fields × α)) :
    (path : List Text) → Fields → Option (Fields × α)
  | [], fields => f fields
  | name :: path, fields =>
    match get? fields name with
    | some (.table inner) =>
      (change f path inner).map fun (inner, a) => (set fields name (.table inner), a)
    | some (.tables (last :: others)) =>
      (change f path last).map fun (last, a) => (set fields name (.tables (last :: others)), a)
    | _ => none

/-- The fields with a value under a key of several parts, over what is there. The tables on the way
come to be where they are not there. -/
def insert : (key : List Text) → Value → Fields → Option Fields
  | [], _, _ => none
  | [name], value, fields => some (set fields name value)
  | name :: key, value, fields =>
    match get? fields name with
    | none => (insert key value []).map fun inner => set fields name (.table inner)
    | some (.table inner) =>
      (insert key value inner).map fun inner => set fields name (.table inner)
    | some _ => none

end Fields

/-- **A table that is being filled**: its fields, the paths of the tables that came to be on the way
and were not named since, and the paths whose value is a list. -/
structure Filling where
  fields : Fields := []
  implicit : List (List Text) := []
  lists : List (List Text) := []

namespace Filling

/-- A path noted as one that came to be on the way. -/
def mark (f : Filling) (path : List Text) : Filling := { f with implicit := path :: f.implicit }

/-- A path noted as one that was named. -/
def unmark (f : Filling) (path : List Text) : Filling :=
  { f with implicit := f.implicit.filter (· ≠ path) }

/-- The path that a key stands for where kinds of values are noted. An empty key stands for the table
it is in, if that is an inner one. -/
def kindPath (context : List Text) (name : Text) : List Text :=
  if !name.isEmpty then context ++ [name] else if context.isEmpty then [[]] else context

/-- Whether the value of a key is a list noted. -/
def setKind (f : Filling) (context : List Text) (name : Text) (isList : Bool) : Filling :=
  let path := kindPath context name
  let others := f.lists.filter (· ≠ path)
  { f with lists := if isList then path :: others else others }

/-- **A value set** in the table that `context` leads to. What is there already stays where it came to
be on the way, is replaced where it is a list, and may not be there otherwise. -/
def set (f : Filling) (context : List Text) (name : Text) (value : Value) : Option Filling := do
  let path := context ++ [name]
  let (fields, wasThere) ← f.fields.change (fun fields =>
    if (fields.get? name).isNone then some (fields.set name value, false)
    else if f.lists.contains path then some (fields.set name value, true)
    else if f.implicit.contains path then some (fields, true)
    else none) context
  let f := { f with fields }
  return if wasThere then f.unmark path else f

/-- The tables on a way, from the one that `context` leads to. Those that are not there come to be. -/
def pass (f : Filling) (context : List Text) : (way : List Text) → Option Filling
  | [] => some f
  | name :: way => do
    let path := context ++ [name]
    let (fields, isNew) ← f.fields.change (fun fields =>
      match fields.get? name with
      | none => some (fields.set name (.table []), true)
      | some (.table _) | some (.tables _) => some (fields, false)
      | some _ => none) context
    let f := { f with fields }
    pass (if isNew then f.mark path else f) path way

/-- A further table of the list of tables under a name. -/
def addItem (f : Filling) (context : List Text) (name : Text) : Option Filling := do
  let (fields, _) ← f.fields.change (fun fields =>
    match fields.get? name with
    | none => some (fields.set name (.tables [[]]), ())
    | some (.tables items) => some (fields.set name (.tables ([] :: items)), ())
    | some _ => none) context
  return { f with fields }

/-- **The table at a path opened**: with `item`, a further one of a list of tables. -/
def openTable (f : Filling) (path : List Text) (item : Bool) : Option Filling := do
  let name ← path.getLast?
  let f ← f.pass [] path.dropLast
  if item then f.addItem path.dropLast name else f.set path.dropLast name (.table [])

/-- The tables on the way to the last part of a key opened, each of them on the way only. -/
def openParts (f : Filling) (context : List Text) : (parts : List Text) → Option Filling
  | [] => some f
  | name :: parts => do
    let path := context ++ [name]
    openParts (← (f.mark path).openTable path false) path parts

end Filling

end Toml

end TealAudit
