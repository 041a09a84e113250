import TealAudit.Disk
import TealAudit.SyntaxError

/-!
# Failures

Why an analysis has no result, each cause with the words that are shown for it.
-/

namespace TealAudit

/-- Why work was stopped before it was done. -/
inductive Interrupt where
  | canceled
  | deadline
deriving DecidableEq, Repr

/-- An interruption in words. -/
def Interrupt.message : Interrupt → Text
  | canceled => "context canceled"
  | deadline => "context deadline exceeded"

/-- **Why an analysis failed.** -/
inductive Failure where
  /-- The program is refused. -/
  | refused (e : SyntaxError)
  /-- A file cannot be used, and nothing more is known. -/
  | file (e : FileError)
  /-- A program cannot be read. -/
  | reading (path : Text) (e : FileError)
  /-- A drawing cannot be written. -/
  | drawing (e : FileError)
  /-- The drawing that a finding asks for cannot be written. -/
  | exporting (detector program : Text) (e : FileError)
  /-- A path that was asked for cannot be used. -/
  | accessing (path : Text) (e : FileError)
  /-- A folder that was asked for cannot be searched. -/
  | walking (path : Text) (e : FileError)
  /-- The folder of a file that was asked for cannot be watched. -/
  | watching (fault : FileFault)
  /-- A folder that was asked for, or one below it, cannot be watched. -/
  | watchingAll (fault : FileFault)
  /-- The work was stopped. -/
  | interrupted (i : Interrupt)
deriving DecidableEq, Repr

namespace Failure

/-- That a drawing cannot be written, in words. -/
def drawingMessage (e : FileError) : Text := "error creating graph file: " ++ e.message

/-- **A failure in words.** -/
def message : Failure → Text
  | refused e => e.message
  | file e => e.message
  | reading path e => "error reading " ++ path ++ ": " ++ e.message
  | drawing e => drawingMessage e
  | exporting detector program e =>
    "error exporting " ++ detector ++ " graph of " ++ program ++ ": " ++ drawingMessage e
  | accessing path e => "error accessing " ++ path ++ ": " ++ e.message
  | walking path e => "error walking directory " ++ path ++ ": " ++ e.message
  | watching fault => fault.message
  | watchingAll fault => "error adding directory to watcher: " ++ fault.message
  | interrupted i => i.message

/-- Failures in words, one on each line. -/
def messages (fs : List Failure) : Text := Text.join "\n" (fs.map message)

/-- The fault of a file that is behind a failure. -/
def fileFault? : Failure → Option FileFault
  | file e | reading _ e | drawing e | exporting _ _ e | accessing _ e | walking _ e => some e.fault
  | watching fault | watchingAll fault => some fault
  | refused _ | interrupted _ => none

end Failure

end TealAudit
