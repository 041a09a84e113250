import TealAudit.CommandLine.Arguments
import TealAudit.Config.File

/-!
# Verdicts

What comes of a command: all is well, something was found, or it failed. Only the last is told in
words, since findings speak for themselves.
-/

namespace TealAudit

namespace CommandLine

/-- **Why a command failed.** -/
inductive CommandError where
  | usage (e : UsageError)
  | noInput
  | engine (e : ConfigError)
  | initialising (e : FileError)
  | analysis (failures : List Failure)
  | output (e : FileError)
deriving DecidableEq, Repr

/-- An error in words. -/
def CommandError.message : CommandError → Text
  | usage e => e.message
  | noInput => "no input programs given"
  | engine e => "failed to initialize engine: " ++ e.message
  | initialising e => "error initializing config file: " ++ e.message
  | analysis failures => Failure.messages failures
  | output e => e.message

/-- **What comes of a command.** -/
inductive Verdict where
  | clean
  | findings
  | failed (e : CommandError)
deriving DecidableEq, Repr

namespace Verdict

/-- The exit status. -/
def status : Verdict → Nat
  | clean => 0
  | findings | failed _ => 1

/-- What is written where errors are written. -/
def errorText : Verdict → Text
  | clean | findings => []
  | failed e => "error: " ++ e.message ++ "\n"

end Verdict

/-- **The outcome of a command**: what it writes, what comes of it, and the disk afterwards. -/
structure Outcome where
  output : Text := []
  verdict : Verdict := .clean
  disk : Disk

end CommandLine

end TealAudit
