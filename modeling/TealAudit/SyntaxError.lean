import TealAudit.Opcode
import TealAudit.Text.Quoted

/-!
# What can be wrong with a program

The causes for which a program is refused, each with the words that are shown for it.
-/

namespace TealAudit

/-- Why a pragma line is refused. -/
inductive PragmaFault where
  | noName
  | noSingleValue
  | badVersion (value : Text)
deriving DecidableEq, Repr

/-- **Why a line is refused.** -/
inductive Fault where
  | unknownOpcode (name : Text)
  | operandCount (op : Opcode) (given : Nat)
  | missingLabel (name : Text)
  | duplicateLabel (label : Text)
  | undefinedLabel (label : Text)
  | invalidPragma (why : PragmaFault)
deriving DecidableEq, Repr

/-- What a pragma fault says. -/
def PragmaFault.message : PragmaFault → Text
  | noName => "missing pragma name"
  | noSingleValue => "version requires one value"
  | badVersion value => "bad version " ++ Text.quote value

namespace Fault

/-- The kind of a fault in words. -/
def kind : Fault → Text
  | unknownOpcode _ => "unknown opcode"
  | operandCount _ _ => "wrong number of immediate operands"
  | missingLabel _ => "branch operation needs label argument"
  | duplicateLabel _ => "duplicate label"
  | undefinedLabel _ => "reference to undefined label"
  | invalidPragma _ => "invalid #pragma"

/-- What a fault says beyond its kind. -/
def detail : Fault → Text
  | unknownOpcode name => name
  | operandCount op given =>
    op.name ++ " takes " ++ op.arity.describe ++ ", got " ++ Text.ofNat given
  | missingLabel name => name
  | duplicateLabel label => label
  | undefinedLabel label => label
  | invalidPragma why => why.message

/-- A fault in words. -/
def message (f : Fault) : Text := f.kind ++ ": " ++ f.detail

end Fault

/-- **A program that is refused**: its name, the line and the fault of that line. -/
structure SyntaxError where
  file : Text
  line : Nat
  fault : Fault
deriving DecidableEq, Repr

/-- Where a program is refused; a program without a name is not named. -/
def SyntaxError.place (e : SyntaxError) : Text :=
  if e.file.isEmpty then Text.ofNat e.line else e.file ++ ":" ++ Text.ofNat e.line

/-- A refusal in words. -/
def SyntaxError.message (e : SyntaxError) : Text := e.place ++ ": " ++ e.fault.message

end TealAudit
