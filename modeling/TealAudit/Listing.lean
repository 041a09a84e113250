import TealAudit.Fields
import TealAudit.Instruction
import TealAudit.SyntaxError
import TealAudit.Word

/-!
# Listings

A program is read line by line. A line is nothing (blank, or a comment only), a pragma, or code: a
label, an instruction, or a label and an instruction. A **listing** is what the lines add up to: the
instructions in order, each with its line, the labels with the number of instructions before them,
and the version that the last version pragma set.

Reading stops at the first line that is refused. Within a line the label is looked at before the
instruction. Whether the labels that instructions name exist is not decided here.
-/

namespace TealAudit

/-- **A listing**: the instructions, labels and version of a program. -/
structure Listing where
  instructions : List Instruction := []
  labels : List (Text × Nat) := []
  version : Nat := 0
deriving DecidableEq, Repr

/-- **The reading of one line**, before its instruction is looked up. -/
inductive SourceLine where
  /-- Nothing that counts: blank, a comment, or a hint to the assembler. -/
  | idle
  /-- A version pragma. -/
  | version (n : Nat)
  /-- A label, words of an instruction, or both. -/
  | code (label : Option Text) (words : List Text)
deriving DecidableEq, Repr

namespace SourceLine

/-- What a pragma line starts with. -/
def pragmaMark : Text := "#pragma"

/-- What a comment starts with. -/
def commentMark : Text := "//"

/-- The reading of a pragma line with these words. -/
def ofPragma : List Text → Except Fault SourceLine
  | [] | [_] => .error (.invalidPragma .noName)
  | _ :: name :: values =>
    if name ≠ "version" then .ok .idle
    else match values with
      | [value] =>
        match Text.toNat? value with
        | some n => if n < Word.count then .ok (.version n) else .error (.invalidPragma (.badVersion value))
        | none => .error (.invalidPragma (.badVersion value))
      | _ => .error (.invalidPragma .noSingleValue)

/-- The label that a word defines: the word is at least two bytes and ends in a colon. -/
def labelOf? (word : Text) : Option Text :=
  if 2 ≤ word.length && word.endsWith ":" then some word.dropLast else none

/-- The reading of a line of code with these words. -/
def ofWords : List Text → SourceLine
  | [] => .idle
  | word :: rest =>
    match labelOf? word with
    | some label => .code (some label) rest
    | none => .code none (word :: rest)

/-- **The reading of a line.** -/
def read (line : Text) : Except Fault SourceLine :=
  let text := line.trim
  if text.isEmpty || text.startsWith commentMark then .ok .idle
  else if text.startsWith pragmaMark then ofPragma (Fields.split text).words
  else .ok (ofWords (Fields.split text).words)

end SourceLine

/-- The instruction that words spell on the line `n`; `none` for no words. -/
def Instruction.ofWords? (n : Nat) : List Text → Except Fault (Option Instruction)
  | [] => .ok none
  | name :: operands =>
    match Opcode.find? name with
    | none => .error (.unknownOpcode name)
    | some op =>
      if op.arity.accepts operands.length then .ok (some ⟨op.name, op.flow, operands, n⟩)
      else match op.flow with
        | .branch | .conditional | .call => .error (.missingLabel op.name)
        | _ => .error (.operandCount op operands.length)

namespace Listing

/-- Where a label points: the number of instructions before it. -/
def position? (l : Listing) (label : Text) : Option Nat :=
  (l.labels.find? fun entry => entry.1 = label).map (·.2)

/-- Whether a label is defined. -/
def defines (l : Listing) (label : Text) : Bool := l.labels.any fun entry => entry.1 = label

/-- A listing with a label that points behind the instructions it has. -/
def addLabel (l : Listing) : Option Text → Except Fault Listing
  | none => .ok l
  | some label =>
    if l.defines label then .error (.duplicateLabel label)
    else .ok { l with labels := l.labels ++ [(label, l.instructions.length)] }

/-- A listing with one more instruction, if there is one. -/
def addInstruction (l : Listing) : Option Instruction → Listing
  | none => l
  | some i => { l with instructions := l.instructions ++ [i] }

/-- A listing with the reading of line `n` added. -/
def add (l : Listing) (n : Nat) : SourceLine → Except Fault Listing
  | .idle => .ok l
  | .version v => .ok { l with version := v }
  | .code label words => do
    let l ← l.addLabel label
    let i ← Instruction.ofWords? n words
    return l.addInstruction i

/-- A listing with the lines from number `n` on added; at the first refused line, its number and
fault. -/
def readFrom (l : Listing) (n : Nat) : List Text → Except (Nat × Fault) Listing
  | [] => .ok l
  | line :: rest =>
    match SourceLine.read line >>= l.add n with
    | .ok l => l.readFrom (n + 1) rest
    | .error fault => .error (n, fault)

/-- **The listing of a program.** -/
def parse (file source : Text) : Except SyntaxError Listing :=
  match readFrom {} 1 source.lines with
  | .ok l => .ok l
  | .error (n, fault) => .error ⟨file, n, fault⟩

end Listing

end TealAudit
