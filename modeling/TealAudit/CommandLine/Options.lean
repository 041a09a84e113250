import TealAudit.CommandLine.Duration
import TealAudit.CommandLine.Record
import TealAudit.Detector.HighComplexity
import TealAudit.Numeral
import TealAudit.Text.Quoted

/-!
# Options

What the flags of a command line set. A **flag** has a name, perhaps a letter, and a way to set its
option from a text. A switch may stand without a value, and then is on.
-/

namespace TealAudit

namespace CommandLine

/-- **The options** of all commands, with their defaults. -/
structure Options where
  /-- The configuration file. -/
  config : Text := []
  /-- How long the analysis may take, in nanoseconds. -/
  timeout : Int := 300000000000
  verbose : Bool := false
  /-- Where drawings are written. -/
  exportDir : Text := []
  noExport : Bool := false
  /-- Detectors that are left out. -/
  exclude : List Text := []
  /-- Whether programs are drawn instead of analysed. -/
  printGraph : Bool := false
  listDetectors : Bool := false
  progress : Bool := false
  json : Bool := false
  /-- The file of the output in JSON. -/
  output : Text := []
  /-- The complexity above which a program is marked. -/
  threshold : Int := Detector.HighComplexity.defaultThreshold
  help : Bool := false
deriving DecidableEq, Repr

/-- **Why a value does not fit a flag.** -/
inductive ValueFault where
  | switch (given : Text)
  | number (given : Text) (fault : Numeral.Fault)
  | duration (fault : Duration.Fault)
  | record (fault : Record.Fault)
deriving DecidableEq, Repr

/-- A fault of a number in words. -/
def numeralMessage : Numeral.Fault → Text
  | .malformed => "invalid syntax"
  | .outOfRange => "value out of range"

/-- A fault in words. -/
def ValueFault.message : ValueFault → Text
  | switch given => "strconv.ParseBool: parsing " ++ Text.quote given ++ ": " ++ numeralMessage .malformed
  | number given fault =>
    "strconv.ParseInt: parsing " ++ Text.quote given ++ ": " ++ numeralMessage fault
  | duration fault => fault.message
  | record fault => fault.message

/-- The words that switch on. -/
def onWords : List Text := ["1", "t", "T", "true", "TRUE", "True"]

/-- The words that switch off. -/
def offWords : List Text := ["0", "f", "F", "false", "FALSE", "False"]

/-- The value of a switch. -/
def switchValue (t : Text) : Except ValueFault Bool :=
  if onWords.contains t then .ok true
  else if offWords.contains t then .ok false
  else .error (.switch t)

/-- **A flag.** -/
structure Flag where
  name : Text
  letter : Option Char := none
  /-- Whether it may stand without a value. -/
  isSwitch : Bool := false
  set : Text → Options → Except ValueFault Options

namespace Flag

/-- A flag as it is named in a message. -/
def title (f : Flag) : Text :=
  match f.letter with
  | some c => "-" ++ [Text.byte c] ++ ", --" ++ f.name
  | none => "--" ++ f.name

/-- A flag that sets a text. -/
def ofText (name : Text) (letter : Option Char) (put : Text → Options → Options) : Flag :=
  ⟨name, letter, false, fun t o => .ok (put t o)⟩

/-- A flag that is a switch. -/
def ofSwitch (name : Text) (letter : Option Char) (put : Bool → Options → Options) : Flag :=
  ⟨name, letter, true, fun t o => (put · o) <$> switchValue t⟩

/-- The flag of the configuration file. -/
def config : Flag := ofText "config" none fun t o => { o with config := t }

/-- The flag of the time limit. -/
def timeout : Flag where
  name := "timeout"
  set t o :=
    match Duration.parse t with
    | .ok n => .ok { o with timeout := n }
    | .error fault => .error (.duration fault)

/-- The switch for more messages. -/
def verbose : Flag := ofSwitch "verbose" (some 'v') fun b o => { o with verbose := b }

/-- The flag of the folder for drawings. -/
def exportDir : Flag := ofText "export-dir" none fun t o => { o with exportDir := t }

/-- The switch against drawings. -/
def noExport : Flag := ofSwitch "no-export" none fun b o => { o with noExport := b }

/-- The flag of detectors that are left out: a record, added to those named before. -/
def exclude : Flag where
  name := "exclude"
  set t o :=
    match Record.parse t with
    | .ok names => .ok { o with exclude := o.exclude ++ names }
    | .error fault => .error (.record fault)

/-- The switch for drawings of whole programs. -/
def printGraph : Flag := ofSwitch "print-cfg" none fun b o => { o with printGraph := b }

/-- The switch for the catalogue of detectors. -/
def listDetectors : Flag := ofSwitch "list-detectors" none fun b o => { o with listDetectors := b }

/-- The switch for a progress bar. -/
def progress : Flag := ofSwitch "progress" none fun b o => { o with progress := b }

/-- The switch for output in JSON. -/
def json : Flag := ofSwitch "json" none fun b o => { o with json := b }

/-- The flag of the file for output in JSON. -/
def output : Flag := ofText "output" (some 'o') fun t o => { o with output := t }

/-- The flag of the threshold of complexity. -/
def threshold : Flag where
  name := "threshold"
  set t o :=
    match Numeral.integer t with
    | .ok n => .ok { o with threshold := n }
    | .error fault => .error (.number t fault)

/-- The switch for a short explanation. A command knows it once it is found. -/
def help : Flag := ofSwitch "help" (some 'h') fun b o => { o with help := b }

/-- The flags that every command has. -/
def common : List Flag := [config, timeout, verbose, exportDir]

/-- The flags of the command that needs no name. -/
def main : List Flag :=
  common ++ [noExport, exclude, printGraph, listDetectors, progress, json, output]

end Flag

end CommandLine

end TealAudit
