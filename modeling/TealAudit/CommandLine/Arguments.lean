import TealAudit.CommandLine.Options

/-!
# Arguments

Flags and other arguments may stand in any order; two dashes end the flags. A long flag takes its
value after an equals sign or from the next argument. Letters may stand together behind one dash; the
first one that takes a value takes what follows it, or the next argument.

The name of a command is the first argument that is neither a flag nor the value of one. Flags in
front of it are those of the main command, and flags behind it those of the command. Only the command
that is found can explain itself; to ask for that in front of a name is an error.
-/

namespace TealAudit

namespace CommandLine

/-- **A command**: the main one, which analyses programs, and the named ones. -/
inductive Command where
  | analyse
  | initialise
  | watch
  | complexity
deriving DecidableEq, Repr

namespace Command

/-- The names of the commands that have one. -/
def names : List (Text × Command) :=
  [("init", .initialise), ("watch", .watch), ("cyclo", .complexity)]

/-- The flags of a command. -/
def flags : Command → List Flag
  | analyse => Flag.help :: Flag.main
  | initialise | watch => Flag.help :: Flag.common
  | complexity => Flag.help :: Flag.common ++ [Flag.threshold]

end Command

/-- **Why a command line cannot be read.** -/
inductive UsageError where
  | badFlag (argument : Text)
  | unknownFlag (name : Text)
  | unknownLetter (letter : UInt8) (letters : Text)
  | missingValue (argument : Text)
  | missingLetterValue (letter : UInt8) (letters : Text)
  | badValue (value : Text) (flag : Text) (fault : ValueFault)
  | unexpected (argument : Text)
  | helpAsked
deriving DecidableEq, Repr

/-- A letter in single quotes. -/
def quotedLetter (b : UInt8) : Text :=
  let c := Char.ofNat b.toNat
  let body : Text :=
    if c = '\'' then "\\'" else if c = '"' then "\"" else Point.escape (.scalar c)
  "'" ++ body ++ "'"

/-- An error in words. -/
def UsageError.message : UsageError → Text
  | badFlag argument => "bad flag syntax: " ++ argument
  | unknownFlag name => "unknown flag: --" ++ name
  | unknownLetter letter letters =>
    "unknown shorthand flag: " ++ quotedLetter letter ++ " in -" ++ letters
  | missingValue argument => "flag needs an argument: " ++ argument
  | missingLetterValue letter letters =>
    "flag needs an argument: " ++ quotedLetter letter ++ " in -" ++ letters
  | badValue value flag fault =>
    "invalid argument " ++ Text.quote value ++ " for " ++ Text.quote flag ++ " flag: " ++ fault.message
  | unexpected argument => "unknown command " ++ Text.quote argument ++ " for \"tealer init\""
  | helpAsked => "pflag: help requested"

/-! ## Flags -/

/-- The options after a flag is given a value. -/
def Flag.give (f : Flag) (value : Text) (o : Options) : Except UsageError Options :=
  match f.set value o with
  | .ok o => .ok o
  | .error fault => .error (.badValue value f.title fault)

/-- A switch that is on. -/
def switchedOn : Text := "true"

/-- The flag with a name. -/
def named? (flags : List Flag) (name : Text) : Option Flag := flags.find? (·.name = name)

/-- The flag with a letter. -/
def lettered? (flags : List Flag) (letter : UInt8) : Option Flag :=
  flags.find? fun f => f.letter.map Text.byte = some letter

/-- The error about a flag that is not there under its name. -/
def noFlagNamed (name : Text) : UsageError :=
  if name = Flag.help.name then .helpAsked else .unknownFlag name

/-- The error about a flag that is not there under its letter, the first one of `letters`. -/
def noFlagLettered (letter : UInt8) (letters : Text) : UsageError :=
  if Flag.help.letter.map Text.byte = some letter then .helpAsked else .unknownLetter letter letters

/-- The equals sign. -/
def equals : UInt8 := Text.byte '='

/-- The dash. -/
def dash : UInt8 := Text.byte '-'

/-- How letters start that a test runner adds; they are passed over. -/
def runnerMark : Text := "test."

/-- The options after letters behind one dash, and the last of them if it takes the next argument. -/
def giveLetters (flags : List Flag) : Options → Text →
    Except UsageError (Options × Option (UInt8 × Flag))
  | o, [] => .ok (o, none)
  | o, c :: more =>
    if runnerMark.isPrefixOf (c :: more) then .ok (o, none)
    else
      match lettered? flags c with
      | none => .error (noFlagLettered c (c :: more))
      | some f =>
        if more.head? = some equals && 1 < more.length then
          (·, none) <$> f.give (more.drop 1) o
        else if f.isSwitch then
          match f.give switchedOn o with
          | .ok o => giveLetters flags o more
          | .error e => .error e
        else if more.isEmpty then .ok (o, some (c, f))
        else (·, none) <$> f.give more o

/-- **The options after arguments**, and the arguments that are no flags. -/
def readArguments (flags : List Flag) : Options → List Text → Except UsageError (Options × List Text)
  | o, [] => .ok (o, [])
  | o, argument :: rest =>
    if argument.head? ≠ some dash || argument.length = 1 then
      (fun (o, others) => (o, argument :: others)) <$> readArguments flags o rest
    else if argument = [dash, dash] then .ok (o, rest)
    else if argument[1]? = some dash then
      let body := argument.drop 2
      let name := body.takeWhile (· ≠ equals)
      if name.isEmpty || name.head? = some dash then .error (.badFlag argument)
      else
        match named? flags name with
        | none => .error (noFlagNamed name)
        | some f =>
          if name.length < body.length then
            match f.give (body.drop (name.length + 1)) o with
            | .ok o => readArguments flags o rest
            | .error e => .error e
          else if f.isSwitch then
            match f.give switchedOn o with
            | .ok o => readArguments flags o rest
            | .error e => .error e
          else
            match rest with
            | [] => .error (.missingValue argument)
            | value :: rest =>
              match f.give value o with
              | .ok o => readArguments flags o rest
              | .error e => .error e
    else
      match giveLetters flags o (argument.drop 1) with
      | .error e => .error e
      | .ok (o, none) => readArguments flags o rest
      | .ok (o, some (c, f)) =>
        match rest with
        | [] => .error (.missingLetterValue c [c])
        | value :: rest =>
          match f.give value o with
          | .ok o => readArguments flags o rest
          | .error e => .error e

/-! ## Commands -/

/-- Whether an argument looks like a flag. -/
def looksLikeFlag (argument : Text) : Bool :=
  match argument with
  | a :: b :: rest => a = dash && (b ≠ dash || !rest.isEmpty)
  | _ => false

/-- Whether an argument is a flag of the main command that takes its value from the next one. -/
def takesNext (argument : Text) : Bool :=
  match argument with
  | a :: b :: rest =>
    a = dash && !argument.contains equals &&
      if b = dash then !((named? Flag.main rest).any (·.isSwitch))
      else rest.isEmpty && !((lettered? Flag.main b).any (·.isSwitch))
  | _ => false

/-- Whether an argument is a long flag without a value of its own. -/
def isOpenLongFlag (argument : Text) : Bool :=
  argument.take 2 = [dash, dash] && !argument.contains equals

/-- The arguments in front of the name of a command, the command, and those behind. `value` says
whether a value is awaited. -/
def splitAtCommand : (value : Bool) → List Text → Option (List Text × Command × List Text)
  | _, [] => none
  | value, argument :: rest =>
    let pass (value : Bool) : Option (List Text × Command × List Text) :=
      (splitAtCommand value rest).map fun (before, found) => (argument :: before, found)
    if isOpenLongFlag argument || takesNext argument then pass (takesNext argument)
    else if value || looksLikeFlag argument then pass false
    else (Command.names.lookup argument).map fun command => ([], command, rest)

/-- **A command line**: a command with its options and arguments. -/
structure Invocation where
  command : Command
  options : Options
  arguments : List Text
deriving DecidableEq, Repr

/-- The command line of a command, with options set before. -/
def Invocation.ofCommand (command : Command) (o : Options) (arguments : List Text) :
    Except UsageError Invocation := do
  let (options, arguments) ← readArguments command.flags o arguments
  match command, arguments with
  | .initialise, argument :: _ =>
    if options.help then return ⟨command, options, arguments⟩ else .error (.unexpected argument)
  | _, _ => return ⟨command, options, arguments⟩

/-- **The command line that arguments write.** -/
def Invocation.parse (arguments : List Text) : Except UsageError Invocation :=
  match splitAtCommand false arguments with
  | none => ofCommand .analyse {} arguments
  | some (before, command, behind) => do
    let (o, _) ← readArguments Flag.main {} before
    ofCommand command o behind

end CommandLine

end TealAudit
