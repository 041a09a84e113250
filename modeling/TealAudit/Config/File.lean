import TealAudit.Config.OfToml

/-!
# Configuration files

A configuration file is in TOML when its extension says so, in any case, and in YAML otherwise.
-/

namespace TealAudit

/-- The format of the file at a path. -/
def Format.ofPath (path : Text) : Format :=
  if (Path.extension path).spells ".toml" then .toml else .yaml

/-- **Why a configuration file cannot be used.** -/
inductive ConfigError where
  | unreadable (path : Text) (error : FileError)
  | unusable (path : Text) (fault : ConfigFault)
deriving DecidableEq, Repr

/-- An error in words. What is wrong with a malformed file is not told. -/
def ConfigError.message : ConfigError → Text
  | unreadable path error => "cannot read " ++ path ++ ": " ++ error.message
  | unusable path .malformed => "parse error in " ++ path
  | unusable path (.unknownImpact u) => "parse error in " ++ path ++ ": " ++ u.message

namespace Config

/-- **The configuration that a text holds.** -/
def parse (format : Format) (source : Text) : Except ConfigFault Config :=
  match format with
  | .yaml =>
    match Yaml.read source with
    | some tree => ofYaml tree
    | none => .error .malformed
  | .toml =>
    match (Toml.read source).bind ofToml with
    | some c => .ok c
    | none => .error .malformed

/-- The text that holds a configuration. -/
def render (c : Config) (format : Format) : Text := format.render (c.document format)

/-- **The configuration in the file at a path.** -/
def load (d : Disk) (path : Text) : Except ConfigError Config :=
  match d.read path with
  | .error e => .error (.unreadable path e)
  | .ok source =>
    match parse (.ofPath path) source with
    | .error fault => .error (.unusable path fault)
    | .ok c => .ok c

/-- The file that is read when no other one is named. -/
def defaultPath : Text := ".tealer.yaml"

/-- The configuration of a command: that of the file it names, and without a name that of the default
file or, if there is none, the default one. -/
def loadOrDefault (d : Disk) (path : Text) : Except ConfigError Config :=
  if !path.isEmpty then load d path
  else
    match load d defaultPath with
    | .error (.unreadable p e) => if e.fault = .notFound then .ok {} else .error (.unreadable p e)
    | result => result

/-- **A configuration written** to the file at a path. -/
def save (c : Config) (d : Disk) (path : Text) : Except FileError Disk :=
  d.write path (c.render (.ofPath path))

end Config

end TealAudit
