import TealAudit.Config.Document
import TealAudit.Yaml.Reader
import TealAudit.Yaml.Value

/-!
# Configurations from YAML

A configuration is filled from a map, field by field in the order of the text: each field that the map
has is set, and nothing sets a field to nothing. Fields of other names are not looked at. A map may
name others to be merged in; their fields come after its own, and a field that is there already stays
as it is.

A value that does not fit its field spoils the configuration, and so does a key that stands twice in
one map, but the fields behind it are still read. A scalar that is not what its tag says, and an
unknown impact, end the reading at once.
-/

namespace TealAudit

/-- **Why a file gives no configuration**: it is malformed or does not fit, or it names an impact
that there is not. -/
inductive ConfigFault where
  | malformed
  | unknownImpact (u : UnknownRank)
deriving DecidableEq, Repr

namespace Yaml

/-- **What a node gives where some kind of value is wanted**: a value; nothing, which sets no field;
something that does not fit; or what no kind of value is. -/
inductive Wanted (α : Type) where
  | value (a : α)
  | nothing
  | mismatch
  | broken
deriving Repr

namespace Tree

/-- What a scalar gives where a kind of value is wanted, from its spelling and its meaning. -/
def scalar {α : Type} (t : Tree) (fit : Text → Value → Option α) (n : Node) : Wanted α :=
  match t.target n with
  | .scalar tag plain spelling =>
    match scalarValue tag plain spelling with
    | none => .broken
    | some .nothing => .nothing
    | some v => ((fit spelling v).map .value).getD .mismatch
  | _ => .mismatch

/-- **A text**: any scalar, as it is spelled. -/
def text (t : Tree) (n : Node) : Wanted Text :=
  t.scalar (fun spelling v => match v with
    | .text bytes => some bytes
    | _ => some spelling) n

/-- Words that are taken for a flag where a flag is wanted. -/
def yesWords : List Text := ["y", "Y", "yes", "Yes", "YES", "on", "On", "ON"]

/-- Words that are taken for the other flag. -/
def noWords : List Text := ["n", "N", "no", "No", "NO", "off", "Off", "OFF"]

/-- **A flag.** -/
def flag (t : Tree) (n : Node) : Wanted Bool :=
  t.scalar (fun _ v => match v with
    | .flag b => some b
    | .text w => if yesWords.contains w then some true else if noWords.contains w then some false
      else none
    | _ => none) n

/-- **A whole number** of 64 bits, or the whole part of a fraction. -/
def whole (t : Tree) (n : Node) : Wanted Int :=
  t.scalar (fun _ v => match v with
    | .whole n => if n < (Word.half : Int) then some n else none
    | .fraction part => part
    | _ => none) n

/-- **The entries of a map.** -/
def entries (t : Tree) (n : Node) : Wanted (List (Node × Node)) :=
  match t.target n with
  | .map entries => .value entries
  | n => t.scalar (fun _ _ => none) n

end Tree

/-! ## The fields of a map -/

/-- Whether two keys are written alike. -/
def sameKey : Node → Node → Bool
  | .scalar _ _ s, .scalar _ _ t => s = t
  | .list _, .list _ => true
  | .map _, .map _ => true
  | .alias s _, .alias t _ => s = t
  | _, _ => false

/-- Whether a key stands twice in a map. -/
def hasRepeatedKey : List (Node × Node) → Bool
  | [] => false
  | (key, _) :: entries => entries.any (fun e => sameKey key e.1) || hasRepeatedKey entries

/-- Whether a key asks for other maps to be merged in. -/
def isMergeKey : Node → Bool
  | .scalar none plain t => plain && t = Text.ofString "<<"
  | .scalar (some tag) _ t => tag = Text.ofString "!!merge" && t = Text.ofString "<<"
  | _ => false

/-- A step of filling something from a map: a field to be set, or what is wrong with one. -/
inductive Step where
  | field (name : Text) (value : Node)
  | mismatch
  | broken

namespace Tree

/-- The steps for the entries of one map. In a map that is merged in, the names in `merged` are left
out and grow by those that are not; in another one a name in `known` may be met once only. Keys that
are nothing are left out. -/
def ownSteps (t : Tree) (known : List Text) : (merged : Option (List Text)) → (met : List Text) →
    List (Node × Node) → List Step × Option (List Text)
  | merged, _, [] => ([], merged)
  | merged, met, (key, value) :: entries =>
    let step (s : Step) (names : Option (List Text)) (met : List Text) :=
      let (steps, names) := ownSteps t known names met entries
      (s :: steps, names)
    if isMergeKey key then ownSteps t known merged met entries
    else
      match t.text key, merged with
      | .nothing, _ => ownSteps t known merged met entries
      | .mismatch, _ => step .mismatch merged met
      | .broken, _ => step .broken merged met
      | .value name, some names =>
        if names.contains name then ownSteps t known merged met entries
        else step (.field name value) (some (name :: names)) met
      | .value name, none =>
        if known.contains name && met.contains name then step .mismatch merged met
        else step (.field name value) merged (name :: met)

/-- The keys of a map that mean texts. -/
def textKeys (t : Tree) (entries : List (Node × Node)) : List Text :=
  entries.filterMap fun (key, _) =>
    match t.scalar (fun _ v => match v with
      | .text bytes => some bytes
      | _ => none) key with
    | .value name => some name
    | _ => none

/-- The maps that a node asks to be merged in: one, or a list of them. -/
def mergeParts : Node → List Node
  | .list items => items
  | n => [n]

/-- **The steps for a map** and the maps that it merges in. `fuel` bounds how deep they are merged;
a map that is merged into itself has no end. -/
def steps (t : Tree) (known : List Text) : (fuel : Nat) → (merged : Option (List Text)) →
    List (Node × Node) → List Step × Option (List Text)
  | 0, merged, _ => ([.broken], merged)
  | fuel + 1, merged, entries =>
    if hasRepeatedKey entries then ([.mismatch], merged)
    else
      let (own, merged) := ownSteps t known merged [] entries
      match (entries.filter fun e => isMergeKey e.1).getLast? with
      | none => (own, merged)
      | some (_, value) =>
        let (more, names) := (mergeParts value).foldl (fun (before, names) part =>
          match t.entries part with
          | .value inner =>
            let (steps, met) := steps t known fuel (some names) inner
            (before ++ steps, met.getD names)
          | _ => (before ++ [.broken], names)) ([], merged.getD (t.textKeys entries))
        (own ++ more, merged.map fun _ => names)

end Tree

end Yaml

/-! ## Filling -/

namespace Config

open Yaml (Node Step Tree Wanted)

/-- **Something that is being filled**, and whether all fitted so far. -/
structure Filled (α : Type) where
  value : α
  fitted : Bool := true
deriving Repr

/-- A value put where it belongs, if there is one that fits. -/
def put {α β : Type} (wanted : Wanted α) (old : β) (set : α → Except ConfigFault (Filled β)) :
    Except ConfigFault (Filled β) :=
  match wanted with
  | .value a => set a
  | .nothing => .ok ⟨old, true⟩
  | .mismatch => .ok ⟨old, false⟩
  | .broken => .error .malformed

/-- Something filled by steps, one after the other. -/
def fill {α : Type} (set : Text → Node → α → Except ConfigFault (Filled α)) :
    List Step → α → Except ConfigFault (Filled α)
  | [], a => .ok ⟨a, true⟩
  | .field name value :: steps, a => do
    let one ← set name value a
    let all ← fill set steps one.value
    return { all with fitted := one.fitted && all.fitted }
  | .mismatch :: steps, a => do
    let all ← fill set steps a
    return { all with fitted := false }
  | .broken :: _, _ => .error .malformed

/-- Something filled from the entries of a map. -/
def fillFrom {α : Type} (t : Tree) (known : List Text)
    (set : Text → Node → α → Except ConfigFault (Filled α)) (entries : List (Node × Node)) (a : α) :
    Except ConfigFault (Filled α) :=
  fill set (t.steps known (t.depth + 1) none entries).1 a

/-- A field of a detector. -/
def setOff (t : Tree) (name : Text) (value : Node) (off : Bool) :
    Except ConfigFault (Filled Bool) :=
  if name = offField then put (t.flag value) off fun b => .ok ⟨b, true⟩ else .ok ⟨off, true⟩

/-- A detector switched off or on. One of which nothing is said is on. -/
def setDetector (t : Tree) (name : Text) (value : Node) (off : Dict Bool) :
    Except ConfigFault (Filled (Dict Bool)) :=
  match t.entries value with
  | .nothing => .ok ⟨if (off.find? name).isSome then off else off.insert name false, true⟩
  | wanted => put wanted off fun entries => do
    let one ← fillFrom t [offField] (setOff t) entries false
    return ⟨off.insert name one.value, one.fitted⟩

/-- The least impact, by its name. A list or a map counts as the empty name. -/
def setImpact (t : Tree) (value : Node) (c : Config) : Except ConfigFault (Filled Config) :=
  let named (name : Text) : Except ConfigFault (Filled Config) :=
    match Rank.parse name with
    | .ok minImpact => .ok ⟨{ c with minImpact }, true⟩
    | .error u => .error (.unknownImpact u)
  match t.target value with
  | .scalar tag plain spelling =>
    let isNothing : Bool := match tag with
      | none => plain && Yaml.meaning spelling = .nothing
      | some tag => tag = Yaml.nothingTag
    if isNothing then put (t.text value) c fun _ => .ok ⟨c, true⟩ else named spelling
  | _ => named []

/-- A field of a configuration. -/
def setField (t : Tree) (name : Text) (value : Node) (c : Config) :
    Except ConfigFault (Filled Config) :=
  if name = nameField then put (t.text value) c fun name => .ok ⟨{ c with name }, true⟩
  else if name = detectorsField then put (t.entries value) c fun entries => do
    let all ← fillFrom t [] (setDetector t) entries c.off
    return ⟨{ c with detectors := some all.value }, all.fitted⟩
  else if name = exportDirField then
    put (t.text value) c fun exportDir => .ok ⟨{ c with exportDir }, true⟩
  else if name = noExportField then
    put (t.flag value) c fun noExport => .ok ⟨{ c with noExport }, true⟩
  else if name = minImpactField then setImpact t value c
  else if name = thresholdField then
    put (t.whole value) c fun threshold => .ok ⟨{ c with threshold }, true⟩
  else .ok ⟨c, true⟩

/-- The names of the fields. -/
def fieldNames : List Text :=
  [nameField, detectorsField, exportDirField, noExportField, minImpactField, thresholdField]

/-- **The configuration of a YAML tree.** -/
def ofYaml (t : Tree) : Except ConfigFault Config := do
  let all ← put (t.entries t.root) {} fun entries => fillFrom t fieldNames (setField t) entries {}
  if all.fitted then return all.value else throw .malformed

end Config

end TealAudit
