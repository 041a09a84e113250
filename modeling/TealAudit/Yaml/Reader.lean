import TealAudit.Yaml.Cutting
import TealAudit.Yaml.Node
import TealAudit.Yaml.Source

/-!
# Reading YAML

The first document of a YAML text is read from its tokens. What follows it is not read, but it is cut
a little way: a fault in one of the two tokens behind the one that ends the document spoils it, and so
does a fault on a line that might still have made a key of one of its tokens.
-/

namespace TealAudit

namespace Yaml

/-- **A document that is being read**: the tokens to come, the handles of tags, the anchors by name,
the last one first, and the nodes with anchors that are complete. -/
structure Reading where
  rest : List Token
  handles : List (Text × Text) := []
  names : List (Text × Nat) := []
  anchored : List (Nat × Node) := []

/-- A step of reading. -/
abbrev Read := StateT Reading Option

namespace Read

/-- The next token. -/
def peek : Read Token := do
  match (← get).rest with
  | t :: _ => return t
  | [] => failure

/-- Past the next token. -/
def drop : Read Unit := modify fun r => { r with rest := r.rest.drop 1 }

/-- Past the next token, if it is `t`; whether it is. -/
def take? (t : Token) : Read Bool := do
  if (← peek) = t then
    drop
    return true
  else return false

/-- The start of all tags of the language itself. -/
def commonStart : Text := "tag:yaml.org,2002:"

/-- The tag that a handle and a suffix stand for. -/
def fullTag (handle suffix : Text) : Read Text := do
  if handle.isEmpty then return suffix
  let common : List (Text × Text) := [("!", "!"), ("!!", commonStart)]
  let handles := (← get).handles ++ common
  match handles.lookup handle with
  | some start => return start ++ suffix
  | none => failure

/-- A tag as it is kept: the tags of the language itself behind two exclamation marks, and the one
without a meaning not at all. -/
def keptTag (tag : Text) : Option Text :=
  if tag = Text.ofString "!" then none
  else if tag.startsWith commonStart then some ("!!" ++ tag.drop commonStart.length)
  else some tag

/-- The anchor and the tag in front of a node, in either order. -/
def properties : Read (Option Text × Option Text) := do
  match ← peek with
  | .anchor name =>
    drop
    match ← peek with
    | .tag handle suffix =>
      drop
      return (some name, some (← fullTag handle suffix))
    | _ => return (some name, none)
  | .tag handle suffix =>
    drop
    let tag ← fullTag handle suffix
    match ← peek with
    | .anchor name =>
      drop
      return (some name, some tag)
    | _ => return (none, some tag)
  | _ => return (none, none)

/-- The number of a new anchor. -/
def newAnchor (name : Text) : Read Nat := do
  let number := (← get).names.length
  modify fun r => { r with names := (name, number) :: r.names }
  return number

/-- A node, or the one that is not there where a token shows that it is not. -/
def orMissing (ends : List Token) (node : Read Node) : Read Node := do
  if ends.contains (← peek) then return .missing else node

/-- The value behind a key: the colon may be missing, and so may what follows it. -/
def valuePart (ends : List Token) (node : Read Node) : Read Node := do
  if ← take? .value then orMissing ends node else return .missing

mutual

/-- **A node.** With `block` it may be a list or a map by indentation, and with `items` a list whose
items stand as far to the right as the key it belongs to. -/
def node : (fuel : Nat) → (block items : Bool) → Read Node
  | 0, _, _ => failure
  | fuel + 1, block, items => do
    if let .alias name := ← peek then
      drop
      match (← get).names.lookup name with
      | some number => return .alias name number
      | none => failure
    let (anchor, tag) ← properties
    let number ← anchor.mapM newAnchor
    let n ← content fuel block items (anchor.isSome || tag.isSome) (tag.bind keptTag)
    if let some number := number then
      modify fun r => { r with anchored := (number, n) :: r.anchored }
    return n

/-- A node behind its anchor and its tag. If it is `marked` by one of them, nothing need follow. -/
def content : (fuel : Nat) → (block items marked : Bool) → (tag : Option Text) → Read Node
  | 0, _, _, _, _ => failure
  | fuel + 1, block, items, marked, tag => do
    match ← peek, block, items with
    | .item, _, true => return .list (← sameColumnItems fuel)
    | .scalar plain text, _, _ => drop; return .scalar tag plain text
    | .openList, _, _ => drop; return .list (← bracketItems fuel true)
    | .openMap, _, _ => drop; return .map (← bracketEntries fuel true)
    | .listStart, true, _ => drop; return .list (← listItems fuel)
    | .mapStart, true, _ => drop; return .map (← entries fuel)
    | _, _, _ => if marked then return .scalar tag true [] else failure

/-- The items of a list by indentation. -/
def listItems : (fuel : Nat) → Read (List Node)
  | 0 => failure
  | fuel + 1 => do
    if ← take? .blockEnd then return []
    if !(← take? .item) then failure
    let n ← orMissing [.item, .blockEnd] (node fuel true false)
    return n :: (← listItems fuel)

/-- The items of a list that stands as far to the right as its key. -/
def sameColumnItems : (fuel : Nat) → Read (List Node)
  | 0 => failure
  | fuel + 1 => do
    if !(← take? .item) then return []
    let n ← orMissing [.item, .key, .value, .blockEnd] (node fuel true false)
    return n :: (← sameColumnItems fuel)

/-- The entries of a map by indentation. -/
def entries : (fuel : Nat) → Read (List (Node × Node))
  | 0 => failure
  | fuel + 1 => do
    if ← take? .blockEnd then return []
    if !(← take? .key) then failure
    let ends := [.key, .value, .blockEnd]
    let k ← orMissing ends (node fuel true true)
    let v ← valuePart ends (node fuel true true)
    return (k, v) :: (← entries fuel)

/-- The items of a list in brackets. An item with a key is a map of one entry. -/
def bracketItems : (fuel : Nat) → (first : Bool) → Read (List Node)
  | 0, _ => failure
  | fuel + 1, first => do
    if ← take? .closeList then return []
    if !first then
      if !(← take? .comma) then failure
    if ← take? .closeList then return []
    let n ←
      if ← take? .key then
        -- A key that is not there takes the mark with it that shows it.
        let k ← if [Token.value, .comma, .closeList].contains (← peek) then drop; pure .missing
          else node fuel false false
        let v ← valuePart [.comma, .closeList] (node fuel false false)
        pure (.map [(k, v)])
      else node fuel false false
    return n :: (← bracketItems fuel false)

/-- The entries of a map in brackets. An entry without a key is one without a value. -/
def bracketEntries : (fuel : Nat) → (first : Bool) → Read (List (Node × Node))
  | 0, _ => failure
  | fuel + 1, first => do
    if ← take? .closeMap then return []
    if !first then
      if !(← take? .comma) then failure
    if ← take? .closeMap then return []
    let entry ←
      if ← take? .key then
        let k ← orMissing [.value, .comma, .closeMap] (node fuel false false)
        let v ← valuePart [.comma, .closeMap] (node fuel false false)
        pure (k, v)
      else
        let k ← node fuel false false
        pure (k, .missing)
    return entry :: (← bracketEntries fuel false)

end

/-! ## Documents -/

/-- The directives in front of a document: at most one version, which is the known one, and at most
one of each handle. -/
def directives : (fuel : Nat) → (version : Bool) → Read Unit
  | 0, _ => failure
  | fuel + 1, version => do
    match ← peek with
    | .version major minor =>
      if version || major ≠ 1 || minor ≠ 1 then failure
      drop
      directives fuel true
    | .tagHandle handle start =>
      if ((← get).handles.lookup handle).isSome then failure
      drop
      modify fun r => { r with handles := (handle, start) :: r.handles }
      directives fuel version
    | _ => return ()

/-- Whether a token stands between documents. -/
def dividesDocuments : Token → Bool
  | .version _ _ | .tagHandle _ _ | .documentStart | .documentEnd | .finish => true
  | _ => false

/-- **The root of the first document.** It may have a start of its own, and may then be missing. -/
def document (fuel : Nat) : Read Node := do
  match ← peek with
  | .finish => return .missing
  | .version _ _ | .tagHandle _ _ | .documentStart =>
    directives fuel false
    if !(← take? .documentStart) then failure
    if dividesDocuments (← peek) then return .missing else node fuel true false
  | _ => node fuel true false

end Read

/-- **The tree of tokens**, if they start with a document and no fault comes too soon behind it. -/
def Tree.ofTokens? (tokens : Tokens) : Option Tree := do
  let fuel := 3 * tokens.list.length + 3
  let (root, behind) ← (Read.document fuel).run { rest := tokens.list }
  if let some pending := tokens.fault then
    let ending := tokens.list.length - behind.rest.length
    if behind.rest.length < 3 || pending.any (· ≤ ending) then none
  return ⟨root, behind.anchored, tokens.list.length⟩

/-- **The tree that a YAML text holds**, if it keeps to the rules. -/
def read (source : Text) : Option Tree := do
  Tree.ofTokens? (Tokens.ofChars (← charsOf? source))

end Yaml

end TealAudit
