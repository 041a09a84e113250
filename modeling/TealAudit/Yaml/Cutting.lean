import TealAudit.Yaml.Token

/-!
# Cutting a YAML text into tokens

A text is cut from its start, one token after the other. What a token means may show in a later one
only: a scalar turns out to be a key when a colon follows it on its line. The token that starts the
key is then put in front of the scalar, and where the key stands further to the right than all that is
open, so is the start of a map.
-/

namespace TealAudit

namespace Yaml

/-- **A possible key**: how many tokens stand in front of it and where it starts. It is required where
nothing but a key can stand. A key is awaited: it is not read before it shows whether it is one. -/
structure PossibleKey where
  number : Nat
  line : Nat
  column : Nat
  required : Bool
  awaited : Bool := true
deriving DecidableEq, Repr

/-- Whether a colon at a place would still make the possible key one: on its line, and not too far to
the right. -/
def PossibleKey.reaches (k : PossibleKey) (c : Cursor) : Bool :=
  k.line = c.line && c.column ≤ k.column + 1024

/-- **A level of brackets**, or what is outside of all: how many tokens stand in front of its bracket,
its possible key, and whether it has had one. -/
structure Level where
  start : Nat := 0
  key : Option PossibleKey := none
  noted : Bool := false

/-- The level around brackets that are closed. A key that starts with brackets in which no key could
stand is not awaited any more. -/
def Level.around (inner outer : Level) : Level :=
  if inner.noted then outer
  else
    let key := outer.key.map fun k => { k with awaited := k.awaited && k.number ≠ inner.start }
    { outer with key }

/-- **A text that is being cut.** -/
structure Cutting where
  place : Cursor
  /-- The tokens so far, the last one first. -/
  tokens : List Token := []
  /-- The columns of the lists and maps by indentation that are open, the innermost one first. -/
  columns : List Nat := []
  /-- Whether a key may start at the place. -/
  keyAllowed : Bool := true
  /-- The innermost level of brackets. -/
  level : Level := {}
  /-- The levels around it, the innermost one first. -/
  outer : List Level := []

namespace Cutting

/-- Whether brackets are open. -/
def inBrackets (s : Cutting) : Bool := !s.outer.isEmpty

/-- The column in which the parts of what is open stand at least. -/
def floor (s : Cutting) : Nat :=
  match s.columns with
  | [] => 0
  | column :: _ => column + 1

/-- A further token. -/
def push (s : Cutting) (t : Token) : Cutting := { s with tokens := t :: s.tokens }

/-- A further token of one character. -/
def pushMark (s : Cutting) (t : Token) : Cutting := { s.push t with place := s.place.forward 1 }

/-- A token in front of all but the first `number` ones. -/
def insert (s : Cutting) (number : Nat) (t : Token) : Cutting :=
  { s with tokens := s.tokens.insertIdx (s.tokens.length - number) t }

/-- The possible key forgotten, unless it is required. -/
def forgetKey (s : Cutting) : Option Cutting :=
  if s.level.key.any (·.required) then none
  else some { s with level := { s.level with key := none } }

/-- The place noted as a possible key, if one may start there. -/
def noteKey (s : Cutting) : Option Cutting := do
  if !s.keyAllowed then return s
  let s ← s.forgetKey
  let required := !s.inBrackets && s.floor = s.place.column + 1
  let key : PossibleKey := ⟨s.tokens.length, s.place.line, s.place.column, required, true⟩
  return { s with level := { s.level with key := some key, noted := true } }

/-- What is open in column `limit` or to the right of it closed. -/
def closeFrom (s : Cutting) (limit : Nat) : Cutting :=
  if s.inBrackets then s
  else
    let closed := s.columns.takeWhile (limit ≤ ·)
    { s with
      tokens := List.replicate closed.length .blockEnd ++ s.tokens
      columns := s.columns.drop closed.length }

/-- A list or a map opened in a column by its token, unless one is open there or brackets are. -/
def openAt (s : Cutting) (column number : Nat) (t : Token) : Cutting :=
  if s.inBrackets || column < s.floor then s
  else { s.insert number t with columns := column :: s.columns }

/-- A list or a map opened at the place. -/
def openHere (s : Cutting) (t : Token) : Cutting := s.openAt s.place.column s.tokens.length t

/-! ## Marks -/

/-- Brackets opened. -/
def openBrackets (s : Cutting) (t : Token) : Option Cutting := do
  let s ← s.noteKey
  let level : Level := { start := s.tokens.length }
  return { s.pushMark t with keyAllowed := true, level, outer := s.level :: s.outer }

/-- Brackets closed. -/
def closeBrackets (s : Cutting) (t : Token) : Option Cutting := do
  let s ← s.forgetKey
  let s := { s.pushMark t with keyAllowed := false }
  match s.outer with
  | [] => return s
  | level :: outer => return { s with level := s.level.around level, outer }

/-- A comma in brackets. -/
def comma (s : Cutting) : Option Cutting := do
  let s ← s.forgetKey
  return { s.pushMark .comma with keyAllowed := true }

/-- The mark of an item. -/
def item (s : Cutting) : Option Cutting := do
  if !s.inBrackets && !s.keyAllowed then none
  let s ← (s.openHere .listStart).forgetKey
  return { s.pushMark .item with keyAllowed := true }

/-- The mark of a key. -/
def markedKey (s : Cutting) : Option Cutting := do
  if !s.inBrackets && !s.keyAllowed then none
  let s ← (s.openHere .mapStart).forgetKey
  return { s.pushMark .key with keyAllowed := !s.inBrackets }

/-- The numbers of the tokens that are awaited as keys. -/
def awaited (s : Cutting) (levels : List Level) : List Nat :=
  (levels.filterMap (·.key)).filterMap fun k =>
    if k.awaited && (k.required || k.reaches s.place) then some k.number else none

/-- Whether a key is read already when the colon behind it is met: it is not awaited, nor is one
around it, and two more tokens stand between them. -/
def isPassed (s : Cutting) (k : PossibleKey) : Bool :=
  !k.awaited && (s.awaited s.outer).isEmpty && k.number + 3 ≤ s.tokens.length

/-- The colon in front of a value. It makes the possible key one, if it reaches so far; without one it
stands behind a marked key. -/
def value (s : Cutting) : Option Cutting := do
  match s.level.key.filter (·.reaches s.place) with
  | some k =>
    let s := { s with level := { s.level with key := none } }
    let s := if s.isPassed k then (s.push .key).openAt k.column (s.tokens.length + 1) .mapStart
      else (s.insert k.number .key).openAt k.column k.number .mapStart
    return { s.pushMark .value with keyAllowed := false }
  | none =>
    let s ← s.forgetKey
    if !s.inBrackets && !s.keyAllowed then none
    let s := s.openHere .mapStart
    return { s.pushMark .value with keyAllowed := !s.inBrackets }

/-! ## Tokens with a text -/

/-- An anchor, an alias or a tag. -/
def named (s : Cutting) (read : Cursor → Option (Token × Cursor)) : Option Cutting := do
  let s ← s.noteKey
  let (t, place) ← read s.place
  return { s.push t with place, keyAllowed := false }

/-- A scalar that was read. -/
def scalar (s : Cutting) (plain : Bool) (read : ScalarRead) : Cutting :=
  { s.push (.scalar plain (Text.ofChars read.text)) with
    place := read.behind, keyAllowed := read.lineEnded }

/-- A plain or quoted scalar. It may be a key. -/
def shortScalar (s : Cutting) (plain : Bool) (read : Cursor → Option ScalarRead) :
    Option (Cutting × Bool) := do
  let s ← s.noteKey
  let r ← read s.place
  return (s.scalar plain r, !r.lineEnded)

/-- A block scalar. -/
def blockScalar (s : Cutting) : Option Cutting := do
  let s ← s.forgetKey
  return s.scalar false (← block s.floor s.place)

/-- The token that starts with `c`, in front of `rest`, and whether a comment may follow it on its
line. -/
def token (s : Cutting) (c : Char) (rest : List Char) : Option (Cutting × Bool) :=
  let commented (r : Option Cutting) : Option (Cutting × Bool) := r.map (·, true)
  let mark := s.inBrackets || startsGap rest
  if c = '[' then commented (s.openBrackets .openList)
  else if c = '\x7b' then commented (s.openBrackets .openMap)
  else if c = ']' then commented (s.closeBrackets .closeList)
  else if c = '\x7d' then commented (s.closeBrackets .closeMap)
  else if c = ',' then commented s.comma
  else if c = '-' && startsGap rest then s.item.map (·, false)
  else if c = '?' && mark then commented s.markedKey
  else if c = ':' && mark then commented s.value
  else if c = '*' then commented (s.named fun p => (anchorName? p).map fun (t, d) => (.alias t, d))
  else if c = '&' then commented (s.named fun p => (anchorName? p).map fun (t, d) => (.anchor t, d))
  else if c = '!' then commented (s.named tag?)
  else if (c = '|' || c = '>') && !s.inBrackets then s.blockScalar.map (·, false)
  else if c = '\'' then s.shortScalar false (quoted false)
  else if c = '"' then s.shortScalar false (quoted true)
  else if startsPlain s.inBrackets (c :: rest) then
    s.shortScalar true (plain s.inBrackets s.floor)
  else none

/-- All that is open closed, in front of what does not belong to the document. -/
def closeDocument (s : Cutting) : Option Cutting := do
  let s ← (s.closeFrom 0).forgetKey
  return { s with keyAllowed := false }

/-- **One token further**, with what shows in its indentation. -/
def next (s : Cutting) : Option Cutting := do
  let (place, keyAllowed) := s.place.skip s.inBrackets s.keyAllowed
  let s := { s with place, keyAllowed }.closeFrom (place.column + 1)
  match place.rest with
  | [] => return (← s.closeDocument).push .finish
  | c :: rest =>
    if place.column = 0 && c = '%' then
      let s ← s.closeDocument
      let (t, place) ← directive? place
      return { s.push t with place }
    else if place.atMarker then
      let s ← s.closeDocument
      let t : Token := if c = '-' then .documentStart else .documentEnd
      return { s.push t with place := place.forward 3 }
    else
      let (s, commented) ← s.token c rest
      return if commented then { s with place := s.place.skipComment } else s

end Cutting

/-- **The tokens of a text.** Where it cannot be cut to its end, there are those in front of the fault,
and the numbers of those that were awaited as keys at that point. -/
structure Tokens where
  list : List Token
  fault : Option (List Nat) := none

namespace Tokens

/-- The tokens in front of a fault. -/
def faulty (s : Cutting) : Tokens := ⟨s.tokens.reverse, some (s.awaited (s.level :: s.outer))⟩

/-- The tokens of a text that is being cut. -/
def cutFrom : (fuel : Nat) → Cutting → Tokens
  | 0, s => faulty s
  | fuel + 1, s =>
    match s.next with
    | none => faulty s
    | some next => if next.tokens.head? = some .finish then ⟨next.tokens.reverse, none⟩
      else cutFrom fuel next

/-- **The tokens of characters.** -/
def ofChars (cs : List Char) : Tokens := cutFrom (cs.length + 1) { place := ⟨cs, 0, 0⟩ }

end Tokens

end Yaml

end TealAudit
