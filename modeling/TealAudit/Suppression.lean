import TealAudit.Finding

/-!
# Suppressed findings

A comment `//nolint` in a program suppresses findings, all of them or those of the detectors that
are named behind a colon. It covers

* its own line, behind an instruction;
* the whole program, in front of the first instruction;
* its own line up to the next instruction, elsewhere; only its own line when none follows.

A finding is suppressed when every line at which it starts is covered. Pragma lines do not count, and
a line that holds nothing but a label holds no instruction.
-/

namespace TealAudit

namespace Suppression

/-- A line as far as it matters here. -/
structure Remark where
  line : Nat
  hasCode : Bool
  comment : Text
deriving DecidableEq, Repr

/-- Lines of a program that a comment covers, and the detectors it names; with none named, it is
about all detectors. -/
structure Scope where
  detectors : List Text
  first : Nat
  /-- The last line covered; the scope has no end without it. -/
  last : Option Nat
deriving DecidableEq, Repr

/-- What a suppressing comment starts with. -/
def mark : Text := "//nolint"

/-- Whether words hold an instruction: there are some, and not one alone that ends in a colon. -/
def holdCode : List Text → Bool
  | [] => false
  | [word] => !word.endsWith ":"
  | _ => true

/-- The names in a list with commas, without white space around them. -/
def namesIn (t : Text) : List Text :=
  ((Text.splitOn (Text.byte ',') t).map Text.trim).filter fun name => !name.isEmpty

/-- **The detectors that a comment names**; `none` when it does not suppress anything. -/
def detectorsOf? (comment : Text) : Option (List Text) :=
  if !comment.startsWith mark then none
  else match comment.drop mark.length with
    | [] => some []
    | b :: rest =>
      if b ≠ Text.byte ':' then none
      else if (Text.trim rest).isEmpty then none
      else some (namesIn (Text.trim rest))

/-- The lines from number `n` on that are not pragma lines. -/
def remarksFrom (n : Nat) : List Text → List Remark
  | [] => []
  | line :: rest =>
    let text := line.trim
    if text.startsWith SourceLine.pragmaMark then remarksFrom (n + 1) rest
    else
      let fields := Fields.split text
      ⟨n, holdCode fields.words, fields.comment⟩ :: remarksFrom (n + 1) rest

/-- The first of the remarks with code. -/
def nextCode? (remarks : List Remark) : Option Nat := (remarks.find? (·.hasCode)).map (·.line)

/-- The scope of a comment that names `detectors`, given whether code came before it. -/
def scope (afterCode : Bool) (detectors : List Text) (r : Remark) (rest : List Remark) : Scope :=
  if r.hasCode then ⟨detectors, r.line, some r.line⟩
  else if !afterCode then ⟨detectors, 1, none⟩
  else ⟨detectors, r.line, some ((nextCode? rest).getD r.line)⟩

/-- The scopes of remarks, given whether code came before them. -/
def scopesFrom (afterCode : Bool) : List Remark → List Scope
  | [] => []
  | r :: rest =>
    ((detectorsOf? r.comment).map fun detectors => scope afterCode detectors r rest).toList ++
      scopesFrom (afterCode || r.hasCode) rest

/-- Whether a scope covers a line for a detector. -/
def Scope.covers (s : Scope) (line : Nat) (detector : Text) : Bool :=
  s.first ≤ line && s.last.all (fun last => line ≤ last) &&
    (s.detectors.isEmpty || s.detectors.contains detector)

end Suppression

/-- **What is suppressed in a program**, as the scopes of its comments. -/
structure Suppression where
  scopes : List Suppression.Scope
deriving DecidableEq, Repr

namespace Suppression

/-- The suppression that a source text asks for. -/
def ofSource (source : Text) : Suppression := ⟨scopesFrom false (remarksFrom 1 source.lines)⟩

/-- Whether a line is suppressed for a detector. -/
def covers (s : Suppression) (line : Nat) (detector : Text) : Bool :=
  s.scopes.any fun scope => scope.covers line detector

/-- Whether a finding is suppressed. -/
def suppresses (s : Suppression) (f : Finding) : Bool :=
  !f.anchors.isEmpty && f.anchors.all fun line => s.covers line f.detector

/-- **The findings that are not suppressed**, in order. -/
def filter (s : Suppression) (fs : List Finding) : List Finding := fs.filter fun f => !s.suppresses f

end Suppression

end TealAudit
