import TealAudit.Text

/-!
# Styled text

A report is made of pieces, of which some carry a style. On a terminal a styled piece stands between
two escape sequences; elsewhere it stands as it is. Nothing else depends on whether styles are shown.
-/

namespace TealAudit

/-- **The styles of a report.** -/
inductive Style where
  | error
  | warning
  | info
  | detector
  | file
  | gutter
  | message
  | suggestion
deriving DecidableEq, Repr

/-- The number of the colour of a style. -/
def Style.colour : Style → Nat
  | error => 31
  | warning => 93
  | info => 96
  | detector => 33
  | file => 36
  | gutter => 94
  | message => 31
  | suggestion => 32

/-- A piece of text, styled or not. -/
structure Piece where
  style : Option Style
  text : Text
deriving DecidableEq, Repr

namespace Piece

/-- A piece without a style. -/
def plain (t : Text) : Piece := ⟨none, t⟩

/-- A piece with a style. -/
def styled (s : Style) (t : Text) : Piece := ⟨some s, t⟩

/-- The escape sequence that switches a style on, bold and in its colour. -/
def opening (s : Style) : Text := "\x1b[" ++ Text.ofNat s.colour ++ ";1m"

/-- The escape sequence that switches a style off. -/
def closing : Text := "\x1b[0;22m"

/-- A piece as it is written, with its style shown or not. -/
def render (shown : Bool) (p : Piece) : Text :=
  match p.style with
  | some s => if shown then opening s ++ p.text ++ closing else p.text
  | none => p.text

/-- Pieces as they are written, one after the other. -/
def renderAll (shown : Bool) (ps : List Piece) : Text := ps.flatMap (render shown)

end Piece

end TealAudit
