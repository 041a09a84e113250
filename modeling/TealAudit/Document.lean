import TealAudit.Text

/-!
# Documents

What a data file holds, apart from the notation it is written in: texts, flags, whole numbers, and
tables of them under names.
-/

namespace TealAudit

/-- **A document.** The fields of a table stand in the order in which they are written. -/
inductive Document where
  | text (t : Text)
  | flag (b : Bool)
  | number (n : Int)
  | table (fields : List (Text × Document))
deriving Repr

namespace Document

/-- A flag as it is written. -/
def flagText (b : Bool) : Text := if b then Text.ofString "true" else Text.ofString "false"

end Document

end TealAudit
