import TealAudit.Text

/-!
# YAML trees

A YAML text is read into scalars, lists and maps. A node may have an **anchor**, and an alias
elsewhere in the text stands for it. A node may stand for one that it is itself a part of, so an alias
holds the number of an anchor, and the nodes with anchors are kept beside the tree.
-/

namespace TealAudit

namespace Yaml

/-- **A node** of a YAML tree. A scalar has its tag, if one is written, and `plain` says that it
stands without quotes. -/
inductive Node where
  | scalar (tag : Option Text) (plain : Bool) (text : Text)
  | list (items : List Node)
  | map (entries : List (Node × Node))
  | alias (name : Text) (anchor : Nat)
deriving Repr, Inhabited

/-- The node that is not there. -/
def Node.missing : Node := .scalar none true []

/-- **A YAML tree**: its root and the nodes with anchors, by their numbers. No node is more than
`depth` levels from the root. -/
structure Tree where
  root : Node
  anchored : List (Nat × Node) := []
  depth : Nat := 0

/-- What a node stands for: the node of its anchor if it is an alias. -/
def Tree.target (t : Tree) : Node → Node
  | .alias _ anchor => (t.anchored.lookup anchor).getD .missing
  | n => n

end Yaml

end TealAudit
