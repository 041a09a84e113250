import TealAudit.Program
import TealAudit.Text.Quoted

/-!
# Drawings of a flow graph

A flow graph in the DOT language: a line for the graph, a line for each block and a line for each
edge. Blocks come in the order of their numbers read as texts (0, 1, 10, 11, 2), and edges are
grouped by the block they leave in that same order. A block shows its number, its cost when that is
positive, and its instructions; highlighted blocks are filled red.

A drawing that goes to a file is named after the program, with its path separators made harmless,
and a suffix that says what is drawn.
-/

namespace TealAudit

/-- **What is drawn besides the graph itself**: a cost for each block, and the blocks to highlight. -/
structure Drawing where
  program : Program
  costs : List Int
  highlighted : List Nat

namespace Drawing

/-- A drawing with no cost and the given blocks highlighted. -/
def highlighting (p : Program) (highlighted : List Nat) : Drawing :=
  ⟨p, p.blocks.map fun _ => 0, highlighted⟩

/-- A drawing with the cost of one block set, if there is such a block. -/
def setCost (d : Drawing) (index : Nat) (cost : Int) : Drawing :=
  { d with costs := d.costs.set index cost }

/-- The cost of a block. -/
def cost (d : Drawing) (index : Nat) : Int := d.costs[index]?.getD 0

/-- What is written in the box of a block. -/
def label (d : Drawing) (b : Block) : Text :=
  let cost := d.cost b.index
  let head : Text := "block_" ++ Text.ofNat b.index
  let shown : Text := if cost > 0 then head ++ " (cost " ++ Text.ofInt cost ++ ")" else head
  shown ++ "\n" ++ b.text

/-- The name of a block in the drawing. -/
def node (index : Nat) : Text := "n" ++ Text.ofNat (index + 1)

/-- The attributes of a block in the order of their names. -/
def attributes (d : Drawing) (b : Block) : List (Text × Text) :=
  if d.highlighted.contains b.index then
    [("fillcolor", "red"), ("label", d.label b), ("shape", "box"), ("style", "filled")]
  else [("label", d.label b), ("shape", "box")]

/-- An attribute with its value in quotes. -/
def setting (a : Text × Text) : Text := a.1 ++ "=" ++ Text.quote a.2

/-- The line of a block. -/
def nodeLine (d : Drawing) (b : Block) : Text :=
  "\t" ++ node b.index ++ "[" ++ Text.join "," ((d.attributes b).map setting) ++ "];\n"

/-- The line of an edge. -/
def edgeLine (source target : Nat) : Text :=
  "\t" ++ node source ++ "->" ++ node target ++ ";\n"

/-- The blocks in the order of their numbers as texts. -/
def order (p : Program) : List Block :=
  p.blocks.mergeSort fun a b => Text.atOrBefore (Text.ofNat a.index) (Text.ofNat b.index)

/-- **The text of a drawing.** -/
def render (d : Drawing) : Text :=
  let blocks := order d.program
  "digraph  \x7b\n\t" ++ setting ("label", d.program.name) ++ ";labelloc=\"t\";\n" ++
    blocks.flatMap d.nodeLine ++
    (blocks.flatMap fun b => (d.program.next b.index).flatMap (edgeLine b.index)) ++
    "\t\n\x7d\n"

/-- A program's name without path separators. -/
def flatName (name : Text) : Text :=
  name.map fun b => if b = Text.byte '/' || b = Text.byte '\\' then Text.byte '_' else b

/-- The file name of a drawing of the program `name`. -/
def fileName (name suffix : Text) : Text := flatName name ++ "." ++ suffix ++ ".dot"

end Drawing

end TealAudit
