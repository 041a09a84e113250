import TealAudit.Block
import TealAudit.Search

/-!
# Flow graphs

The **flow graph** of a program joins its blocks by an edge for every way in which control may go
from one to another.

* The last instruction of a block decides its direct successors: the next block where control may
  fall through, then the blocks at the labels it names, in the order of its operands. A label behind
  the last instruction leads to no block.
* A subroutine returns behind each of its calls. Which call is being served is known only at run
  time, so every return in the body of a subroutine is joined to the block behind every call of its
  label. The **body** of a subroutine is what control reaches from its first block when a call inside
  it is taken to come back to the block behind it.

Edges are listed in the order in which they are made: the direct ones block by block, then the
returns, label by label in the order of their first calls. A label that no line defines is refused at
the first instruction that names one.
-/

namespace TealAudit

/-- An edge from block `source` to block `target`. -/
structure Edge where
  source : Nat
  target : Nat
deriving DecidableEq, Repr

/-- **A program**: its name, its text, what is listed in it, and its flow graph. -/
structure Program where
  name : Text
  source : Text
  listing : Listing
  blocks : List Block
  edges : List Edge
deriving DecidableEq, Repr

namespace Block

/-- The block that starts at a position. -/
def at? (blocks : List Block) (position : Nat) : Option Nat :=
  (blocks.find? fun b => b.start = position).map (·.index)

/-- The block that follows a block in the text. -/
def following? (blocks : List Block) (b : Block) : Option Nat := at? blocks b.stop

end Block

/-! ## Direct edges -/

namespace Listing

/-- The positions that the labels of an instruction point at; the first label that is not defined,
otherwise. -/
def resolve (l : Listing) : List Text → Except Text (List Nat)
  | [] => .ok []
  | label :: rest =>
    match l.position? label with
    | none => .error label
    | some n => (n :: ·) <$> l.resolve rest

/-- The direct successors of a block. -/
def successors (l : Listing) (blocks : List Block) (b : Block) : Except Text (List Nat) := do
  let positions ← l.resolve b.exit.targets
  let next := if b.exit.flow.fallsThrough then (b.following? blocks).toList else []
  return next ++ positions.filterMap (Block.at? blocks)

/-- The direct edges out of `todo`; at the first block with an undefined label, the line of its last
instruction and the label. -/
def directEdges (l : Listing) (blocks : List Block) : List Block → Except (Nat × Text) (List Edge)
  | [] => .ok []
  | b :: todo =>
    match l.successors blocks b with
    | .error label => .error (b.exit.line, label)
    | .ok next => (next.map (Edge.mk b.index) ++ ·) <$> l.directEdges blocks todo

end Listing

/-! ## Returns -/

/-- **A call**: the label that is called, the block it points at and the block behind the call. -/
structure CallSite where
  label : Text
  callee : Option Nat
  resume : Option Nat
deriving DecidableEq, Repr

namespace Block

/-- The call that ends a block, if one does. -/
def call? (l : Listing) (blocks : List Block) (b : Block) : Option CallSite :=
  if b.exit.flow = .call then
    b.exit.operands.head?.map fun label =>
      ⟨label, (l.position? label).bind (at? blocks), b.following? blocks⟩
  else none

/-- Where control goes on inside the same subroutine: behind a call, nowhere from a return, and
along the direct edges otherwise. -/
def withinBody (blocks : List Block) (direct : List Edge) (index : Nat) : List Nat :=
  match blocks[index]? with
  | none => []
  | some b =>
    match b.exit.flow with
    | .leave => []
    | .call => (b.following? blocks).toList
    | _ => (direct.filter fun e => e.source = index).map (·.target)

/-- Whether the block of an index ends in a return. -/
def leaves (blocks : List Block) (index : Nat) : Bool :=
  blocks[index]?.any fun b => b.exit.flow = .leave

/-- The returns of the subroutine that starts at block `entry`, in ascending order. -/
def returnsOf (blocks : List Block) (direct : List Edge) (entry : Nat) : List Nat :=
  (Search.closure (withinBody blocks direct) blocks.length [entry]).filter (leaves blocks)

/-- The edges from the returns of a subroutine to the blocks behind its calls. -/
def returnEdges (blocks : List Block) (direct : List Edge) (sites : List CallSite) : List Edge :=
  match sites with
  | [] => []
  | site :: _ =>
    match site.callee with
    | none => []
    | some entry =>
      (returnsOf blocks direct entry).flatMap fun r =>
        (sites.filterMap (·.resume)).map (Edge.mk r)

end Block

/-- The calls of a program in order. -/
def Listing.calls (l : Listing) (blocks : List Block) : List CallSite :=
  blocks.filterMap (Block.call? l blocks)

/-- The return edges of a program: label by label, in the order of the first calls. -/
def Listing.returns (l : Listing) (blocks : List Block) (direct : List Edge) : List Edge :=
  let calls := l.calls blocks
  (calls.map (·.label)).eraseDups.flatMap fun label =>
    Block.returnEdges blocks direct (calls.filter fun site => site.label = label)

/-! ## Programs -/

namespace Program

/-- The flow graph of a listing. -/
def ofListing (name source : Text) (l : Listing) : Except SyntaxError Program :=
  let blocks := l.blocks
  match l.directEdges blocks blocks with
  | .error (line, label) => .error ⟨name, line, .undefinedLabel label⟩
  | .ok direct => .ok ⟨name, source, l, blocks, direct ++ l.returns blocks direct⟩

/-- **The program of a source text.** -/
def ofSource (name source : Text) : Except SyntaxError Program := do
  let l ← Listing.parse name source
  ofListing name source l

/-- The successors of a block, once for each edge, in the order in which edges are made. -/
def next (p : Program) (index : Nat) : List Nat :=
  (p.edges.filter fun e => e.source = index).map (·.target)

/-- The predecessors of a block, once for each edge, in the order in which edges are made. -/
def prev (p : Program) (index : Nat) : List Nat :=
  (p.edges.filter fun e => e.target = index).map (·.source)

/-- The block that holds the instruction at a position. -/
def blockOf? (p : Program) (position : Nat) : Option Nat :=
  (p.blocks.find? fun b => b.start ≤ position && position < b.stop).map (·.index)

/-- The blocks an instruction may branch to, in the order of its operands. -/
def targetsOf (p : Program) (i : Instruction) : List Nat :=
  (i.targets.filterMap p.listing.position?).filterMap (Block.at? p.blocks)

/-- **The reachable blocks**: those that control may get to from the first one, in ascending order. -/
def reachable (p : Program) : List Nat := Search.closure p.next p.blocks.length [0]

/-- **The cyclomatic complexity** of the reachable part: edges less blocks plus two. -/
def complexity (p : Program) : Int :=
  match p.reachable with
  | [] => 0
  | blocks => ((blocks.flatMap p.next).length : Int) - blocks.length + 2

end Program

end TealAudit
