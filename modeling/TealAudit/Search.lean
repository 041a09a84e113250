/-!
# Searching a finite graph

What can be reached along a step function among the vertices below a bound. The search keeps the
vertices it has not seen and a stack of vertices to look at. Each round takes one vertex out of the
unseen ones, so there are no more rounds than vertices, and a search that starts with all of them
unseen never stops early.
-/

namespace TealAudit.Search

/-- The vertices found in at most `fuel` rounds, in the order in which they are found. -/
def visit (step : Nat → List Nat) : (fuel : Nat) → (unseen stack : List Nat) → List Nat
  | 0, _, _ => []
  | fuel + 1, unseen, stack =>
    match stack.dropWhile fun v => !unseen.contains v with
    | [] => []
    | v :: rest => v :: visit step fuel (unseen.erase v) (step v ++ rest)

/-- **The closure of `start`**: the vertices below `bound` that `step` leads to from `start`, in
ascending order. -/
def closure (step : Nat → List Nat) (bound : Nat) (start : List Nat) : List Nat :=
  let found := visit step bound (List.range bound) start
  (List.range bound).filter found.contains

end TealAudit.Search
