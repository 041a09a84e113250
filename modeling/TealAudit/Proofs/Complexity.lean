import TealAudit.Proofs.Reachability

/-!
# Cyclomatic complexity

The complexity of a program is counted on the part of its flow graph that is reachable: edges less
blocks plus two. Reachable blocks go on to reachable blocks only (`Program.reachable_closed`), so the
edges that are counted, those that leave a reachable block, are the edges of that part.

**The law** (`Program.complexity_exact`) is that a program with instructions has a complexity of at
least one. Every reachable block but the first has been entered along a counted edge, and different
blocks along different edges, so there are at most as many reachable blocks as counted edges, and one
(`Program.length_reachable_le`). Nothing is asked of the edges otherwise: they may be repeated, lead
back, or come from a return.
-/

namespace TealAudit

namespace Program

variable {name source : Text} {l : Listing} {p : Program} {k m : Nat}

theorem blocks_eq_nil_iff (h : ofListing name source l = .ok p) :
    p.blocks = [] ↔ l.instructions = [] := by
  obtain ⟨-, laid, -⟩ := ofListing_eq_ok h
  rw [← laid.flatMap_instructions, List.flatMap_eq_nil_iff]
  constructor
  · intro none b mem
    rw [none] at mem
    cases mem
  · intro none
    by_contra some
    obtain ⟨b, mem⟩ := List.exists_mem_of_ne_nil _ some
    exact b.instructions_ne_nil (none b mem)

theorem reachable_eq_nil_iff : p.reachable = [] ↔ p.blocks = [] := by
  constructor
  · intro none
    by_contra some
    have entry : 0 ∈ p.reachable :=
      Search.mem_closure.mpr (.start (List.mem_singleton_self 0) (List.length_pos_iff.mpr some))
    rw [none] at entry
    cases entry
  · intro none
    rw [reachable, none]
    rfl

/-- **Reachable blocks go on to reachable blocks.** -/
theorem reachable_closed (h : ofListing name source l = .ok p) (reached : k ∈ p.reachable)
    (edge : m ∈ p.next k) : m ∈ p.reachable :=
  Search.mem_closure.mpr (.step (Search.mem_closure.mp reached) edge (next_lt h edge))

/-- Every reachable block but the first is entered from a reachable block. -/
theorem entered_of_reachable (reached : k ∈ p.reachable) (later : k ≠ 0) :
    k ∈ p.reachable.flatMap p.next := by
  cases Search.mem_closure.mp reached with
  | start mem _ => exact absurd (List.mem_singleton.mp mem) later
  | step before edge _ => exact List.mem_flatMap.mpr ⟨_, Search.mem_closure.mpr before, edge⟩

/-- **There are no more reachable blocks than counted edges, and one.** -/
theorem length_reachable_le (p : Program) :
    p.reachable.length ≤ (p.reachable.flatMap p.next).length + 1 := by
  have once : p.reachable.Nodup := Search.nodup_closure _ _ _
  have entered : p.reachable.erase 0 ⊆ p.reachable.flatMap p.next := by
    intro k mem
    obtain ⟨later, reached⟩ := once.mem_erase_iff.mp mem
    exact entered_of_reachable reached later
  have fewer := ((once.erase 0).subperm entered).length_le
  have all := List.le_length_erase (a := 0) (l := p.reachable)
  omega

/-! ## Ways to count -/

theorem complexity_eq (some : p.reachable ≠ []) :
    p.complexity = ((p.reachable.flatMap p.next).length : Int) - p.reachable.length + 2 := by
  unfold complexity
  split
  · next none => exact absurd none some
  · rfl

/-- The successors of blocks, taken together, are as many as the edges that leave them. -/
theorem length_flatMap_next (p : Program) {order : List Nat} (once : order.Nodup) :
    (order.flatMap p.next).length = (p.edges.filter fun e => e.source ∈ order).length := by
  have grouped := (perm_groups Edge.source p.edges once).length_eq
  rw [← grouped, List.length_flatMap, List.length_flatMap]
  simp [next]

theorem sum_degrees (p : Program) (order : List Nat) :
    (order.map fun k => ((p.next k).length : Int) - 1).sum =
      ((order.flatMap p.next).length : Int) - order.length := by
  induction order with
  | nil => rfl
  | cons k order ih =>
    rw [List.map_cons, List.sum_cons, ih, List.flatMap_cons, List.length_append, List.length_cons]
    omega

/-- **Complexity is at least one, and counts the reachable part of the graph.**

* It is zero exactly for a program without instructions, and at least one for every other program.
* An edge that leaves a reachable block leads to a reachable block.
* In whatever order the reachable blocks are listed, it is the number of edges between them, less the
  number of blocks, plus two; and it is two more than the sum over the blocks of the number of
  successors less one. -/
theorem complexity_exact (h : ofSource name source = .ok p) :
    (p.complexity = 0 ↔ p.listing.instructions = []) ∧
    (p.listing.instructions ≠ [] → 1 ≤ p.complexity) ∧
    (∀ e ∈ p.edges, e.source ∈ p.reachable → e.target ∈ p.reachable) ∧
    ∀ order : List Nat, order.Nodup → (∀ k, k ∈ order ↔ k ∈ p.reachable) →
      p.listing.instructions ≠ [] →
      p.complexity = ((p.edges.filter fun e => e.source ∈ order ∧ e.target ∈ order).length : Int) -
        order.length + 2 ∧
      p.complexity = 2 + (order.map fun k => ((p.next k).length : Int) - 1).sum := by
  have made := (parse_of_source h).2
  have empty : p.reachable = [] ↔ p.listing.instructions = [] :=
    reachable_eq_nil_iff.trans (blocks_eq_nil_iff made)
  have closed : ∀ e ∈ p.edges, e.source ∈ p.reachable → e.target ∈ p.reachable :=
    fun e mem reached => reachable_closed made reached (mem_next_iff.mpr mem)
  have least : p.listing.instructions ≠ [] → 1 ≤ p.complexity := by
    intro some
    have blocks := p.length_reachable_le
    rw [complexity_eq (mt empty.mp some)]
    omega
  refine ⟨⟨fun zero => ?_, fun none => ?_⟩, least, closed, fun order once same some => ?_⟩
  · by_contra some
    have := least some
    omega
  · rw [complexity, empty.mpr none]
  · have listed : order.Perm p.reachable :=
      (List.perm_ext_iff_of_nodup once (Search.nodup_closure _ _ _)).mpr same
    have count : p.complexity = ((order.flatMap p.next).length : Int) - order.length + 2 := by
      rw [complexity_eq (mt empty.mp some), (listed.flatMap_right p.next).length_eq,
        listed.length_eq]
    have joined : (p.edges.filter fun e => e.source ∈ order ∧ e.target ∈ order) =
        p.edges.filter fun e => e.source ∈ order := by
      refine List.filter_congr fun e mem => ?_
      simp only [same, decide_eq_decide, and_iff_left_iff_imp]
      exact closed e mem
    rw [joined, ← p.length_flatMap_next once, sum_degrees, count]
    exact ⟨rfl, by omega⟩

/-- A loop, a subroutine that is called twice, and dead code behind an end. -/
theorem complexity_exact_calls : ∃ p,
    ofSource [] (Text.ofString "f: bnz f\ncallsub g\ncallsub g\nerr\nsha256\ng: retsub") = .ok p ∧
      p.reachable = [0, 1, 2, 3, 5] ∧ p.complexity = 3 ∧ 1 ≤ p.complexity ∧
      p.complexity = 2 + ([5, 3, 1, 2, 0].map fun k => ((p.next k).length : Int) - 1).sum := by
  obtain ⟨p, built, checked⟩ := exists_of_any
    (q := fun p => p.listing.instructions.length = 6 && p.reachable = [0, 1, 2, 3, 5] &&
      p.complexity = 3)
    (r := ofSource [] (Text.ofString "f: bnz f\ncallsub g\ncallsub g\nerr\nsha256\ng: retsub"))
    (by decide +kernel)
  simp only [Bool.and_eq_true, decide_eq_true_eq] at checked
  obtain ⟨⟨six, reached⟩, three⟩ := checked
  have some : p.listing.instructions ≠ [] := List.length_pos_iff.mp (by omega)
  obtain ⟨-, least, -, counted⟩ := complexity_exact built
  have listed : ∀ k, k ∈ [5, 3, 1, 2, 0] ↔ k ∈ p.reachable := by
    intro k
    rw [reached]
    exact List.Perm.mem_iff (by decide)
  exact ⟨p, built, reached, three, least some, (counted _ (by decide) listed some).2⟩

end Program

end TealAudit
