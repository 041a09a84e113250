import TealAudit.Proofs.Reachability

/-!
# Where control comes from

A program lists the successors and the predecessors of each block. The two lists are kept apart while
the graph is made: an edge is put in at both of its ends (`Wiring.link`), by whichever of the passes
makes it, and as often as it is made. So what one end counts, the other must count as well.

**The step** is one edge (`Wiring.Mirrored.link`): it adds one to the count at each end, and both ends
are blocks. **The run** is a whole graph (`Wiring.Mirrored.linkAll`). The tables that a run leaves are
the lists of the program (`Program.next_ofEdges`, `Program.prev_ofEdges`).

How often an edge is there is known from where control may go on (`Program.onward`), with no edge in
it. The predecessors of a block are thus counted by what the instructions of the other blocks say.
-/

namespace TealAudit

/-! ## Tables of a graph -/

/-- **A graph in the making**: for each block its successors and its predecessors so far. -/
structure Wiring where
  next : Nat → List Nat
  prev : Nat → List Nat

namespace Wiring

variable {w : Wiring} {e : Edge} {n : Nat}

/-- The graph without edges. -/
def bare : Wiring := ⟨fun _ => [], fun _ => []⟩

/-- A table with `v` behind what it has for `k`. -/
def put (table : Nat → List Nat) (k v : Nat) : Nat → List Nat :=
  fun i => if i = k then table i ++ [v] else table i

/-- **An edge is put in at both of its ends.** -/
def link (w : Wiring) (e : Edge) : Wiring where
  next := put w.next e.source e.target
  prev := put w.prev e.target e.source

/-- The graph of edges that are put in one after the other. -/
def ofEdges (edges : List Edge) : Wiring := edges.foldl link bare

theorem put_eq (table : Nat → List Nat) (k v i : Nat) :
    put table k v i = table i ++ if k = i then [v] else [] := by
  by_cases here : k = i
  · simp [put, here]
  · simp [put, here, Ne.symm here]

@[simp] theorem next_link (w : Wiring) (e : Edge) (k : Nat) :
    (w.link e).next k = w.next k ++ if e.source = k then [e.target] else [] :=
  put_eq _ _ _ _

@[simp] theorem prev_link (w : Wiring) (e : Edge) (k : Nat) :
    (w.link e).prev k = w.prev k ++ if e.target = k then [e.source] else [] :=
  put_eq _ _ _ _

theorem next_foldl (edges : List Edge) (w : Wiring) (k : Nat) : (edges.foldl link w).next k =
    w.next k ++ (edges.filter fun e => e.source = k).map (·.target) := by
  induction edges generalizing w with
  | nil => simp
  | cons e edges ih =>
    rw [List.foldl_cons, ih, next_link]
    by_cases here : e.source = k <;> simp [here]

theorem prev_foldl (edges : List Edge) (w : Wiring) (k : Nat) : (edges.foldl link w).prev k =
    w.prev k ++ (edges.filter fun e => e.target = k).map (·.source) := by
  induction edges generalizing w with
  | nil => simp
  | cons e edges ih =>
    rw [List.foldl_cons, ih, prev_link]
    by_cases here : e.target = k <;> simp [here]

/-- **Tables that mirror each other**, over `n` blocks: a block stands among the successors of another
as often as that one among its predecessors, and nothing but blocks stands in them. -/
structure Mirrored (n : Nat) (w : Wiring) : Prop where
  count_eq : ∀ a b, (w.next a).count b = (w.prev b).count a
  next_lt : ∀ a, ∀ b ∈ w.next a, b < n
  prev_lt : ∀ b, ∀ a ∈ w.prev b, a < n

theorem mirrored_bare (n : Nat) : bare.Mirrored n :=
  ⟨fun _ _ => rfl, fun _ _ mem => (List.not_mem_nil mem).elim, fun _ _ mem =>
    (List.not_mem_nil mem).elim⟩

theorem count_put (table : Nat → List Nat) (k v i x : Nat) :
    (put table k v i).count x = (table i).count x + if k = i ∧ v = x then 1 else 0 := by
  rw [put_eq, List.count_append]
  by_cases here : k = i <;> simp [here, List.count_singleton]

theorem lt_of_mem_put {table : Nat → List Nat} {k v i : Nat} (old : ∀ x ∈ table i, x < n)
    (new : v < n) : ∀ x ∈ put table k v i, x < n := by
  intro x mem
  rw [put_eq, List.mem_append] at mem
  rcases mem with mem | mem
  · exact old x mem
  · split at mem
    · exact List.mem_singleton.mp mem ▸ new
    · cases mem

/-- **One more edge between blocks** leaves the tables mirrored. -/
theorem Mirrored.link (h : w.Mirrored n) (source : e.source < n) (target : e.target < n) :
    (w.link e).Mirrored n := by
  refine ⟨fun a b => ?_, fun a => lt_of_mem_put (h.next_lt a) target,
    fun b => lt_of_mem_put (h.prev_lt b) source⟩
  simp only [Wiring.link, count_put, h.count_eq, and_comm]

/-- **Edges between blocks**, however many of them there are, leave the tables mirrored. -/
theorem Mirrored.linkAll {edges : List Edge} (h : w.Mirrored n)
    (inside : ∀ e ∈ edges, e.source < n ∧ e.target < n) : (edges.foldl Wiring.link w).Mirrored n := by
  induction edges generalizing w with
  | nil => exact h
  | cons e edges ih =>
    obtain ⟨⟨source, target⟩, inside⟩ := List.forall_mem_cons.mp inside
    exact ih (h.link source target) inside

end Wiring

/-! ## Edges start at blocks -/

/-- A return edge starts at a return of the program. -/
theorem Listing.source_of_returns {l : Listing} {blocks : List Block} {direct : List Edge} {e : Edge}
    (mem : e ∈ l.returns blocks direct) : e.source < blocks.length := by
  obtain ⟨label, _, edge⟩ := List.mem_flatMap.mp mem
  unfold Block.returnEdges at edge
  split at edge
  · cases edge
  · split at edge
    · cases edge
    · obtain ⟨r, returns, resumed⟩ := List.mem_flatMap.mp edge
      obtain ⟨_, _, rfl⟩ := List.mem_map.mp resumed
      exact (Search.mem_closure.mp (List.mem_filter.mp returns).1).lt

namespace Program

variable {name source : Text} {l : Listing} {p : Program} {a b : Block}

/-- **Every edge joins blocks.** -/
theorem edge_lt (h : ofListing name source l = .ok p) {e : Edge} (mem : e ∈ p.edges) :
    e.source < p.blocks.length ∧ e.target < p.blocks.length := by
  refine ⟨?_, next_lt h (mem_next_iff.mpr mem)⟩
  obtain ⟨-, laid, direct, made, edges⟩ := ofListing_eq_ok h
  rw [edges] at mem
  rcases List.mem_append.mp mem with first | later
  · have index := Listing.source_mem_of_directEdges made e first
    rw [laid.map_index] at index
    simpa using List.mem_range'_1.mp index
  · exact Listing.source_of_returns later

theorem next_ofEdges (p : Program) (k : Nat) : (Wiring.ofEdges p.edges).next k = p.next k :=
  Wiring.next_foldl p.edges .bare k

theorem prev_ofEdges (p : Program) (k : Nat) : (Wiring.ofEdges p.edges).prev k = p.prev k :=
  Wiring.prev_foldl p.edges .bare k

namespace Built

theorem exists_block (h : p.Built) {k : Nat} (lt : k < p.blocks.length) :
    ∃ b ∈ p.blocks, b.index = k := by
  have found := List.getElem?_eq_getElem lt
  exact ⟨_, List.mem_of_getElem? found, h.index_eq found⟩

/-- A block is found where it starts and nowhere else. -/
theorem at?_eq_index_iff (h : p.Built) (mem : b ∈ p.blocks) {n : Nat} :
    Block.at? p.blocks n = some b.index ↔ n = b.start := by
  rw [h.at?_eq_some_iff]
  constructor
  · rintro ⟨c, there, rfl, same⟩
    have found := h.mem_iff.mp there
    rw [same, h.mem_iff.mp mem] at found
    rw [Option.some.inj found]
  · rintro rfl
    exact ⟨b, mem, rfl, rfl⟩

/-- **A block is a successor once for each position that control may go on to and that is its
start.** -/
theorem count_next (h : p.Built) (inside : a ∈ p.blocks) (inside' : b ∈ p.blocks) {e : Nat}
    (last : e + 1 = a.stop) : (p.next a.index).count b.index = (p.onward a e).count b.start := by
  rw [h.next_eq inside last, List.count, List.countP_filterMap, List.count]
  refine List.countP_congr fun n _ => ?_
  simp only [beq_iff_eq]
  rw [← h.at?_eq_index_iff inside']
  cases Block.at? p.blocks n <;> simp

end Built

/-- **Predecessors mirror successors.**

* The lists of a program are what its edges leave in two tables, when they are put in one after the
  other, each at both ends.
* A block has another one among its successors as often as it is among that one's predecessors. That
  is as often as the start of the other one is among the positions that control may go on to from the
  last instruction of the first, at position `e`.
* Nothing but blocks of the program stands in either list. -/
theorem prev_mirrors_next (h : ofSource name source = .ok p) :
    (∀ k, (Wiring.ofEdges p.edges).next k = p.next k ∧ (Wiring.ofEdges p.edges).prev k = p.prev k) ∧
    (∀ a ∈ p.blocks, ∀ b ∈ p.blocks,
      (p.next a.index).count b.index = (p.prev b.index).count a.index ∧
      ∃ e, p.listing.instructions[e]? = some a.exit ∧
        (p.prev b.index).count a.index = (p.onward a e).count b.start) ∧
    ∀ a ∈ p.blocks, (∀ k ∈ p.next a.index, ∃ b ∈ p.blocks, b.index = k) ∧
      ∀ k ∈ p.prev a.index, ∃ b ∈ p.blocks, b.index = k := by
  have built := built_of_source h
  have mirrored : (Wiring.ofEdges p.edges).Mirrored p.blocks.length :=
    (Wiring.mirrored_bare _).linkAll fun _ mem => edge_lt (parse_of_source h).2 mem
  have same (a b : Nat) : (p.next a).count b = (p.prev b).count a := by
    rw [← next_ofEdges, ← prev_ofEdges]
    exact mirrored.count_eq a b
  refine ⟨fun k => ⟨next_ofEdges p k, prev_ofEdges p k⟩, fun a inside b inside' => ?_,
    fun a _ => ⟨fun k mem => ?_, fun k mem => ?_⟩⟩
  · have last : a.start + a.rest.length + 1 = a.stop := rfl
    refine ⟨same _ _, _, (built.getElem?_exit_iff inside).mpr last, ?_⟩
    rw [← same, built.count_next inside inside' last]
  · rw [← next_ofEdges] at mem
    exact built.exists_block (mirrored.next_lt _ k mem)
  · rw [← prev_ofEdges] at mem
    exact built.exists_block (mirrored.prev_lt _ k mem)

/-- A block that goes on to itself twice and to the next one twice, and two calls of one subroutine. -/
theorem prev_mirrors_next_repeated : ∃ p a b,
    ofSource [] (Text.ofString "x: switch x x y\ny: callsub f\ncallsub f\nerr\nf: retsub") = .ok p ∧
      a ∈ p.blocks ∧ b ∈ p.blocks ∧ a.index = 0 ∧ b.index = 1 ∧ p.next 0 = [1, 0, 0, 1] ∧
      p.prev 4 = [1, 2] ∧ (p.prev 0).count 0 = 2 ∧ (p.prev 1).count 0 = 2 := by
  obtain ⟨p, built, checked⟩ := exists_of_any
    (q := fun p => p.next 0 = [1, 0, 0, 1] && p.prev 4 = [1, 2] &&
      p.blocks.any (·.index = 0) && p.blocks.any (·.index = 1))
    (r := ofSource [] (Text.ofString
      "x: switch x x y\ny: callsub f\ncallsub f\nerr\nf: retsub")) (by decide +kernel)
  simp only [Bool.and_eq_true, decide_eq_true_eq, List.any_eq_true] at checked
  obtain ⟨⟨⟨next, prev⟩, a, inside, zero⟩, b, inside', one⟩ := checked
  obtain ⟨-, mirror, -⟩ := prev_mirrors_next built
  have loops := (mirror a inside a inside).1
  have ahead := (mirror a inside b inside').1
  rw [zero, next] at loops
  rw [zero, one, next] at ahead
  exact ⟨p, a, b, built, inside, inside', zero, one, next, prev, loops.symm, ahead.symm⟩

end Program

end TealAudit
