import Mathlib.Data.List.Perm.Subperm
import Mathlib.Logic.Relation
import TealAudit.Detector.DeadCode
import TealAudit.Proofs.Relabelling

/-!
# What control can reach

The reachable blocks are found by a search with a stack, on which a block may lie many times, in a
graph with cycles, loops and repeated edges. Two things are said of it here.

**It ends** (`Search.exists_walk`). `Search.Walk` tells the search turn by turn, with no bound on the
number of turns: there is one only for a search that empties its stack. The stack may grow with a turn,
but then there is one unseen vertex less, and that is what the rounds of the search are counted by.

**It is exact** (`Program.mem_reachable_iff`). No edge leads out of the blocks (`Program.next_lt`), so
the bound that the search is given cuts nothing off, and it finds the reflexive and transitive closure
of the successor relation. The finding of dead code is what that closure leaves out.
-/

namespace TealAudit

/-! ## Walks -/

namespace Search

variable {step : Nat → List Nat} {unseen stack rest found : List Nat} {v : Nat}

/-- **A walk that ends**, turn by turn. Each turn takes the top off the stack. A vertex that has been
seen already is passed over; of any other one the successors are put on the stack, whether they have
been seen or not. The walk is over when the stack is empty. -/
inductive Walk (step : Nat → List Nat) : (unseen stack found : List Nat) → Prop
  | ended {unseen : List Nat} : Walk step unseen [] []
  | pass {unseen rest found : List Nat} {v : Nat} : v ∉ unseen → Walk step unseen rest found →
      Walk step unseen (v :: rest) found
  | see {unseen rest found : List Nat} {v : Nat} : v ∈ unseen →
      Walk step (unseen.erase v) (step v ++ rest) found → Walk step unseen (v :: rest) (v :: found)

theorem Walk.of_dropWhile
    (h : Walk step unseen (stack.dropWhile fun v => !unseen.contains v) found) :
    Walk step unseen stack found := by
  induction stack with
  | nil => exact h
  | cons v stack ih =>
    rw [List.dropWhile_cons] at h
    split at h
    · next seen => exact .pass (by simpa using seen) (ih h)
    · exact h

/-- **A search is a walk to its end**: it has as many rounds as there are unseen vertices, and that is
enough to empty the stack. -/
theorem walk_visit : ∀ {fuel : Nat} {unseen stack : List Nat}, unseen.length ≤ fuel →
    Walk step unseen stack (visit step fuel unseen stack) := by
  intro fuel
  induction fuel with
  | zero =>
    intro unseen stack enough
    have none : unseen = [] := List.eq_nil_of_length_eq_zero (Nat.le_zero.mp enough)
    subst none
    induction stack with
    | nil => exact .ended
    | cons v stack ih => exact .pass List.not_mem_nil ih
  | succ fuel ih =>
    intro unseen stack enough
    refine .of_dropWhile ?_
    rw [visit]
    cases top : stack.dropWhile fun v => !unseen.contains v with
    | nil => exact .ended
    | cons w rest =>
      have mem := mem_unseen_of_top top
      have fewer : (unseen.erase w).length ≤ fuel := by
        rw [List.length_erase_of_mem mem]
        omega
      exact .see mem (ih fewer)

/-- A walk finds each vertex once. -/
theorem Walk.nodup (h : Walk step unseen stack found) (once : unseen.Nodup) :
    found.Nodup ∧ ∀ v ∈ found, v ∈ unseen := by
  induction h with
  | ended => exact ⟨.nil, nofun⟩
  | pass _ _ ih => exact ih once
  | see mem _ ih =>
    obtain ⟨distinct, sub⟩ := ih (once.erase _)
    refine ⟨List.nodup_cons.mpr ⟨fun again => ?_, distinct⟩, ?_⟩
    · exact absurd (sub _ again) once.not_mem_erase
    · exact List.forall_mem_cons.mpr ⟨mem, fun u later => List.mem_of_mem_erase (sub u later)⟩

/-- **The closure is what a walk to its end finds.** -/
theorem exists_walk (step : Nat → List Nat) (bound : Nat) (start : List Nat) :
    ∃ found, Walk step (List.range bound) start found ∧ found.Perm (closure step bound start) := by
  have walk : Walk step (List.range bound) start (visit step bound (List.range bound) start) :=
    walk_visit (by simp)
  obtain ⟨distinct, sub⟩ := walk.nodup List.nodup_range
  refine ⟨_, walk, (List.perm_ext_iff_of_nodup distinct (nodup_closure step bound start)).mpr ?_⟩
  intro v
  simp only [closure, List.mem_filter, List.contains_iff_mem]
  exact ⟨fun mem => ⟨sub v mem, mem⟩, And.right⟩

/-- Where no step leaves the bound, what is reached is the closure of the step relation. -/
theorem reaches_iff {bound start : Nat} (inside : ∀ u, ∀ v ∈ step u, v < bound) :
    Reaches step bound [start] v ↔
      start < bound ∧ Relation.ReflTransGen (fun u v => v ∈ step u) start v := by
  constructor
  · intro h
    induction h with
    | start mem lt =>
      cases List.mem_singleton.mp mem
      exact ⟨lt, .refl⟩
    | step _ edge _ ih => exact ⟨ih.1, ih.2.tail edge⟩
  · rintro ⟨lt, path⟩
    induction path with
    | refl => exact .start (List.mem_singleton_self _) lt
    | tail _ edge ih => exact .step ih edge (inside _ _ edge)

end Search

/-! ## Edges lead to blocks -/

theorem Block.index_of_at? {blocks : List Block} {n k : Nat} (found : at? blocks n = some k) :
    k ∈ blocks.map Block.index := by
  obtain ⟨b, first, rfl⟩ := Option.map_eq_some_iff.mp found
  exact List.mem_map_of_mem (List.mem_of_find?_eq_some first)

namespace Listing

variable {l : Listing} {blocks todo : List Block} {direct : List Edge} {e : Edge}

theorem target_of_directEdges (h : l.directEdges blocks todo = .ok direct) (mem : e ∈ direct) :
    e.target ∈ blocks.map Block.index := by
  induction todo generalizing direct with
  | nil =>
    cases h
    cases mem
  | cons b todo ih =>
    obtain ⟨next, edges, own, more, rfl⟩ := directEdges_cons h
    rcases List.mem_append.mp mem with first | later
    · obtain ⟨m, target, rfl⟩ := List.mem_map.mp first
      rw [(successors_eq_ok own).2] at target
      obtain ⟨n, _, found⟩ := List.mem_filterMap.mp target
      exact Block.index_of_at? found
    · exact ih more later

theorem target_of_returns (mem : e ∈ l.returns blocks direct) : e.target ∈ blocks.map Block.index := by
  have leaving : e.target ∈ Edge.leaving (l.returns blocks direct) e.source :=
    List.mem_map.mpr ⟨e, List.mem_filter.mpr ⟨mem, by simp⟩, rfl⟩
  rw [leaving_returns] at leaving
  obtain ⟨label, _, resumes⟩ := List.mem_flatMap.mp leaving
  obtain ⟨site, called, resume⟩ := List.mem_filterMap.mp resumes
  obtain ⟨b, _, ends⟩ := List.mem_filterMap.mp (List.mem_filter.mp called).1
  unfold Block.call? at ends
  split at ends
  · obtain ⟨_, _, rfl⟩ := Option.map_eq_some_iff.mp ends
    exact Block.index_of_at? resume
  · cases ends

end Listing

namespace Program

variable {name source : Text} {l : Listing} {p : Program} {b : Block} {k m : Nat}

theorem mem_next_iff : m ∈ p.next k ↔ ⟨k, m⟩ ∈ p.edges := by
  simp only [next, List.mem_map, List.mem_filter, decide_eq_true_eq]
  constructor
  · rintro ⟨e, ⟨mem, rfl⟩, rfl⟩
    exact mem
  · exact fun mem => ⟨_, ⟨mem, rfl⟩, rfl⟩

/-- Every successor is a block. -/
theorem next_lt (h : ofListing name source l = .ok p) (edge : m ∈ p.next k) :
    m < p.blocks.length := by
  obtain ⟨-, laid, direct, made, edges⟩ := ofListing_eq_ok h
  have index : m ∈ p.blocks.map Block.index := by
    rw [mem_next_iff, edges] at edge
    rcases List.mem_append.mp edge with first | later
    · exact Listing.target_of_directEdges made first
    · exact Listing.target_of_returns later
  rw [laid.map_index] at index
  simpa using List.mem_range'_1.mp index

theorem pairwise_index (h : ofListing name source l = .ok p) :
    (p.blocks.map Block.index).Pairwise (· < ·) := by
  rw [(ofListing_eq_ok h).2.1.map_index]
  exact List.pairwise_lt_range'

/-- **What is reachable** is the closure of the successor relation from the first block on. -/
theorem mem_reachable_iff (h : ofListing name source l = .ok p) : k ∈ p.reachable ↔
    0 < p.blocks.length ∧ Relation.ReflTransGen (fun a b => b ∈ p.next a) 0 k := by
  rw [reachable, Search.mem_closure]
  exact Search.reaches_iff fun _ _ edge => next_lt h edge

end Program

/-- **The finding of dead code**: none, or one with all the blocks that are dead. -/
theorem Detector.DeadCode.detect_eq (p : Program) (file : Text) :
    (deadBlocks p = [] ∧ detect p file = []) ∨
      ∃ f, detect p file = [f] ∧ f.blocks = deadBlocks p ∧ deadBlocks p ≠ [] ∧
        f.message = Text.ofString "Dead code found: " ++ Text.ofNat (deadBlocks p).length ++
          Text.ofString " basic block(s) can never be executed" := by
  unfold detect
  cases dead : deadBlocks p with
  | nil => exact .inl ⟨rfl, rfl⟩
  | cons b rest => exact .inr ⟨_, rfl, rfl, List.cons_ne_nil _ _, rfl⟩

namespace Program

/-- **Reachability and the finding of dead code are exact.**

* The search for reachable blocks is a walk that comes to its end. What it finds, each block once, are
  the reachable blocks: those that the successor relation leads to from the first block in any number
  of steps. There are none in a program without blocks.
* There is no finding of dead code exactly when every block is reachable. Otherwise there is one; its
  blocks are those that are not reachable, each once, in ascending order, and its message tells how
  many they are. -/
theorem reachable_exact {name source : Text} {l : Listing} {p : Program}
    (h : ofListing name source l = .ok p) :
    (∃ found, Search.Walk p.next (List.range p.blocks.length) [0] found ∧
      found.Perm p.reachable ∧ found.Nodup) ∧
    (p.blocks = [] → p.reachable = []) ∧
    (p.blocks ≠ [] → ∀ k, k ∈ p.reachable ↔
      Relation.ReflTransGen (fun a b => b ∈ p.next a) 0 k) ∧
    (∀ k ∈ p.reachable, ∃ b, p.blocks[k]? = some b ∧ b.index = k) ∧
    ∀ file,
      (Detector.DeadCode.detect p file = [] ↔ ∀ b ∈ p.blocks, b.index ∈ p.reachable) ∧
      ((∃ b ∈ p.blocks, b.index ∉ p.reachable) →
        ∃ f, Detector.DeadCode.detect p file = [f] ∧
        (∀ b, b ∈ f.blocks ↔ b ∈ p.blocks ∧ b.index ∉ p.reachable) ∧
        (f.blocks.map Block.index).Pairwise (· < ·) ∧
        f.message = Text.ofString "Dead code found: " ++ Text.ofNat f.blocks.length ++
          Text.ofString " basic block(s) can never be executed") := by
  have dead : ∀ b, b ∈ Detector.DeadCode.deadBlocks p ↔ b ∈ p.blocks ∧ b.index ∉ p.reachable := by
    intro b
    simp [Detector.DeadCode.deadBlocks]
  refine ⟨?_, fun none => ?_, fun some k => ?_, fun k reached => ?_, fun file => ?_⟩
  · obtain ⟨found, walk, same⟩ := Search.exists_walk p.next p.blocks.length [0]
    exact ⟨found, walk, same, (walk.nodup List.nodup_range).1⟩
  · rw [reachable, none]
    rfl
  · rw [mem_reachable_iff h, and_iff_right (List.length_pos_iff.mpr some)]
  · have found := List.getElem?_eq_getElem (Search.mem_closure.mp reached).lt
    have index := (ofListing_eq_ok h).2.1.index_of_getElem? found
    exact ⟨_, found, by rw [index, Nat.zero_add]⟩
  · rcases Detector.DeadCode.detect_eq p file with ⟨alive, silent⟩ | ⟨f, told, blocks, some, message⟩
    · have every : ∀ b ∈ p.blocks, b.index ∈ p.reachable := by
        intro b mem
        by_contra unreached
        have here := (dead b).mpr ⟨mem, unreached⟩
        rw [alive] at here
        cases here
      refine ⟨⟨fun _ => every, fun _ => silent⟩, ?_⟩
      rintro ⟨b, mem, unreached⟩
      exact absurd (every b mem) unreached
    · rw [told]
      refine ⟨⟨nofun, fun every => ?_⟩, fun _ => ⟨f, rfl, ?_, ?_, ?_⟩⟩
      · obtain ⟨b, here⟩ := List.exists_mem_of_ne_nil _ some
        obtain ⟨mem, unreached⟩ := (dead b).mp here
        exact absurd (every b mem) unreached
      · rw [blocks]
        exact dead
      · rw [blocks]
        exact (pairwise_index h).sublist (List.filter_sublist.map _)
      · rw [blocks]
        exact message

/-- A block that goes on to itself twice, one that goes back to it, and two that are dead. -/
theorem reachable_exact_loop : ∃ p found f,
    ofSource [] (Text.ofString "x: switch x x\nb x\nerr\nerr") = .ok p ∧ p.next 0 = [1, 0, 0] ∧
      Search.Walk p.next (List.range 4) [0] found ∧ found.Perm [0, 1] ∧
      (∀ k, Relation.ReflTransGen (fun a b => b ∈ p.next a) 0 k ↔ k = 0 ∨ k = 1) ∧
      Detector.DeadCode.detect p [] = [f] ∧ f.blocks.map Block.index = [2, 3] ∧
      f.message = Text.ofString "Dead code found: 2 basic block(s) can never be executed" := by
  obtain ⟨p, built, checked⟩ := exists_of_any
    (q := fun p => p.next 0 = [1, 0, 0] && p.reachable = [0, 1] &&
      p.blocks.map Block.index = [0, 1, 2, 3] &&
      (Detector.DeadCode.detect p []).map (·.blocks.map Block.index) = [[2, 3]])
    (r := ofSource [] (Text.ofString "x: switch x x\nb x\nerr\nerr")) (by decide +kernel)
  simp only [Bool.and_eq_true, decide_eq_true_eq] at checked
  obtain ⟨⟨⟨next, reached⟩, indices⟩, dead⟩ := checked
  have four : p.blocks.length = 4 := by simpa using congrArg List.length indices
  obtain ⟨⟨found, walk, same, -⟩, -, closed, -, reported⟩ := reachable_exact (parse_of_source built).2
  have some : p.blocks ≠ [] := List.length_pos_iff.mp (by omega)
  have unreached : ∃ b ∈ p.blocks, b.index ∉ p.reachable := by
    have two : 2 ∈ p.blocks.map Block.index := by simp [indices]
    obtain ⟨b, mem, index⟩ := List.mem_map.mp two
    exact ⟨b, mem, by simp [index, reached]⟩
  obtain ⟨f, told, -, -, message⟩ := (reported []).2 unreached
  rw [told] at dead
  have blocks : f.blocks.map Block.index = [2, 3] := by simpa using dead
  have count : f.blocks.length = 2 := by simpa using congrArg List.length blocks
  refine ⟨p, found, f, built, next, four ▸ walk, reached ▸ same, fun k => ?_, told, blocks, ?_⟩
  · rw [← closed some k, reached]
    simp
  · rw [message, count]
    decide

end Program

end TealAudit
