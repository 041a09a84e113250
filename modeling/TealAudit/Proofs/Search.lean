import Mathlib.Data.List.TakeWhile
import TealAudit.Search

/-!
# What a search finds

`Search.closure` keeps a stack and the vertices it has not seen. Here its answer is described without
either: `Search.Reaches` is the least set of vertices below the bound that holds the start and is
closed under the step function, and `mem_closure` says that the search finds exactly that set.

**The invariant.** A search that has some vertices left to see finds what its stack leads to along
vertices that are still unseen (`Leads`). Taking a vertex off the stack and putting its successors on
changes the two descriptions in the same way (`leads_step`), and the number of unseen vertices bounds
the number of rounds, so a search with that much fuel is never cut short (`mem_visit`).
-/

namespace TealAudit.Search

variable {step : Nat → List Nat}

/-- **The vertices below `bound` that `step` leads to from `start`.** -/
inductive Reaches (step : Nat → List Nat) (bound : Nat) (start : List Nat) : Nat → Prop
  | start {v : Nat} : v ∈ start → v < bound → Reaches step bound start v
  | step {u v : Nat} : Reaches step bound start u → v ∈ step u → v < bound →
      Reaches step bound start v

theorem Reaches.lt {bound : Nat} {start : List Nat} {v : Nat} (h : Reaches step bound start v) :
    v < bound := by
  cases h with
  | start _ lt => exact lt
  | step _ _ lt => exact lt

/-- The vertices of `unseen` that a stack leads to through `unseen` only. -/
inductive Leads (step : Nat → List Nat) (unseen stack : List Nat) : Nat → Prop
  | stack {v : Nat} : v ∈ stack → v ∈ unseen → Leads step unseen stack v
  | step {u v : Nat} : Leads step unseen stack u → v ∈ step u → v ∈ unseen →
      Leads step unseen stack v

theorem Leads.mem_unseen {unseen stack : List Nat} {v : Nat} (h : Leads step unseen stack v) :
    v ∈ unseen := by
  cases h with
  | stack _ mem => exact mem
  | step _ _ mem => exact mem

/-- A stack of seen vertices leads nowhere. -/
theorem not_leads {unseen stack : List Nat} (seen : ∀ v ∈ stack, v ∉ unseen) (v : Nat) :
    ¬ Leads step unseen stack v := by
  intro h
  induction h with
  | stack onStack mem => exact seen _ onStack mem
  | step _ _ _ ih => exact ih

/-- The vertex at which a stack's seen part ends is unseen. -/
theorem mem_unseen_of_top {unseen stack rest : List Nat} {w : Nat}
    (top : (stack.dropWhile fun v => !unseen.contains v) = w :: rest) : w ∈ unseen := by
  have head := List.head?_dropWhile_not (fun v => !unseen.contains v) stack
  rw [top] at head
  simpa using head

/-- **One round**: with `w` the first unseen vertex of the stack and `rest` what lies under it, the
stack leads to `w` and to what the successors of `w` and `rest` lead to once `w` is seen. -/
theorem leads_step {unseen stack rest : List Nat} {w : Nat}
    (top : (stack.dropWhile fun v => !unseen.contains v) = w :: rest) (v : Nat) :
    Leads step unseen stack v ↔ v = w ∨ Leads step (unseen.erase w) (step w ++ rest) v := by
  have split := List.takeWhile_append_dropWhile (p := fun v => !unseen.contains v) (l := stack)
  rw [top] at split
  have passed : ∀ u ∈ stack.takeWhile (fun v => !unseen.contains v), u ∉ unseen := by
    intro u hu
    simpa using List.mem_takeWhile_imp hu
  constructor
  · intro h
    induction h with
    | @stack v onStack mem =>
      by_cases eq : v = w
      · exact .inl eq
      · -- The part of the stack above `w` is seen, so an unseen vertex other than `w` is under it.
        have under : v ∈ rest := by
          rw [← split] at onStack
          rcases List.mem_append.mp onStack with before | behind
          · exact absurd mem (passed v before)
          · exact (List.mem_cons.mp behind).resolve_left eq
        exact .inr (.stack (List.mem_append_right _ under) ((List.mem_erase_of_ne eq).mpr mem))
    | @step u v _ edge mem ih =>
      by_cases eq : v = w
      · exact .inl eq
      · have left : v ∈ unseen.erase w := (List.mem_erase_of_ne eq).mpr mem
        rcases ih with rfl | ih
        · exact .inr (.stack (List.mem_append_left _ edge) left)
        · exact .inr (.step ih edge left)
  · have start : Leads step unseen stack w :=
      .stack (by rw [← split]; simp) (mem_unseen_of_top top)
    rintro (rfl | h)
    · exact start
    · induction h with
      | @stack v onStack mem =>
        have mem := List.mem_of_mem_erase mem
        rcases List.mem_append.mp onStack with edge | under
        · exact .step start edge mem
        · exact .stack (by rw [← split]; simp [under]) mem
      | step _ edge mem ih => exact .step ih edge (List.mem_of_mem_erase mem)

/-- **A search with enough fuel finds what its stack leads to.** -/
theorem mem_visit (v : Nat) : ∀ {fuel : Nat} {unseen stack : List Nat}, unseen.length ≤ fuel →
    (v ∈ visit step fuel unseen stack ↔ Leads step unseen stack v) := by
  intro fuel
  induction fuel with
  | zero =>
    intro unseen stack enough
    have none : unseen = [] := List.eq_nil_of_length_eq_zero (Nat.le_zero.mp enough)
    subst none
    simp only [visit, List.not_mem_nil, false_iff]
    exact fun h => List.not_mem_nil h.mem_unseen
  | succ fuel ih =>
    intro unseen stack enough
    rw [visit]
    cases top : stack.dropWhile fun v => !unseen.contains v with
    | nil =>
      have seen : ∀ u ∈ stack, u ∉ unseen := by
        intro u hu
        simpa using List.dropWhile_eq_nil_iff.mp top u hu
      simp only [List.not_mem_nil, false_iff]
      exact not_leads seen v
    | cons w rest =>
      have fewer : (unseen.erase w).length ≤ fuel := by
        rw [List.length_erase_of_mem (mem_unseen_of_top top)]
        omega
      rw [List.mem_cons, ih fewer, leads_step top]

theorem leads_range {bound : Nat} {start : List Nat} {v : Nat} :
    Leads step (List.range bound) start v ↔ Reaches step bound start v := by
  constructor
  · intro h
    induction h with
    | stack onStack mem => exact .start onStack (List.mem_range.mp mem)
    | step _ edge mem ih => exact .step ih edge (List.mem_range.mp mem)
  · intro h
    induction h with
    | start onStack lt => exact .stack onStack (List.mem_range.mpr lt)
    | step _ edge lt ih => exact .step ih edge (List.mem_range.mpr lt)

/-- **The closure holds exactly the vertices that are reached.** -/
theorem mem_closure {bound : Nat} {start : List Nat} {v : Nat} :
    v ∈ closure step bound start ↔ Reaches step bound start v := by
  have found : v ∈ visit step bound (List.range bound) start ↔ Reaches step bound start v :=
    (mem_visit v (by simp)).trans leads_range
  simp only [closure, List.mem_filter, List.contains_iff_mem, found, and_iff_right_iff_imp]
  exact fun h => List.mem_range.mpr h.lt

/-- The closure lists each vertex once. -/
theorem nodup_closure (step : Nat → List Nat) (bound : Nat) (start : List Nat) :
    (closure step bound start).Nodup :=
  List.nodup_range.filter _

/-- A step function that leads wherever another one does reaches what the other one reaches. -/
theorem Reaches.mono {other : Nat → List Nat} {bound : Nat} {start : List Nat}
    (sub : ∀ u < bound, ∀ v < bound, v ∈ step u → v ∈ other u) {v : Nat}
    (h : Reaches step bound start v) : Reaches other bound start v := by
  induction h with
  | start mem lt => exact .start mem lt
  | step reached edge lt ih => exact .step ih (sub _ reached.lt _ lt edge) lt

/-- Step functions that lead to the same vertices have the same closure. -/
theorem closure_congr {other : Nat → List Nat} {bound : Nat} {start : List Nat}
    (same : ∀ u < bound, ∀ v < bound, v ∈ step u ↔ v ∈ other u) :
    closure step bound start = closure other bound start := by
  have alike : ∀ v, v ∈ closure step bound start ↔ v ∈ closure other bound start := by
    intro v
    rw [mem_closure, mem_closure]
    exact ⟨.mono fun u hu v hv => (same u hu v hv).mp, .mono fun u hu v hv => (same u hu v hv).mpr⟩
  unfold closure at alike ⊢
  refine List.filter_congr fun v mem => ?_
  have alike := alike v
  simp only [List.mem_filter, mem, true_and] at alike
  exact Bool.eq_iff_iff.mpr alike

end TealAudit.Search
