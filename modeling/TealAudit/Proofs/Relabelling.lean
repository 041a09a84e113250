import Mathlib.Data.List.Forall2
import TealAudit.Proofs.Successors

/-!
# Labels count by where they point

Two listings are **congruent** when they have instructions of the same flows, labels at the same
positions, and targets that resolve, operand by operand, to the same position. How a label is called
is no part of it, nor which one is taken where several point at one position: to rename the labels,
or to call a subroutine under another of its labels, leads to a congruent listing.

**The law** (`Program.ofListing_congruent`): congruent listings have the same flow graph, up to the
order in which the successors of a return are listed. That order does depend on the names, because
return edges are made label by label. What does not depend on them is which calls a return belongs
to: those of the subroutines that have it in their bodies, under whatever labels they are called
(`Listing.leaving_returns_perm`). To take the calls label by label only puts them in another order
(`perm_groups`).
-/

namespace TealAudit

namespace Listing

/-- **Labels of two listings that meet**: both are defined, and they point at the same position or
both behind the last instruction. -/
def Meet (l l' : Listing) (label label' : Text) : Prop :=
  ∃ n ∈ l.position? label, ∃ n' ∈ l'.position? label',
    n = n' ∨ l.instructions.length ≤ n ∧ l'.instructions.length ≤ n'

/-- Instructions of two listings with one flow whose targets meet, operand by operand. -/
def Twins (l l' : Listing) (i i' : Instruction) : Prop :=
  i.flow = i'.flow ∧ List.Forall₂ (l.Meet l') i.targets i'.targets

/-- **Congruent listings.** -/
structure Congruent (l l' : Listing) : Prop where
  instructions : List.Forall₂ (l.Twins l') l.instructions l'.instructions
  labelled : ∀ n < l.instructions.length, l.isLabelled n = l'.isLabelled n

/-- The listing under other names for its labels. -/
def rename (f : Text → Text) (l : Listing) : Listing :=
  { l with
    instructions := l.instructions.map fun i =>
      if i.flow.namesLabels then { i with operands := i.operands.map f } else i
    labels := l.labels.map fun entry => (f entry.1, entry.2) }

theorem position?_rename {l : Listing} {f : Text → Text} {label : Text}
    (apart : ∀ entry ∈ l.labels, f entry.1 = f label → entry.1 = label) :
    (l.rename f).position? (f label) = l.position? label := by
  unfold position? rename
  generalize l.labels = labels at apart
  induction labels with
  | nil => rfl
  | cons entry labels ih =>
    obtain ⟨first, apart⟩ := List.forall_mem_cons.mp apart
    have same : f entry.1 = f label ↔ entry.1 = label := ⟨first, congrArg f⟩
    simp only [List.map_cons, List.find?_cons, same]
    split
    · rfl
    · exact ih apart

/-- **To rename labels leads to a congruent listing**, as long as the new names tell apart what the
old ones do. -/
theorem congruent_rename {l : Listing} {f : Text → Text}
    (defined : ∀ i ∈ l.instructions, ∀ label ∈ i.targets, ∃ n, l.position? label = some n)
    (apart : ∀ i ∈ l.instructions, ∀ label ∈ i.targets, ∀ entry ∈ l.labels,
      f entry.1 = f label → entry.1 = label) : l.Congruent (l.rename f) := by
  constructor
  · show List.Forall₂ _ l.instructions (l.instructions.map _)
    rw [List.forall₂_map_right_iff, List.forall₂_same]
    intro i mem
    have targets (i' : Instruction) (flow : i.flow = i'.flow) (named : i'.targets = i.targets.map f) :
        l.Twins (l.rename f) i i' := by
      refine ⟨flow, ?_⟩
      rw [named, List.forall₂_map_right_iff, List.forall₂_same]
      intro label target
      obtain ⟨n, found⟩ := defined i mem label target
      exact ⟨n, found, n, (position?_rename (apart i mem label target)).trans found, .inl rfl⟩
    split
    · next names => exact targets _ rfl (by simp [Instruction.targets, names])
    · next other => exact targets _ rfl (by simp [Instruction.targets, other])
  · intro n _
    simp [isLabelled, rename, Function.comp_def]

end Listing

/-! ## Blocks -/

namespace Block

/-- Blocks at the same place, with instructions that correspond. -/
structure Matches (twins : Instruction → Instruction → Prop) (b b' : Block) : Prop where
  index : b.index = b'.index
  start : b.start = b'.start
  instructions : List.Forall₂ twins b.instructions b'.instructions

variable {twins : Instruction → Instruction → Prop} {blocks blocks' : List Block}

theorem Matches.stop {b b' : Block} (h : b.Matches twins b') : b.stop = b'.stop := by
  rw [← b.length_instructions, ← b'.length_instructions, h.start, h.instructions.length_eq]

theorem Matches.exit {b b' : Block} (h : b.Matches twins b') : twins b.exit b'.exit := by
  have last : ∀ {is is' : List Instruction}, List.Forall₂ twins is is' →
      ∀ (some : is ≠ []) (some' : is' ≠ []), twins (is.getLast some) (is'.getLast some') := by
    intro is is' all
    induction all with
    | nil => exact fun some => absurd rfl some
    | cons head tail ih =>
      intro some some'
      cases tail with
      | nil => exact head
      | cons next more => simpa using ih (by simp) (by simp)
  exact last h.instructions _ _

/-- Instructions that correspond are cut into runs that do. -/
theorem forall₂_runs {labelled labelled' : Nat → Bool} (flow : ∀ i i', twins i i' → i.flow = i'.flow)
    {is is' : List Instruction} (all : List.Forall₂ twins is is') :
    ∀ n, (∀ m, n < m → m < n + is.length → labelled m = labelled' m) →
      List.Forall₂ (fun r r' => List.Forall₂ twins (r.1 :: r.2) (r'.1 :: r'.2))
        (Instruction.runs labelled n is) (Instruction.runs labelled' n is') := by
  induction all with
  | nil => exact fun _ _ => .nil
  | @cons i i' rest rest' head tail ih =>
    intro n same
    have later := ih (n + 1) fun m above below => same m (by omega) (by simp only [List.length_cons]; omega)
    unfold Instruction.runs
    cases tail with
    | nil => exact .cons (.cons head .nil) .nil
    | cons next more =>
      have cut : labelled (n + 1) = labelled' (n + 1) := same (n + 1) (by omega) (by simp)
      generalize Instruction.runs labelled (n + 1) _ = runs at later ⊢
      generalize Instruction.runs labelled' (n + 1) _ = runs' at later ⊢
      cases later with
      | nil => exact .cons (.cons head .nil) .nil
      | cons run others =>
        simp only [flow i i' head, cut]
        split
        · exact .cons (.cons head .nil) (.cons run others)
        · exact .cons (.cons head run) others

theorem forall₂_place {runs runs' : List (Instruction × List Instruction)}
    (all : List.Forall₂ (fun r r' => List.Forall₂ twins (r.1 :: r.2) (r'.1 :: r'.2)) runs runs') :
    ∀ index start, List.Forall₂ (Matches twins) (place index start runs) (place index start runs') := by
  induction all with
  | nil => exact fun _ _ => .nil
  | @cons run run' _ _ head _ ih =>
    intro index start
    have length : run.2.length = run'.2.length := by simpa using head.length_eq
    unfold place
    rw [length]
    exact .cons ⟨rfl, rfl, head⟩ (ih _ _)

theorem at?_eq (all : List.Forall₂ (Matches twins) blocks blocks') (n : Nat) :
    at? blocks n = at? blocks' n := by
  unfold at?
  induction all with
  | nil => rfl
  | @cons b b' _ _ head _ ih =>
    simp only [List.find?_cons, head.start]
    split
    · simp [head.index]
    · exact ih

theorem getElem?_rel (all : List.Forall₂ (Matches twins) blocks blocks') (k : Nat) :
    Option.Rel (Matches twins) blocks[k]? blocks'[k]? := by
  induction all generalizing k with
  | nil => exact .none
  | cons head _ ih =>
    cases k with
    | zero => exact .some head
    | succ k => simpa using ih k

end Block

namespace Listing

variable {l l' : Listing}

theorem Congruent.blocks (h : l.Congruent l') :
    List.Forall₂ (Block.Matches (l.Twins l')) l.blocks l'.blocks := by
  apply Block.forall₂_place
  apply Block.forall₂_runs (fun _ _ twins => twins.1) h.instructions
  intro m _ below
  exact h.labelled m (by omega)

/-- No block starts behind the last instruction. -/
theorem at?_blocks_of_le {n : Nat} (past : l.instructions.length ≤ n) :
    Block.at? l.blocks n = none := by
  have laid : Block.Laid l.isLabelled 0 0 l.instructions l.blocks := Block.laid_place _ _ 0 0
  unfold Block.at?
  rw [Option.map_eq_none_iff, List.find?_eq_none]
  intro b mem
  obtain ⟨before, after, split, at_start⟩ := laid.split mem
  have stop := b.start_lt_stop
  have length := b.length_instructions
  rw [split] at past
  simp only [List.length_append] at past
  simp only [decide_eq_true_eq]
  omega

/-- Labels that meet lead to the same block. -/
theorem Meet.at?_eq (h : l.Congruent l') {label label' : Text} (meet : l.Meet l' label label') :
    (l.position? label).bind (Block.at? l.blocks) = (l'.position? label').bind (Block.at? l'.blocks) := by
  obtain ⟨n, found, n', found', same | ⟨past, past'⟩⟩ := meet
  · rw [found, found', same]
    exact Block.at?_eq h.blocks n'
  · rw [found, found']
    exact (at?_blocks_of_le past).trans (at?_blocks_of_le past').symm

/-! ## Direct edges -/

theorem Congruent.resolve (h : l.Congruent l') {labels labels' : List Text}
    (meet : List.Forall₂ (l.Meet l') labels labels') :
    ∃ ns ns', l.resolve labels = .ok ns ∧ l'.resolve labels' = .ok ns' ∧
      ns.filterMap (Block.at? l.blocks) = ns'.filterMap (Block.at? l'.blocks) := by
  induction meet with
  | nil => exact ⟨[], [], rfl, rfl, rfl⟩
  | cons head _ ih =>
    obtain ⟨ns, ns', resolved, resolved', same⟩ := ih
    have first := head.at?_eq h
    obtain ⟨n, found, n', found', _⟩ := head
    rw [found, found'] at first
    refine ⟨n :: ns, n' :: ns', ?_, ?_, ?_⟩
    · simp only [Listing.resolve, Option.mem_def.mp found, resolved]
      rfl
    · simp only [Listing.resolve, Option.mem_def.mp found', resolved']
      rfl
    · simp only [Option.bind_some] at first
      simp only [List.filterMap_cons, first, same]

theorem Congruent.successors (h : l.Congruent l') {b b' : Block} (like : b.Matches (l.Twins l') b') :
    ∃ next, l.successors l.blocks b = .ok next ∧ l'.successors l'.blocks b' = .ok next := by
  obtain ⟨flow, meet⟩ := like.exit
  obtain ⟨ns, ns', resolved, resolved', same⟩ := h.resolve meet
  have behind : b.following? l.blocks = b'.following? l'.blocks := by
    unfold Block.following?
    rw [like.stop]
    exact Block.at?_eq h.blocks _
  unfold Listing.successors
  rw [resolved, resolved', flow, behind]
  exact ⟨_, rfl, congrArg (fun more => Except.ok (_ ++ more)) same.symm⟩

/-- **Congruent listings have the same direct edges.** -/
theorem Congruent.directEdges (h : l.Congruent l') {todo todo' : List Block}
    (all : List.Forall₂ (Block.Matches (l.Twins l')) todo todo') :
    ∃ direct, l.directEdges l.blocks todo = .ok direct ∧ l'.directEdges l'.blocks todo' = .ok direct := by
  induction all with
  | nil => exact ⟨[], rfl, rfl⟩
  | @cons b _ _ _ head _ ih =>
    obtain ⟨next, own, own'⟩ := h.successors head
    obtain ⟨direct, more, more'⟩ := ih
    refine ⟨next.map (Edge.mk b.index) ++ direct, ?_, ?_⟩
    · simp only [Listing.directEdges, own, more]
      rfl
    · simp only [Listing.directEdges, own', more', head.index]
      rfl

/-! ## Return edges -/

theorem Congruent.leaves (h : l.Congruent l') (k : Nat) :
    Block.leaves l.blocks k = Block.leaves l'.blocks k := by
  have same := Block.getElem?_rel h.blocks k
  unfold Block.leaves
  generalize l.blocks[k]? = at_k, l'.blocks[k]? = at_k' at same ⊢
  cases same with
  | none => rfl
  | some like => simp [like.exit.1]

theorem Congruent.withinBody (h : l.Congruent l') (direct : List Edge) :
    Block.withinBody l.blocks direct = Block.withinBody l'.blocks direct := by
  funext k
  have same := Block.getElem?_rel h.blocks k
  unfold Block.withinBody Block.following?
  generalize l.blocks[k]? = at_k, l'.blocks[k]? = at_k' at same ⊢
  cases same with
  | none => rfl
  | some like => simp only [like.exit.1, like.stop, Block.at?_eq h.blocks]

theorem Congruent.returnsOf (h : l.Congruent l') (direct : List Edge) (entry : Nat) :
    Block.returnsOf l.blocks direct entry = Block.returnsOf l'.blocks direct entry := by
  unfold Block.returnsOf
  rw [h.withinBody, h.blocks.length_eq]
  exact List.filter_congr fun k _ => h.leaves k

/-- The calls go to the same subroutines and come back to the same places. -/
theorem Congruent.calls (h : l.Congruent l') :
    List.Forall₂ (fun site site' => site.callee = site'.callee ∧ site.resume = site'.resume)
      (l.calls l.blocks) (l'.calls l'.blocks) := by
  refine List.rel_filterMap (fun b b' like => ?_) h.blocks
  obtain ⟨flow, meet⟩ := like.exit
  unfold Block.call?
  rw [flow]
  split
  · next call =>
    rw [Instruction.targets, Instruction.targets, flow, call] at meet
    simp only [Flow.namesLabels, if_true] at meet
    generalize b.exit.operands = operands at meet
    generalize b'.exit.operands = operands' at meet
    cases meet with
    | nil => exact .none
    | cons first _ =>
      refine .some ⟨first.at?_eq h, ?_⟩
      simp only [Block.following?, like.stop]
      exact Block.at?_eq h.blocks _
  · exact .none

end Listing

theorem nodup_eraseDups {κ : Type} [BEq κ] [LawfulBEq κ] : ∀ keys : List κ, keys.eraseDups.Nodup
  | [] => List.nodup_nil
  | key :: keys => by
    rw [List.eraseDups_cons, List.nodup_cons]
    exact ⟨by simp [List.mem_eraseDups], nodup_eraseDups _⟩
termination_by keys => keys.length
decreasing_by
  have := List.length_filter_le (fun b => !b == key) keys
  simp only [List.length_cons]
  omega

/-- **Things taken key by key** are the same things in another order. -/
theorem perm_groups {α κ : Type} [DecidableEq κ] (key : α → κ) (xs : List α) {keys : List κ}
    (once : keys.Nodup) :
    (keys.flatMap fun k => xs.filter fun x => key x = k).Perm (xs.filter fun x => key x ∈ keys) := by
  induction keys with
  | nil => simp
  | cons k keys ih =>
    obtain ⟨new, once⟩ := List.nodup_cons.mp once
    have own : (xs.filter fun x => key x ∈ k :: keys).filter (fun x => key x = k) =
        xs.filter fun x => key x = k := by
      rw [List.filter_filter]
      exact List.filter_congr fun x _ => by simp +contextual
    have others : (xs.filter fun x => key x ∈ k :: keys).filter (fun x => !decide (key x = k)) =
        xs.filter fun x => key x ∈ keys := by
      rw [List.filter_filter]
      refine List.filter_congr fun x _ => ?_
      by_cases same : key x = k
      · simp [same, new]
      · simp [same]
    have parts := List.filter_append_perm (fun x => decide (key x = k))
      (xs.filter fun x => key x ∈ k :: keys)
    rw [own, others] at parts
    rw [List.flatMap_cons]
    exact ((ih once).append_left _).trans parts

namespace Listing

/-- **The successors of a return, whatever the labels**: what stands behind the calls of the
subroutines that have it in their bodies. -/
theorem leaving_returns_perm (l : Listing) (blocks : List Block) (direct : List Edge) (k : Nat) :
    (Edge.leaving (l.returns blocks direct) k).Perm
      (((l.calls blocks).filter fun site => site.callee.any fun entry =>
        k ∈ Block.returnsOf blocks direct entry).filterMap (·.resume)) := by
  rw [leaving_returns, ← List.filterMap_flatMap]
  refine ((perm_groups (fun site : CallSite => site.label) (l.calls blocks)
    ((nodup_eraseDups _).filter _)).trans (.of_eq ?_)).filterMap _
  refine List.filter_congr fun site call => ?_
  obtain ⟨b, _, ends⟩ := List.mem_filterMap.mp call
  have named : site.label ∈ ((l.calls blocks).map (·.label)).eraseDups :=
    List.mem_eraseDups.mpr (List.mem_map_of_mem call)
  simp [named, Block.callee_eq_of_call? ends]

theorem Congruent.returns {l l' : Listing} (h : l.Congruent l') (direct : List Edge) (k : Nat) :
    (Edge.leaving (l.returns l.blocks direct) k).Perm
      (Edge.leaving (l'.returns l'.blocks direct) k) := by
  refine (l.leaving_returns_perm _ _ k).trans (.trans (.of_eq ?_) (l'.leaving_returns_perm _ _ k).symm)
  simp only [← h.returnsOf direct]
  have same := h.calls
  generalize l.calls l.blocks = calls, l'.calls l'.blocks = calls' at same ⊢
  induction same with
  | nil => rfl
  | cons same _ ih =>
    simp only [List.filter_cons, same.1]
    split
    · simp only [List.filterMap_cons, same.2, ih]
    · exact ih

end Listing

/-! ## Programs -/

namespace Program

/-- Complexity counts the successors of reachable blocks, in whatever order they are listed. -/
theorem complexity_eq_of_perm {p p' : Program} (reachable : p.reachable = p'.reachable)
    (alike : ∀ k, (p.next k).Perm (p'.next k)) : p.complexity = p'.complexity := by
  have edges : (p.reachable.flatMap p.next).length = (p.reachable.flatMap p'.next).length := by
    rw [List.length_flatMap, List.length_flatMap]
    exact congrArg List.sum (List.map_congr_left fun k _ => (alike k).length_eq)
  unfold complexity
  rw [← reachable]
  generalize p.reachable = found at edges ⊢
  cases found with
  | nil => rfl
  | cons k more => simp only [edges]

/-- **Labels count by where they point.** Two listings with instructions of the same flows in order,
labels at the same positions, and targets that are defined and resolve to the same positions both
have a flow graph. The two graphs have the same blocks, by number and extent, and the same list of
successors for every block that does not end in a return. For every block, the lists of successors
have the same members the same number of times. So the same blocks are reachable, and the complexity
is the same. -/
theorem ofListing_congruent {l l' : Listing} (same : l.Congruent l')
    (name source name' source' : Text) :
    ∃ p p', ofListing name source l = .ok p ∧ ofListing name' source' l' = .ok p' ∧
      p.blocks.map (fun b => (b.index, b.start, b.stop)) =
        p'.blocks.map (fun b => (b.index, b.start, b.stop)) ∧
      (∀ (k : Nat) (b : Block), p.blocks[k]? = some b → b.exit.flow ≠ .leave → p.next k = p'.next k) ∧
      (∀ k, (p.next k).Perm (p'.next k)) ∧
      p.reachable = p'.reachable ∧ p.complexity = p'.complexity := by
  obtain ⟨direct, made, made'⟩ := same.directEdges same.blocks
  let p : Program := ⟨name, source, l, l.blocks, direct ++ l.returns l.blocks direct⟩
  let p' : Program := ⟨name', source', l', l'.blocks, direct ++ l'.returns l'.blocks direct⟩
  have next (k : Nat) : p.next k = Edge.leaving direct k ++ Edge.leaving (l.returns l.blocks direct) k :=
    Edge.leaving_append _ _ k
  have next' (k : Nat) :
      p'.next k = Edge.leaving direct k ++ Edge.leaving (l'.returns l'.blocks direct) k :=
    Edge.leaving_append _ _ k
  have alike (k : Nat) : (p.next k).Perm (p'.next k) := by
    rw [next, next']
    exact (same.returns direct k).append_left _
  have reachable : p.reachable = p'.reachable := by
    have count : p.blocks.length = p'.blocks.length := same.blocks.length_eq
    unfold Program.reachable
    rw [← count]
    exact Search.closure_congr fun u _ v _ => (alike u).mem_iff
  refine ⟨p, p', ?_, ?_, ?_, ?_, alike, reachable, complexity_eq_of_perm reachable alike⟩
  · simp only [ofListing, made]
    rfl
  · simp only [ofListing, made']
    rfl
  · have places := same.blocks.imp fun b b' like =>
      (show (b.index, b.start, b.stop) = (b'.index, b'.start, b'.stop) by
        rw [like.index, like.start, like.stop])
    rw [← List.forall₂_eq_eq_eq, List.forall₂_map_left_iff, List.forall₂_map_right_iff]
    exact places
  · intro k b found stays
    have leaves : Block.leaves l.blocks k = false := by
      rw [Block.leaves, show l.blocks[k]? = some b from found]
      simpa using stays
    rw [next, next', l.leaving_returns_of_stays direct leaves,
      l'.leaving_returns_of_stays direct (same.leaves k ▸ leaves)]

/-- A subroutine under two labels, called under both or under one of them alone: the calls are taken
in another order, and its return goes on to the same blocks. -/
theorem ofListing_congruent_alias : ∃ l l' p p',
    Listing.parse [] (Text.ofString "callsub f\ncallsub g\ncallsub f\nerr\nf:\ng: retsub") = .ok l ∧
    Listing.parse [] (Text.ofString "callsub x\ncallsub x\ncallsub x\nerr\nx: retsub") = .ok l' ∧
    l.Congruent l' ∧ ofListing [] [] l = .ok p ∧ ofListing [] [] l' = .ok p' ∧
    p.next 4 = [1, 3, 2] ∧ p'.next 4 = [1, 2, 3] ∧ p.complexity = p'.complexity := by
  let call (label : Text) (line : Nat) : Instruction := ⟨"callsub", .call, [label], line⟩
  let ends : List Instruction := [⟨"err", .terminal, [], 4⟩]
  let l : Listing := ⟨[call "f" 1, call "g" 2, call "f" 3] ++ ends ++ [⟨"retsub", .leave, [], 6⟩],
    [("f", 4), ("g", 4)], 0⟩
  let l' : Listing := ⟨[call "x" 1, call "x" 2, call "x" 3] ++ ends ++ [⟨"retsub", .leave, [], 5⟩],
    [("x", 4)], 0⟩
  have congruent : l.Congruent l' := by
    refine ⟨?_, by decide⟩
    have meets (label : Text) (found : l.position? label = some 4) : l.Meet l' label "x" :=
      ⟨4, found, 4, by decide, .inl rfl⟩
    exact .cons ⟨rfl, .cons (meets "f" (by decide)) .nil⟩ (.cons ⟨rfl, .cons (meets "g" (by decide)) .nil⟩
      (.cons ⟨rfl, .cons (meets "f" (by decide)) .nil⟩ (.cons ⟨rfl, .nil⟩ (.cons ⟨rfl, .nil⟩ .nil))))
  obtain ⟨_, parsed, known⟩ := exists_of_any (q := fun m => m = l)
    (r := Listing.parse [] (Text.ofString "callsub f\ncallsub g\ncallsub f\nerr\nf:\ng: retsub"))
    (by decide +kernel)
  obtain ⟨_, parsed', known'⟩ := exists_of_any (q := fun m => m = l')
    (r := Listing.parse [] (Text.ofString "callsub x\ncallsub x\ncallsub x\nerr\nx: retsub"))
    (by decide +kernel)
  rw [of_decide_eq_true known] at parsed
  rw [of_decide_eq_true known'] at parsed'
  obtain ⟨p, p', built, built', _, _, _, _, complexity⟩ := ofListing_congruent congruent [] [] [] []
  have next : (ofListing [] [] l).toOption.any (fun p => p.next 4 = [1, 3, 2]) = true := by decide +kernel
  have next' : (ofListing [] [] l').toOption.any (fun p => p.next 4 = [1, 2, 3]) = true := by
    decide +kernel
  rw [built] at next
  rw [built'] at next'
  exact ⟨l, l', p, p', parsed, parsed', congruent, built, built', of_decide_eq_true next,
    of_decide_eq_true next', complexity⟩

end Program

end TealAudit
