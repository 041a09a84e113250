import Mathlib.Data.List.Basic
import TealAudit.Proofs.Partition
import TealAudit.Proofs.Search

/-!
# Where control goes from a block

The successors of a block are described here by positions among the instructions, and not by the
edges that are made for it.

* `Program.onward` lists the positions that control may go on to behind the last instruction of a
  block. For a return these are the positions behind the calls of every label that it *serves*: a
  label whose subroutine has the block in its body.
* `Program.InBody` is the body of a subroutine, the least set of blocks that has its first block, and
  with a block all that control goes on to from it inside the subroutine.
* `Program.Lands` turns positions into blocks: each position is that of the first instruction of a
  block, or it is behind the last instruction and leads nowhere.

Direct edges and return edges are made in two passes over the blocks. The two do not meet at any
block: a return has no direct edges, and nothing else has return edges. So bodies are the same
whether they are searched along the direct edges or along all of them.
-/

namespace TealAudit

/-! ## Calls and bodies -/

namespace Listing

/-- The calls of a listing in order: the label that is called and the position of the call. -/
def callSites (l : Listing) : List (Text × Nat) :=
  l.instructions.zipIdx.flatMap fun e => if e.1.flow = .call then e.1.operands.map (·, e.2) else []

/-- The labels that are called, each of them once, in the order of their first calls. -/
def calledLabels (l : Listing) : List Text := (l.callSites.map (·.1)).eraseDups

/-- The positions behind the calls of a label, in order. -/
def resumes (l : Listing) (label : Text) : List Nat :=
  (l.callSites.filter fun site => site.1 = label).map (·.2 + 1)

theorem mem_callSites {l : Listing} {site : Text × Nat} :
    site ∈ l.callSites ↔ ∃ i, l.instructions[site.2]? = some i ∧ i.flow = .call ∧
      site.1 ∈ i.operands := by
  obtain ⟨label, n⟩ := site
  simp only [callSites, List.mem_flatMap, Prod.exists, List.mem_zipIdx_iff_getElem?]
  constructor
  · rintro ⟨i, m, found, mem⟩
    split at mem
    · next call =>
      obtain ⟨operand, named, same⟩ := List.mem_map.mp mem
      cases same
      exact ⟨i, found, call, named⟩
    · cases mem
  · rintro ⟨i, found, call, named⟩
    refine ⟨i, n, found, ?_⟩
    rw [if_pos call]
    exact List.mem_map_of_mem named

end Listing

namespace Program

variable {p : Program}

/-- **The body of a subroutine**: its first block, the block behind a call in the body, and the
successors of every other block of it that does not end in a return. -/
inductive InBody (p : Program) (entry : Nat) : Nat → Prop
  | entry : entry < p.blocks.length → InBody p entry entry
  | behind {k : Nat} {b : Block} : InBody p entry k → p.blocks[k]? = some b →
      b.exit.flow = .call → k + 1 < p.blocks.length → InBody p entry (k + 1)
  | along {k m : Nat} {b : Block} : InBody p entry k → p.blocks[k]? = some b →
      b.exit.flow ≠ .call → b.exit.flow ≠ .leave → m ∈ p.next k → m < p.blocks.length →
      InBody p entry m

/-- Where control goes on from a block inside the same body. -/
def bodyStep (p : Program) (k : Nat) : List Nat :=
  match p.blocks[k]? with
  | none => []
  | some b =>
    match b.exit.flow with
    | .leave => []
    | .call => [k + 1]
    | _ => p.next k

theorem mem_bodyStep {k m : Nat} {b : Block} (found : p.blocks[k]? = some b) :
    m ∈ p.bodyStep k ↔ (b.exit.flow = .call ∧ m = k + 1) ∨
      (b.exit.flow ≠ .call ∧ b.exit.flow ≠ .leave ∧ m ∈ p.next k) := by
  simp only [bodyStep, found]
  cases flow : b.exit.flow <;> simp

theorem inBody_iff {entry k : Nat} :
    p.InBody entry k ↔ Search.Reaches p.bodyStep p.blocks.length [entry] k := by
  constructor
  · intro h
    induction h with
    | entry lt => exact .start (List.mem_singleton_self _) lt
    | behind _ found call lt ih => exact .step ih ((mem_bodyStep found).mpr (.inl ⟨call, rfl⟩)) lt
    | along _ found other stays edge lt ih =>
      exact .step ih ((mem_bodyStep found).mpr (.inr ⟨other, stays, edge⟩)) lt
  · intro h
    induction h with
    | start mem lt =>
      cases List.mem_singleton.mp mem
      exact .entry lt
    | step reached edge lt ih =>
      have found := List.getElem?_eq_getElem reached.lt
      rcases (mem_bodyStep found).mp edge with ⟨call, rfl⟩ | ⟨other, stays, edge⟩
      · exact .behind ih found call lt
      · exact .along ih found other stays edge lt

instance (p : Program) (entry k : Nat) : Decidable (p.InBody entry k) :=
  decidable_of_iff (k ∈ Search.closure p.bodyStep p.blocks.length [entry])
    (Search.mem_closure.trans inBody_iff.symm)

/-- **A block serves a label**: the label points at a block, and that block's body has this one. -/
def Serves (p : Program) (label : Text) (k : Nat) : Prop :=
  ∃ c ∈ p.blocks, (p.listing.position? label).bind (p.listing.instructions[·]?) = some c.entry ∧
    p.InBody c.index k

instance (p : Program) (label : Text) (k : Nat) : Decidable (p.Serves label k) :=
  inferInstanceAs (Decidable (∃ c ∈ p.blocks, _ ∧ _))

/-- **The positions that control may go on to** from a block whose last instruction stands at
position `e`. -/
def onward (p : Program) (b : Block) (e : Nat) : List Nat :=
  match b.exit.flow with
  | .plain => [e + 1]
  | .conditional | .switch => (e + 1) :: b.exit.operands.filterMap p.listing.position?
  | .branch | .call => b.exit.operands.filterMap p.listing.position?
  | .leave => (p.listing.calledLabels.filter fun label => p.Serves label b.index).flatMap
      p.listing.resumes
  | .terminal => []

/-- **Positions as blocks**: the blocks that start at them, without the positions behind the last
instruction. -/
inductive Lands (p : Program) : (positions indices : List Nat) → Prop
  | nil : Lands p [] []
  | past {n : Nat} {positions indices : List Nat} : p.listing.instructions.length ≤ n →
      Lands p positions indices → Lands p (n :: positions) indices
  | block {n : Nat} {b : Block} {positions indices : List Nat} : b ∈ p.blocks →
      p.listing.instructions[n]? = some b.entry → Lands p positions indices →
      Lands p (n :: positions) (b.index :: indices)

end Program

/-! ## Operands -/

/-- Branches and calls take one operand. -/
theorem Opcode.arity_eq_one : ∀ op ∈ table,
    op.flow = .branch ∨ op.flow = .conditional ∨ op.flow = .call → op.arity = .exactly 1 := by
  decide +kernel

theorem Listing.Sound.length_operands {l : Listing} (sound : l.Sound) {i : Instruction}
    (mem : i ∈ l.instructions)
    (one : i.flow = .branch ∨ i.flow = .conditional ∨ i.flow = .call) : i.operands.length = 1 := by
  obtain ⟨op, known, _, flow, least, most⟩ := sound.operations i mem
  rw [← flow] at one
  rw [Opcode.arity_eq_one op known one] at least most
  exact Nat.le_antisymm (most 1 rfl) least

/-! ## Edges out of a block -/

namespace Edge

/-- The blocks that the edges out of a block lead to, in order. -/
def leaving (edges : List Edge) (k : Nat) : List Nat :=
  (edges.filter fun e => e.source = k).map (·.target)

theorem leaving_append (first later : List Edge) (k : Nat) :
    leaving (first ++ later) k = leaving first k ++ leaving later k := by
  simp [leaving]

theorem leaving_map (targets : List Nat) (s k : Nat) :
    leaving (targets.map (Edge.mk s)) k = if s = k then targets else [] := by
  by_cases here : s = k <;> simp [leaving, List.filter_map, Function.comp_def, here]

theorem leaving_flatMap {α : Type} (f : α → List Edge) (xs : List α) (k : Nat) :
    leaving (xs.flatMap f) k = xs.flatMap fun x => leaving (f x) k := by
  simp [leaving, List.filter_flatMap, List.map_flatMap]

theorem leaving_eq_nil {edges : List Edge} {k : Nat} (h : ∀ e ∈ edges, e.source ≠ k) :
    leaving edges k = [] := by
  simpa [leaving] using h

end Edge

/-! ### Direct edges -/

namespace Listing

variable {l : Listing} {blocks todo : List Block} {direct : List Edge}

theorem resolve_eq_ok {labels : List Text} {positions : List Nat}
    (h : l.resolve labels = .ok positions) :
    (∀ label ∈ labels, ∃ n, l.position? label = some n) ∧
      positions = labels.filterMap l.position? := by
  induction labels generalizing positions with
  | nil =>
    cases h
    exact ⟨fun _ mem => (List.not_mem_nil mem).elim, rfl⟩
  | cons label rest ih =>
    rw [resolve] at h
    cases found : l.position? label with
    | none =>
      rw [found] at h
      cases h
    | some n =>
      rw [found] at h
      cases resolved : l.resolve rest with
      | error e =>
        rw [resolved] at h
        cases h
      | ok ns =>
        rw [resolved] at h
        cases h
        obtain ⟨defined, rfl⟩ := ih resolved
        refine ⟨?_, by rw [List.filterMap_cons_some found]⟩
        exact List.forall_mem_cons.mpr ⟨⟨n, found⟩, defined⟩

/-- **The direct successors of a block**, from the positions they start at. -/
theorem successors_eq_ok {b : Block} {next : List Nat} (h : l.successors blocks b = .ok next) :
    (∀ label ∈ b.exit.targets, ∃ n, l.position? label = some n) ∧
      next = ((if b.exit.flow.fallsThrough then [b.stop] else []) ++
        b.exit.targets.filterMap l.position?).filterMap (Block.at? blocks) := by
  unfold successors at h
  cases resolved : l.resolve b.exit.targets with
  | error e =>
    rw [resolved] at h
    cases h
  | ok positions =>
    rw [resolved] at h
    cases h
    obtain ⟨defined, rfl⟩ := resolve_eq_ok resolved
    refine ⟨defined, ?_⟩
    rw [List.filterMap_append]
    cases b.exit.flow.fallsThrough
    · rfl
    · rw [if_pos rfl, if_pos rfl, Block.following?]
      cases found : Block.at? blocks b.stop <;> simp [found]

/-- The direct edges out of a list of blocks are those out of the first, then those out of the
rest. -/
theorem directEdges_cons {b : Block} (h : l.directEdges blocks (b :: todo) = .ok direct) :
    ∃ next edges, l.successors blocks b = .ok next ∧ l.directEdges blocks todo = .ok edges ∧
      direct = next.map (Edge.mk b.index) ++ edges := by
  rw [directEdges] at h
  cases own : l.successors blocks b with
  | error label =>
    rw [own] at h
    cases h
  | ok next =>
    rw [own] at h
    cases more : l.directEdges blocks todo with
    | error e =>
      rw [more] at h
      cases h
    | ok edges =>
      rw [more] at h
      cases h
      exact ⟨next, edges, rfl, rfl, rfl⟩

/-- A direct edge starts at one of the blocks it is made for. -/
theorem source_mem_of_directEdges (h : l.directEdges blocks todo = .ok direct) :
    ∀ e ∈ direct, e.source ∈ todo.map Block.index := by
  induction todo generalizing direct with
  | nil =>
    cases h
    exact fun _ mem => (List.not_mem_nil mem).elim
  | cons b todo ih =>
    obtain ⟨next, edges, _, more, rfl⟩ := directEdges_cons h
    intro e mem
    rcases List.mem_append.mp mem with first | later
    · obtain ⟨_, _, rfl⟩ := List.mem_map.mp first
      exact List.mem_cons_self
    · exact List.mem_cons_of_mem _ (ih more e later)

/-- **The direct edges out of a block lead to its direct successors.** -/
theorem successors_eq_leaving (h : l.directEdges blocks todo = .ok direct)
    (distinct : (todo.map Block.index).Nodup) {b : Block} (mem : b ∈ todo) :
    l.successors blocks b = .ok (Edge.leaving direct b.index) := by
  induction todo generalizing direct with
  | nil => exact (List.not_mem_nil mem).elim
  | cons c todo ih =>
    obtain ⟨next, edges, own, more, rfl⟩ := directEdges_cons h
    rw [List.map_cons, List.nodup_cons] at distinct
    rw [Edge.leaving_append, Edge.leaving_map]
    rcases List.mem_cons.mp mem with rfl | mem
    · have others : Edge.leaving edges b.index = [] := by
        refine Edge.leaving_eq_nil fun e later same => distinct.1 ?_
        rw [← same]
        exact source_mem_of_directEdges more e later
      rw [if_pos rfl, others, List.append_nil]
      exact own
    · have ne : c.index ≠ b.index := fun same =>
        distinct.1 (same ▸ List.mem_map_of_mem mem)
      rw [if_neg ne, List.nil_append]
      exact ih more distinct.2 mem

end Listing

/-! ### Return edges -/

theorem flatMap_ite {α β : Type} (q : α → Bool) (f : α → List β) (xs : List α) :
    (xs.flatMap fun x => if q x then f x else []) = (xs.filter q).flatMap f := by
  induction xs with
  | nil => rfl
  | cons x xs ih => cases h : q x <;> simp [h, ih]

/-- Of parts that differ by their keys, the one with a given key. -/
theorem flatMap_of_nodup {α β : Type} [DecidableEq α] {keys : List α} (once : keys.Nodup) (k : α)
    (part : List β) :
    (keys.flatMap fun key => if key = k then part else []) = if k ∈ keys then part else [] := by
  induction keys with
  | nil => rfl
  | cons key keys ih =>
    rw [List.nodup_cons] at once
    rw [List.flatMap_cons, ih once.2]
    by_cases here : key = k
    · subst here
      simp [once.1]
    · simp [here, Ne.symm here]

namespace Block

variable {blocks : List Block} {direct : List Edge}

/-- What is called is found by its label. -/
theorem callee_eq_of_call? {l : Listing} {b : Block} {site : CallSite}
    (h : b.call? l blocks = some site) : site.callee = (l.position? site.label).bind (at? blocks) := by
  unfold call? at h
  split at h
  · obtain ⟨label, _, rfl⟩ := Option.map_eq_some_iff.mp h
    rfl
  · cases h

/-- The return edges out of a block: to behind every call, if the block is a return of the
subroutine that is called. -/
theorem leaving_returnEdges {sites : List CallSite} {callee : Option Nat} (called : sites ≠ [])
    (same : ∀ site ∈ sites, site.callee = callee) (k : Nat) :
    Edge.leaving (returnEdges blocks direct sites) k =
      if callee.any fun entry => k ∈ returnsOf blocks direct entry then sites.filterMap (·.resume)
      else [] := by
  cases sites with
  | nil => exact absurd rfl called
  | cons site more =>
    have first := same site List.mem_cons_self
    cases callee with
    | none =>
      simp only [returnEdges, first]
      rfl
    | some entry =>
      have once : (returnsOf blocks direct entry).Nodup := (Search.nodup_closure _ _ _).filter _
      simp only [returnEdges, first, Edge.leaving_flatMap, Edge.leaving_map, flatMap_of_nodup once,
        Option.any_some, decide_eq_true_eq]

end Block

/-- **The return edges out of a block**, label by label. -/
theorem Listing.leaving_returns (l : Listing) (blocks : List Block) (direct : List Edge) (k : Nat) :
    Edge.leaving (l.returns blocks direct) k =
      ((((l.calls blocks).map (·.label)).eraseDups.filter fun label =>
        ((l.position? label).bind (Block.at? blocks)).any fun entry =>
          k ∈ Block.returnsOf blocks direct entry).flatMap fun label =>
        ((l.calls blocks).filter fun site => site.label = label).filterMap (·.resume)) := by
  rw [Listing.returns, Edge.leaving_flatMap, ← flatMap_ite]
  refine List.flatMap_congr fun label mem => Block.leaving_returnEdges ?_ (fun site own => ?_) k
  · obtain ⟨site, call, rfl⟩ := List.mem_map.mp (List.mem_eraseDups.mp mem)
    exact List.ne_nil_of_mem (List.mem_filter.mpr ⟨call, decide_eq_true rfl⟩)
  · obtain ⟨call, named⟩ := List.mem_filter.mp own
    obtain ⟨b, _, ends⟩ := List.mem_filterMap.mp call
    rw [← of_decide_eq_true named]
    exact Block.callee_eq_of_call? ends

/-- A block that does not end in a return has no return edges. -/
theorem Listing.leaving_returns_of_stays (l : Listing) {blocks : List Block} (direct : List Edge) {k : Nat}
    (stays : Block.leaves blocks k = false) : Edge.leaving (l.returns blocks direct) k = [] := by
  have none_left : ∀ entry, k ∉ Block.returnsOf blocks direct entry := by
    intro entry found
    have leaves := (List.mem_filter.mp found).2
    rw [stays] at leaves
    cases leaves
  rw [leaving_returns]
  simp [none_left]

/-! ## Programs -/

/-- Blocks end to end: what is collected from the instructions that pass control on is collected from
the last instructions of the blocks. -/
theorem Block.Laid.flatMap_zipIdx {α : Type} {labelled : Nat → Bool} {index start : Nat}
    {instructions : List Instruction} {blocks : List Block}
    (h : Block.Laid labelled index start instructions blocks) {f : Instruction × Nat → List α}
    (plain : ∀ i n, i.flow = .plain → f (i, n) = []) :
    (instructions.zipIdx start).flatMap f =
      blocks.flatMap fun b => f (b.exit, b.start + b.rest.length) := by
  induction h with
  | nil => rfl
  | @cons index start b rest behind _ starts straight _ _ ih =>
    subst starts
    rw [List.zipIdx_append, b.length_instructions, List.flatMap_append, ih, List.flatMap_cons]
    -- Of a straight block, only the last instruction can give anything.
    have parts : b.instructions = b.instructions.dropLast ++ [b.exit] :=
      (List.dropLast_append_getLast _).symm
    have quiet : (b.instructions.dropLast.zipIdx b.start).flatMap f = [] := by
      rw [List.flatMap_eq_nil_iff]
      rintro ⟨i, n⟩ mem
      exact plain i n (straight.plain i (List.fst_mem_of_mem_zipIdx mem))
    have length : b.instructions.dropLast.length = b.rest.length := by simp [Block.instructions]
    rw [parts, List.zipIdx_append, List.flatMap_append, quiet, length]
    simp

namespace Program

variable {p : Program} {direct : List Edge} {b : Block}

namespace Built

theorem nodup_index (h : p.Built) : (p.blocks.map Block.index).Nodup := by
  rw [h.laid.map_index]
  exact List.nodup_range'

theorem index_lt (h : p.Built) (mem : b ∈ p.blocks) : b.index < p.blocks.length :=
  (List.getElem?_eq_some_iff.mp (h.mem_iff.mp mem)).1

theorem exit_mem (h : p.Built) (mem : b ∈ p.blocks) : b.exit ∈ p.listing.instructions := by
  have at_exit := (h.getElem?_exit_iff mem (e := b.start + b.rest.length)).mpr rfl
  exact List.mem_of_getElem? at_exit

/-- The block that follows a block is the next one. -/
theorem following?_eq_some_iff (h : p.Built) (mem : b ∈ p.blocks) {m : Nat} :
    b.following? p.blocks = some m ↔ m = b.index + 1 ∧ m < p.blocks.length := by
  rw [Block.following?, h.at?_eq_some_iff]
  constructor
  · rintro ⟨c, hc, starts, rfl⟩
    refine ⟨?_, h.index_lt hc⟩
    rcases h.laid.behind mem with ⟨stop, _⟩ | ⟨d, hd, next, at_stop⟩
    · have := h.stop_le hc
      have := c.start_lt_stop
      omega
    · have same : c = d := h.laid.eq_of_overlap hc hd ⟨Nat.le_refl _, c.start_lt_stop⟩
        ⟨by omega, by have := d.start_lt_stop; omega⟩
      rw [same, next]
  · rintro ⟨rfl, lt⟩
    rcases h.laid.behind mem with ⟨_, last⟩ | ⟨d, hd, next, at_stop⟩
    · omega
    · exact ⟨d, hd, at_stop, next⟩

/-- The calls that blocks end in are those of the listing. -/
theorem calls_eq (h : p.Built) :
    p.listing.calls p.blocks = p.listing.callSites.map fun site =>
      ⟨site.1, (p.listing.position? site.1).bind (Block.at? p.blocks),
        Block.at? p.blocks (site.2 + 1)⟩ := by
  rw [Listing.calls, List.filterMap_eq_flatMap_toList, Listing.callSites,
    h.laid.flatMap_zipIdx (fun i n plain => by simp [plain]), List.map_flatMap]
  refine List.flatMap_congr fun b mem => ?_
  by_cases call : b.exit.flow = .call
  · have one := h.sound.length_operands (h.exit_mem mem) (.inr (.inr call))
    obtain ⟨label, operand⟩ := List.length_eq_one_iff.mp one
    simp [Block.call?, call, operand, Block.following?, Block.stop]
  · simp [Block.call?, call]

/-! ### Direct successors -/

theorem successors_eq (h : p.Built) (made : p.listing.directEdges p.blocks p.blocks = .ok direct)
    (mem : b ∈ p.blocks) : p.listing.successors p.blocks b = .ok (Edge.leaving direct b.index) :=
  Listing.successors_eq_leaving made h.nodup_index mem

/-- Every label that the last instruction of a block may send control to is defined. -/
theorem targets_defined (h : p.Built) (mem : b ∈ p.blocks) :
    ∀ label ∈ b.exit.targets, ∃ n, p.listing.position? label = some n := by
  obtain ⟨direct, made, _⟩ := h.wired
  exact (Listing.successors_eq_ok (h.successors_eq made mem)).1

/-- Only a block that ends in a return has return edges. -/
theorem leaving_returns_eq_nil (h : p.Built) (mem : b ∈ p.blocks) (stays : b.exit.flow ≠ .leave)
    (direct : List Edge) : Edge.leaving (p.listing.returns p.blocks direct) b.index = [] := by
  have leaves : Block.leaves p.blocks b.index = false := by
    rw [Block.leaves, h.mem_iff.mp mem, Option.any_some]
    exact decide_eq_false stays
  exact p.listing.leaving_returns_of_stays direct leaves

theorem next_of_stays (h : p.Built) (edges : p.edges = direct ++ p.listing.returns p.blocks direct)
    (mem : b ∈ p.blocks) (stays : b.exit.flow ≠ .leave) :
    p.next b.index = Edge.leaving direct b.index := by
  change Edge.leaving p.edges b.index = _
  rw [edges, Edge.leaving_append, h.leaving_returns_eq_nil mem stays, List.append_nil]

/-! ### Returns -/

/-- Inside a body the direct edges are all edges. -/
theorem mem_withinBody_iff (h : p.Built)
    (edges : p.edges = direct ++ p.listing.returns p.blocks direct) {k m : Nat}
    (lt : k < p.blocks.length) (below : m < p.blocks.length) :
    m ∈ Block.withinBody p.blocks direct k ↔ m ∈ p.bodyStep k := by
  obtain ⟨b, found⟩ : ∃ b, p.blocks[k]? = some b := ⟨_, List.getElem?_eq_getElem lt⟩
  have mem := List.mem_of_getElem? found
  have numbered := h.index_eq found
  subst numbered
  have next := h.next_of_stays edges mem
  rw [mem_bodyStep found]
  simp only [Block.withinBody, found]
  cases flow : b.exit.flow with
  | call => simp [h.following?_eq_some_iff mem, below]
  | leave => simp
  | plain | branch | conditional | switch | terminal =>
    simp [next (by simp [flow]), Edge.leaving]

theorem mem_returnsOf_iff (h : p.Built)
    (edges : p.edges = direct ++ p.listing.returns p.blocks direct) (mem : b ∈ p.blocks)
    (leaves : b.exit.flow = .leave) {entry : Nat} :
    b.index ∈ Block.returnsOf p.blocks direct entry ↔ p.InBody entry b.index := by
  have returns : Block.leaves p.blocks b.index = true := by
    rw [Block.leaves, h.mem_iff.mp mem, Option.any_some]
    exact decide_eq_true leaves
  rw [Block.returnsOf, List.mem_filter, and_iff_left returns, Search.mem_closure, inBody_iff]
  have same := fun k lt m below => h.mem_withinBody_iff edges (k := k) (m := m) lt below
  exact ⟨.mono fun k lt m below => (same k lt m below).mp,
    .mono fun k lt m below => (same k lt m below).mpr⟩

theorem serves_iff (h : p.Built) {label : Text} {k : Nat} :
    p.Serves label k ↔ ∃ entry, (p.listing.position? label).bind (Block.at? p.blocks) = some entry ∧
      p.InBody entry k := by
  simp only [Serves, Option.bind_eq_some_iff, h.at?_eq_some_iff]
  constructor
  · rintro ⟨c, hc, ⟨n, target, found⟩, inside⟩
    exact ⟨c.index, ⟨n, target, c, hc, ((h.getElem?_entry_iff hc).mp found).symm, rfl⟩, inside⟩
  · rintro ⟨_, ⟨n, target, c, hc, starts, rfl⟩, inside⟩
    exact ⟨c, hc, ⟨n, target, (h.getElem?_entry_iff hc).mpr starts.symm⟩, inside⟩

/-- **A return is joined to behind every call of every label it serves.** -/
theorem next_of_leave (h : p.Built) (mem : b ∈ p.blocks) (leaves : b.exit.flow = .leave) :
    p.next b.index = ((p.listing.calledLabels.filter fun label => p.Serves label b.index).flatMap
      p.listing.resumes).filterMap (Block.at? p.blocks) := by
  obtain ⟨direct, made, edges⟩ := h.wired
  have own : Edge.leaving direct b.index = [] := by
    rw [(Listing.successors_eq_ok (h.successors_eq made mem)).2, Instruction.targets, leaves]
    rfl
  have serves : ∀ label, ((p.listing.position? label).bind (Block.at? p.blocks)).any
      (fun entry => b.index ∈ Block.returnsOf p.blocks direct entry) =
        decide (p.Serves label b.index) := by
    intro label
    rw [Bool.eq_iff_iff, decide_eq_true_iff, h.serves_iff, Option.any_eq_true]
    simp only [decide_eq_true_iff, h.mem_returnsOf_iff edges mem leaves]
  change Edge.leaving p.edges b.index = _
  rw [edges, Edge.leaving_append, own, List.nil_append, Listing.leaving_returns, h.calls_eq]
  simp only [serves]
  rw [List.filterMap_flatMap, Listing.calledLabels]
  simp only [Listing.resumes, List.map_map, List.filter_map, List.filterMap_map, Function.comp_def]

/-! ### All successors -/

/-- **The successors of a block are the blocks at the positions that control may go on to.** -/
theorem next_eq (h : p.Built) (mem : b ∈ p.blocks) {e : Nat} (last : e + 1 = b.stop) :
    p.next b.index = (p.onward b e).filterMap (Block.at? p.blocks) := by
  obtain ⟨direct, made, edges⟩ := h.wired
  have own := (Listing.successors_eq_ok (h.successors_eq made mem)).2
  have next := h.next_of_stays edges mem
  unfold onward
  cases flow : b.exit.flow with
  | leave => exact h.next_of_leave mem flow
  | plain | branch | conditional | switch | call | terminal =>
    rw [next (by simp [flow]), own, Instruction.targets, flow, last]
    rfl

/-- Every position that control may go on to is where a block starts, or the end. -/
theorem start_of_onward (h : p.Built) (mem : b ∈ p.blocks) {e : Nat} (last : e + 1 = b.stop) {n : Nat}
    (on : n ∈ p.onward b e) (lt : n < p.listing.instructions.length) :
    ∃ c ∈ p.blocks, c.start = n := by
  have labelled : n ∈ b.exit.operands.filterMap p.listing.position? →
      ∃ c ∈ p.blocks, c.start = n := by
    intro target
    obtain ⟨label, _, found⟩ := List.mem_filterMap.mp target
    exact (h.start_iff lt).mpr (.inr (.inl ⟨label, found⟩))
  have behind : n = e + 1 → ∃ c ∈ p.blocks, c.start = n := by
    rintro rfl
    rcases h.laid.behind mem with ⟨stop, _⟩ | ⟨c, hc, _, starts⟩
    · omega
    · exact ⟨c, hc, starts.trans last.symm⟩
  unfold onward at on
  cases flow : b.exit.flow with
  | plain =>
    rw [flow] at on
    exact behind (List.mem_singleton.mp on)
  | branch | call =>
    rw [flow] at on
    exact labelled on
  | conditional | switch =>
    rw [flow] at on
    exact (List.mem_cons.mp on).elim behind labelled
  | terminal =>
    rw [flow] at on
    exact (List.not_mem_nil on).elim
  | leave =>
    rw [flow] at on
    obtain ⟨label, _, resume⟩ := List.mem_flatMap.mp on
    obtain ⟨site, called, rfl⟩ := List.mem_map.mp resume
    obtain ⟨i, found, call, _⟩ := Listing.mem_callSites.mp (List.mem_filter.mp called).1
    exact (h.start_iff lt).mpr (.inr (.inr ⟨site.2, i, rfl, found, by simp [call]⟩))

theorem lands (h : p.Built) {positions : List Nat}
    (starts : ∀ n ∈ positions, n < p.listing.instructions.length → ∃ c ∈ p.blocks, c.start = n) :
    p.Lands positions (positions.filterMap (Block.at? p.blocks)) := by
  induction positions with
  | nil => exact .nil
  | cons n positions ih =>
    obtain ⟨first, rest⟩ := List.forall_mem_cons.mp starts
    by_cases lt : n < p.listing.instructions.length
    · obtain ⟨c, hc, rfl⟩ := first lt
      rw [List.filterMap_cons_some (h.at?_eq_some_iff.mpr ⟨c, hc, rfl, rfl⟩)]
      exact .block hc ((h.getElem?_entry_iff hc).mpr rfl) (ih rest)
    · have none_there : Block.at? p.blocks n = none := by
        rw [Option.eq_none_iff_forall_ne_some]
        intro k found
        obtain ⟨c, hc, rfl, _⟩ := h.at?_eq_some_iff.mp found
        have := h.stop_le hc
        have := c.start_lt_stop
        omega
      rw [List.filterMap_cons_none none_there]
      exact .past (Nat.le_of_not_lt lt) (ih rest)

end Built

/-- **The successors of a block, in order and with repeats.** Its last instruction stands at a
position `e`. Every label it names is defined, and it names one if it is a branch or a call. The
successors are the blocks at the positions that control may go on to from there. -/
theorem next_exact {name source : Text} (h : ofSource name source = .ok p) (mem : b ∈ p.blocks) :
    ∃ e, p.listing.instructions[e]? = some b.exit ∧
      (∀ label ∈ b.exit.targets, ∃ n, p.listing.position? label = some n) ∧
      (b.exit.flow = .branch ∨ b.exit.flow = .conditional ∨ b.exit.flow = .call →
        b.exit.operands.length = 1) ∧
      p.Lands (p.onward b e) (p.next b.index) := by
  have built := built_of_source h
  have last : b.start + b.rest.length + 1 = b.stop := rfl
  refine ⟨b.start + b.rest.length, (built.getElem?_exit_iff mem).mpr last,
    built.targets_defined mem, built.sound.length_operands (built.exit_mem mem), ?_⟩
  rw [built.next_eq mem last]
  exact built.lands fun n on lt => built.start_of_onward mem last on lt

/-- A subroutine under two labels, each called once: its return goes on behind both calls. -/
theorem next_exact_shared_return : ∃ p b e,
    ofSource [] (Text.ofString "callsub f\ncallsub g\nerr\nf:\ng: retsub") = .ok p ∧
      b ∈ p.blocks ∧ b.exit.flow = .leave ∧ p.listing.instructions[e]? = some b.exit ∧
      p.next b.index = [1, 2] ∧ p.Lands (p.onward b e) [1, 2] := by
  obtain ⟨p, built, found⟩ := exists_of_any
    (q := fun p => p.blocks.any fun b => b.exit.flow = .leave && p.next b.index = [1, 2])
    (r := ofSource [] (Text.ofString "callsub f\ncallsub g\nerr\nf:\ng: retsub"))
    (by decide +kernel)
  obtain ⟨b, mem, both⟩ := List.any_eq_true.mp found
  obtain ⟨leaves, next⟩ : b.exit.flow = .leave ∧ p.next b.index = [1, 2] := by simpa using both
  obtain ⟨e, last, _, _, lands⟩ := next_exact built mem
  exact ⟨p, b, e, built, mem, leaves, last, next, next ▸ lands⟩

end Program

end TealAudit
