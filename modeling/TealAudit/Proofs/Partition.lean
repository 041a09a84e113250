import TealAudit.Program
import TealAudit.Proofs.Reading

/-!
# Blocks partition a listing

The blocks of a listing lie **end to end** over its instructions (`Block.Laid`): each starts where the
one before it stops, under the next number. Two more things hold of each of them. It is *straight*:
only its last instruction passes control on, and no label points behind its first. And it is *cut for
a reason*: behind it stands nothing, a label, or what control is passed over.

Everything else about blocks follows from `Block.Laid` and not from how they are cut: that a position
lies in one block and no other, which positions start a block, and which block is found for a
position or a start. The cutting itself is used once, in `Block.laid_place`, by induction on the
instructions from behind, as the runs are made.
-/

namespace TealAudit

theorem Flow.transfers_iff {f : Flow} : f.transfers = true ↔ f ≠ .plain := by
  simp [transfers]

namespace Block

theorem instructions_ne_nil (b : Block) : b.instructions ≠ [] := List.cons_ne_nil _ _

theorem start_lt_stop (b : Block) : b.start < b.stop := by
  unfold stop
  omega

theorem length_instructions (b : Block) : b.start + b.instructions.length = b.stop := by
  simp [instructions, stop, Nat.add_assoc]

/-- The last instruction stands right in front of where the block stops. -/
theorem getElem?_exit (b : Block) : b.instructions[b.rest.length]? = some b.exit := by
  rw [exit, List.getLast_eq_getElem]
  simp [instructions]

/-! ## Blocks end to end -/

/-- **A straight block**: its instructions but the last are plain, and its positions but the first
have no label. -/
structure Straight (labelled : Nat → Bool) (b : Block) : Prop where
  plain : ∀ i ∈ b.instructions.dropLast, i.flow = .plain
  unlabelled : ∀ n, b.start < n → n < b.stop → labelled n = false

/-- **Blocks end to end** over instructions, from block `index` at position `start` on. -/
inductive Laid (labelled : Nat → Bool) : (index start : Nat) → List Instruction → List Block → Prop
  | nil {index start : Nat} : Laid labelled index start [] []
  | cons {index start : Nat} {b : Block} {rest : List Block} {behind : List Instruction} :
      b.index = index → b.start = start → b.Straight labelled →
      (rest ≠ [] → labelled b.stop = true ∨ b.exit.flow ≠ .plain) →
      Laid labelled (index + 1) b.stop behind rest →
      Laid labelled index start (b.instructions ++ behind) (b :: rest)

variable {labelled : Nat → Bool} {index start : Nat} {instructions : List Instruction}
  {blocks : List Block}

/-- An instruction in front of a straight block makes a longer straight block, if it is plain and no
label points at the block. -/
theorem Straight.cons {b : Block} (h : b.Straight labelled) {i : Instruction} {n k : Nat}
    (at_next : b.start = n + 1) (plain : i.flow = .plain) (unlabelled : labelled (n + 1) = false) :
    (Block.mk k n i (b.entry :: b.rest)).Straight labelled := by
  refine ⟨fun other mem => ?_, fun m above below => ?_⟩
  · have split : (Block.mk k n i (b.entry :: b.rest)).instructions.dropLast =
        i :: b.instructions.dropLast := rfl
    rw [split] at mem
    rcases List.mem_cons.mp mem with rfl | mem
    · exact plain
    · exact h.plain other mem
  · have below' : m < b.stop := by
      simp only [stop, List.length_cons] at below ⊢
      omega
    rcases Nat.lt_or_ge b.start m with lt | ge
    · exact h.unlabelled m lt below'
    · have eq : m = n + 1 := by
        simp only at above
        omega
      rw [eq]
      exact unlabelled

/-- **Runs are laid end to end.** -/
theorem laid_place (labelled : Nat → Bool) (instructions : List Instruction) :
    ∀ index start, Laid labelled index start instructions
      (place index start (Instruction.runs labelled start instructions)) := by
  induction instructions with
  | nil => exact fun _ _ => .nil
  | cons i rest ih =>
    intro index start
    have alone : (Block.mk index start i []).Straight labelled := by
      refine ⟨fun _ mem => (List.not_mem_nil mem).elim, fun n above below => ?_⟩
      simp only [stop, List.length_nil] at above below
      omega
    rw [Instruction.runs]
    cases runs : Instruction.runs labelled (start + 1) rest with
    | nil =>
      have tail := ih (index + 1) (start + 1)
      rw [runs] at tail
      exact .cons (b := ⟨index, start, i, []⟩) rfl rfl alone (fun h => absurd rfl h) tail
    | cons run more =>
      obtain ⟨j, run⟩ := run
      simp only
      split
      · next cut =>
        have tail := ih (index + 1) (start + 1)
        rw [runs] at tail
        refine .cons (b := ⟨index, start, i, []⟩) rfl rfl alone (fun _ => ?_) tail
        rcases Bool.or_eq_true_iff.mp cut with transfers | label
        · exact .inr (Flow.transfers_iff.mp transfers)
        · exact .inl label
      · next joined =>
        -- The next run starts one position later, under this run's number: take its block apart and
        -- put the instruction in front.
        simp only [Bool.or_eq_true, not_or, Flow.transfers_iff, not_not, Bool.not_eq_true] at joined
        have tail := ih index (start + 1)
        rw [runs, place] at tail
        have same : start + (j :: run).length + 1 = start + 1 + run.length + 1 := by
          simp only [List.length_cons]
          omega
        rw [place, same]
        cases tail with
        | cons _ _ straight reason tail =>
          have stop : (Block.mk index start i (j :: run)).stop =
              (Block.mk index (start + 1) j run).stop := same
          rw [← stop] at reason tail
          exact .cons (b := ⟨index, start, i, j :: run⟩) rfl rfl
            (straight.cons rfl joined.1 joined.2) reason tail

/-! ### What follows -/

namespace Laid

theorem flatMap_instructions (h : Laid labelled index start instructions blocks) :
    blocks.flatMap Block.instructions = instructions := by
  induction h with
  | nil => rfl
  | cons _ _ _ _ _ ih => rw [List.flatMap_cons, ih]

theorem map_index (h : Laid labelled index start instructions blocks) :
    blocks.map Block.index = List.range' index blocks.length := by
  induction h with
  | nil => rfl
  | cons numbered _ _ _ _ ih => rw [List.map_cons, numbered, ih, List.length_cons, List.range'_succ]

theorem index_of_getElem? (h : Laid labelled index start instructions blocks) {k : Nat} {b : Block}
    (found : blocks[k]? = some b) : b.index = index + k := by
  have lt := (List.getElem?_eq_some_iff.mp found).1
  have at_k := congrArg (·[k]?) h.map_index
  simp only [List.getElem?_map, found, List.getElem?_range' lt, Option.map_some] at at_k
  simpa using at_k

theorem straight (h : Laid labelled index start instructions blocks) {b : Block}
    (mem : b ∈ blocks) : b.Straight labelled := by
  induction h with
  | nil => exact (List.not_mem_nil mem).elim
  | cons _ _ straight _ _ ih =>
    rcases List.mem_cons.mp mem with rfl | mem
    · exact straight
    · exact ih mem

/-- The instructions of a block stand among all, from where it starts on. -/
theorem split (h : Laid labelled index start instructions blocks) {b : Block} (mem : b ∈ blocks) :
    ∃ before after, instructions = before ++ (b.instructions ++ after) ∧
      start + before.length = b.start := by
  induction h with
  | nil => exact (List.not_mem_nil mem).elim
  | @cons _ _ first _ behind _ starts _ _ _ ih =>
    rcases List.mem_cons.mp mem with rfl | mem
    · exact ⟨[], behind, rfl, starts.symm⟩
    · obtain ⟨before, after, rfl, at_start⟩ := ih mem
      refine ⟨first.instructions ++ before, after, by simp, ?_⟩
      have stop := first.length_instructions
      rw [List.length_append]
      omega

theorem start_le (h : Laid labelled index start instructions blocks) {b : Block}
    (mem : b ∈ blocks) : start ≤ b.start := by
  obtain ⟨before, _, _, at_start⟩ := h.split mem
  omega

/-- Every position is in a block. -/
theorem cover (h : Laid labelled index start instructions blocks) {n : Nat} (above : start ≤ n)
    (below : n < start + instructions.length) : ∃ b ∈ blocks, b.start ≤ n ∧ n < b.stop := by
  induction h with
  | nil =>
    simp only [List.length_nil] at below
    omega
  | @cons _ _ first _ behind _ starts _ _ _ ih =>
    have stop := first.length_instructions
    by_cases inside : n < first.stop
    · exact ⟨first, List.mem_cons_self, by omega, inside⟩
    · rw [List.length_append] at below
      obtain ⟨b, mem, within⟩ := ih (by omega) (by omega)
      exact ⟨b, List.mem_cons_of_mem _ mem, within⟩

/-- No position is in two blocks. -/
theorem eq_of_overlap (h : Laid labelled index start instructions blocks) {b c : Block}
    (hb : b ∈ blocks) (hc : c ∈ blocks) {n : Nat} (inB : b.start ≤ n ∧ n < b.stop)
    (inC : c.start ≤ n ∧ n < c.stop) : b = c := by
  induction h with
  | nil => exact (List.not_mem_nil hb).elim
  | cons _ _ _ _ tail ih =>
    rcases List.mem_cons.mp hb with rfl | restB
    · rcases List.mem_cons.mp hc with rfl | restC
      · rfl
      · have := tail.start_le restC
        omega
    · rcases List.mem_cons.mp hc with rfl | restC
      · have := tail.start_le restB
        omega
      · exact ih restB restC

/-- Behind a block stands the next one, or the end. -/
theorem behind (h : Laid labelled index start instructions blocks) {b : Block} (mem : b ∈ blocks) :
    (b.stop = start + instructions.length ∧ b.index + 1 = index + blocks.length) ∨
      ∃ c ∈ blocks, c.index = b.index + 1 ∧ c.start = b.stop := by
  induction h with
  | nil => exact (List.not_mem_nil mem).elim
  | @cons index start first rest behind numbered starts _ _ tail ih =>
    rcases List.mem_cons.mp mem with rfl | mem
    · cases tail with
      | nil =>
        have stop := b.length_instructions
        refine .inl ⟨?_, by simp [numbered]⟩
        rw [List.append_nil]
        omega
      | @cons _ _ c _ _ numbered' starts' _ _ _ =>
        exact .inr ⟨c, by simp, by rw [numbered', numbered], starts'⟩
    · rcases ih mem with ⟨stop, last⟩ | ⟨c, mem, next⟩
      · have length := first.length_instructions
        refine .inl ⟨?_, by simp only [List.length_cons]; omega⟩
        rw [List.length_append]
        omega
      · exact .inr ⟨c, List.mem_cons_of_mem _ mem, next⟩

/-- A block is the first one, or it is cut from the one before it for a reason. -/
theorem before (h : Laid labelled index start instructions blocks) {b : Block} (mem : b ∈ blocks) :
    (b.index = index ∧ b.start = start) ∨ ∃ a ∈ blocks, a.index + 1 = b.index ∧ a.stop = b.start ∧
      (labelled a.stop = true ∨ a.exit.flow ≠ .plain) := by
  induction h with
  | nil => exact (List.not_mem_nil mem).elim
  | @cons _ _ first rest _ numbered starts _ reason _ ih =>
    rcases List.mem_cons.mp mem with rfl | mem
    · exact .inl ⟨numbered, starts⟩
    · have more : rest ≠ [] := List.ne_nil_of_mem mem
      rcases ih mem with ⟨next, at_stop⟩ | ⟨a, mem, cut⟩
      · exact .inr ⟨first, List.mem_cons_self, by omega, at_stop.symm, reason more⟩
      · exact .inr ⟨a, List.mem_cons_of_mem _ mem, cut⟩

end Laid

end Block

/-! ## Programs -/

theorem Listing.isLabelled_iff {l : Listing} (sound : l.Sound) {n : Nat} :
    l.isLabelled n = true ↔ ∃ label, l.position? label = some n := by
  simp [isLabelled, position?_eq_some_iff sound.labels]

/-- The instructions of a listing that is read differ from each other. -/
theorem Listing.Sound.nodup {l : Listing} (sound : l.Sound) : l.instructions.Nodup :=
  sound.ascending.imp fun lt eq => absurd (congrArg Instruction.line eq) (Nat.ne_of_lt lt)

namespace Program

variable {name source : Text} {p : Program}

/-- **What holds of every program that is built**: a sound listing, its blocks end to end over its
instructions, and its edges as they are made. -/
structure Built (p : Program) : Prop where
  sound : p.listing.Sound
  laid : Block.Laid p.listing.isLabelled 0 0 p.listing.instructions p.blocks
  wired : ∃ direct, p.listing.directEdges p.blocks p.blocks = .ok direct ∧
    p.edges = direct ++ p.listing.returns p.blocks direct

/-- A flow graph that is made for a listing has the blocks of the listing, end to end, and the edges
as they are made. -/
theorem ofListing_eq_ok {l : Listing} (h : ofListing name source l = .ok p) :
    p.listing = l ∧ Block.Laid l.isLabelled 0 0 l.instructions p.blocks ∧
      ∃ direct, l.directEdges p.blocks p.blocks = .ok direct ∧
        p.edges = direct ++ l.returns p.blocks direct := by
  unfold ofListing at h
  simp only at h
  split at h
  · cases h
  · next direct wired =>
    cases h
    exact ⟨rfl, Block.laid_place _ _ 0 0, direct, wired, rfl⟩

theorem parse_of_source (h : ofSource name source = .ok p) :
    Listing.parse name source = .ok p.listing ∧ ofListing name source p.listing = .ok p := by
  cases parsed : Listing.parse name source with
  | error e => rw [ofSource, parsed] at h; cases h
  | ok l =>
    rw [ofSource, parsed] at h
    change ofListing name source l = .ok p at h
    rw [(ofListing_eq_ok h).1]
    exact ⟨rfl, h⟩

theorem built_of_source (h : ofSource name source = .ok p) : p.Built := by
  obtain ⟨parsed, built⟩ := parse_of_source h
  obtain ⟨-, laid, wired⟩ := ofListing_eq_ok built
  exact ⟨Listing.sound_of_parse parsed, laid, wired⟩

namespace Built

theorem index_eq (h : p.Built) {k : Nat} {b : Block} (found : p.blocks[k]? = some b) :
    b.index = k := by
  rw [h.laid.index_of_getElem? found, Nat.zero_add]

/-- A block stands under its own number. -/
theorem mem_iff (h : p.Built) {b : Block} : b ∈ p.blocks ↔ p.blocks[b.index]? = some b := by
  constructor
  · intro mem
    obtain ⟨k, found⟩ := List.mem_iff_getElem?.mp mem
    rw [h.index_eq found]
    exact found
  · exact List.mem_of_getElem?

theorem getElem?_block (h : p.Built) {b : Block} (mem : b ∈ p.blocks) {j : Nat}
    (lt : j < b.instructions.length) :
    p.listing.instructions[b.start + j]? = b.instructions[j]? := by
  obtain ⟨before, after, split, at_start⟩ := h.laid.split mem
  rw [Nat.zero_add] at at_start
  rw [split, ← at_start, List.getElem?_append_right (Nat.le_add_right _ _), Nat.add_sub_cancel_left,
    List.getElem?_append_left lt]

theorem stop_le (h : p.Built) {b : Block} (mem : b ∈ p.blocks) :
    b.stop ≤ p.listing.instructions.length := by
  obtain ⟨before, after, split, at_start⟩ := h.laid.split mem
  have stop := b.length_instructions
  rw [split, List.length_append, List.length_append]
  omega

/-- An instruction belongs to the block that its position lies in. -/
theorem mem_instructions_iff (h : p.Built) {b : Block} (mem : b ∈ p.blocks) {n : Nat}
    {i : Instruction} (found : p.listing.instructions[n]? = some i) :
    i ∈ b.instructions ↔ b.start ≤ n ∧ n < b.stop := by
  have stop := b.length_instructions
  constructor
  · intro inside
    obtain ⟨j, at_j⟩ := List.mem_iff_getElem?.mp inside
    have lt : j < b.instructions.length := (List.getElem?_eq_some_iff.mp at_j).1
    have again := h.getElem?_block mem lt
    rw [at_j, ← found] at again
    have below : b.start + j < p.listing.instructions.length := by
      have := h.stop_le mem
      omega
    -- Instructions that are equal stand at one position, since no two have one line.
    have same := (List.getElem?_inj below h.sound.nodup).mp again
    omega
  · rintro ⟨above, below⟩
    have at_n := h.getElem?_block mem (j := n - b.start) (by omega)
    rw [Nat.add_sub_cancel' above, found] at at_n
    exact List.mem_of_getElem? at_n.symm

theorem getElem?_exit_iff (h : p.Built) {b : Block} (mem : b ∈ p.blocks) {e : Nat} :
    p.listing.instructions[e]? = some b.exit ↔ e + 1 = b.stop := by
  have last : p.listing.instructions[b.start + b.rest.length]? = some b.exit := by
    rw [h.getElem?_block mem (by simp [Block.instructions])]
    exact b.getElem?_exit
  have below : b.start + b.rest.length < p.listing.instructions.length :=
    (List.getElem?_eq_some_iff.mp last).1
  rw [← last, eq_comm, List.getElem?_inj below h.sound.nodup, Block.stop]
  omega

theorem getElem?_entry_iff (h : p.Built) {b : Block} (mem : b ∈ p.blocks) {n : Nat} :
    p.listing.instructions[n]? = some b.entry ↔ n = b.start := by
  have first : p.listing.instructions[b.start + 0]? = some b.entry :=
    h.getElem?_block mem (by simp [Block.instructions])
  have below : b.start + 0 < p.listing.instructions.length :=
    (List.getElem?_eq_some_iff.mp first).1
  rw [← first, eq_comm, List.getElem?_inj below h.sound.nodup]
  omega

/-- In front of the last position of a block stand plain instructions. -/
theorem plain_of_inner (h : p.Built) {b : Block} (mem : b ∈ p.blocks) {n : Nat} {i : Instruction}
    (found : p.listing.instructions[n]? = some i) (above : b.start ≤ n) (inner : n + 1 < b.stop) :
    i.flow = .plain := by
  have stop := b.length_instructions
  have at_n := h.getElem?_block mem (j := n - b.start) (by omega)
  rw [Nat.add_sub_cancel' above, found] at at_n
  refine (h.laid.straight mem).plain i (List.mem_of_getElem? (i := n - b.start) ?_)
  rw [List.getElem?_dropLast, if_pos (by omega), at_n]

/-- The block of an instruction is found by its position. -/
theorem blockOf?_eq (h : p.Built) {b : Block} (mem : b ∈ p.blocks) {n : Nat}
    (within : b.start ≤ n ∧ n < b.stop) : p.blockOf? n = some b.index := by
  have found : p.blocks.find? (fun c => c.start ≤ n && n < c.stop) = some b := by
    refine find?_eq_of_unique mem (by simpa using within) fun c hc inside => ?_
    exact h.laid.eq_of_overlap hc mem (by simpa using inside) within
  rw [blockOf?, found, Option.map_some]

/-- The block that starts at a position is found by it. -/
theorem at?_eq_some_iff (h : p.Built) {n k : Nat} :
    Block.at? p.blocks n = some k ↔ ∃ b ∈ p.blocks, b.start = n ∧ b.index = k := by
  unfold Block.at?
  constructor
  · intro found
    obtain ⟨b, first, rfl⟩ := Option.map_eq_some_iff.mp found
    exact ⟨b, List.mem_of_find?_eq_some first, by simpa using List.find?_some first, rfl⟩
  · rintro ⟨b, mem, rfl, rfl⟩
    have found : p.blocks.find? (fun c => c.start = b.start) = some b := by
      refine find?_eq_of_unique mem (by simp) fun c hc same => ?_
      have same : c.start = b.start := by simpa using same
      exact h.laid.eq_of_overlap hc mem ⟨Nat.le_of_eq same, same ▸ c.start_lt_stop⟩
        ⟨Nat.le_refl _, b.start_lt_stop⟩
    rw [found, Option.map_some]

/-- **Where blocks start**: at the first instruction, at every label, and behind every instruction
that passes control on. -/
theorem start_iff (h : p.Built) {n : Nat} (below : n < p.listing.instructions.length) :
    (∃ b ∈ p.blocks, b.start = n) ↔ n = 0 ∨ (∃ label, p.listing.position? label = some n) ∨
      ∃ m i, n = m + 1 ∧ p.listing.instructions[m]? = some i ∧ i.flow ≠ .plain := by
  rw [← Listing.isLabelled_iff h.sound]
  constructor
  · rintro ⟨b, mem, rfl⟩
    rcases h.laid.before mem with ⟨_, first⟩ | ⟨a, ha, _, stop, label | exit⟩
    · exact .inl first
    · exact .inr (.inl (stop ▸ label))
    · refine .inr (.inr ⟨b.start - 1, a.exit, ?_, (h.getElem?_exit_iff ha).mpr ?_, exit⟩)
      · rw [← stop, Block.stop, Nat.add_sub_cancel]
      · rw [← stop, Block.stop, Nat.add_sub_cancel]
  · intro reason
    obtain ⟨b, mem, above, below⟩ := h.laid.cover (Nat.zero_le n) (by omega)
    refine ⟨b, mem, ?_⟩
    by_contra later
    have inner : b.start < n := by omega
    have straight := h.laid.straight mem
    rcases reason with first | label | ⟨m, i, rfl, found, exit⟩
    · omega
    · rw [straight.unlabelled n inner below] at label
      cases label
    · exact exit (h.plain_of_inner mem found (by omega) below)

end Built

/-- **The blocks of a program partition its instructions.**

* Laid end to end, they are the instructions that are read from the source.
* Each holds an instruction and stands under its own number.
* An instruction is the first of a block exactly when it is the first of all, a label points at it,
  or the instruction before it passes control on.
* So only the last instruction of a block passes control on, and a label points at no instruction
  of it but the first.
* The block that is found for an instruction holds it, and no other block does. -/
theorem blocks_partition (h : ofSource name source = .ok p) :
    Listing.parse name source = .ok p.listing ∧
    p.blocks.flatMap Block.instructions = p.listing.instructions ∧
    (∀ (k : Nat) (b : Block), p.blocks[k]? = some b → b.index = k ∧ b.instructions ≠ []) ∧
    (∀ (n : Nat) (i : Instruction), p.listing.instructions[n]? = some i →
      ((∃ b ∈ p.blocks, b.instructions.head? = some i) ↔
        n = 0 ∨ (∃ label, p.listing.position? label = some n) ∨
          ∃ m j, n = m + 1 ∧ p.listing.instructions[m]? = some j ∧ j.flow ≠ .plain)) ∧
    (∀ b ∈ p.blocks, (∀ i ∈ b.instructions.dropLast, i.flow = .plain) ∧
      ∀ label n i, p.listing.position? label = some n → p.listing.instructions[n]? = some i →
        i ∈ b.instructions → b.instructions.head? = some i) ∧
    (∀ (n : Nat) (i : Instruction), p.listing.instructions[n]? = some i →
      ∃ b ∈ p.blocks, p.blockOf? n = some b.index ∧ i ∈ b.instructions ∧
        ∀ c ∈ p.blocks, i ∈ c.instructions → c = b) := by
  have built := built_of_source h
  refine ⟨(parse_of_source h).1, built.laid.flatMap_instructions, fun k b found => ?_,
    fun n i found => ?_, fun b mem => ⟨(built.laid.straight mem).plain, ?_⟩, fun n i found => ?_⟩
  · exact ⟨built.index_eq found, b.instructions_ne_nil⟩
  · rw [← built.start_iff (List.getElem?_eq_some_iff.mp found).1]
    refine exists_congr fun b => and_congr_right fun mem => ?_
    rw [Block.instructions, List.head?_cons, ← found, eq_comm, built.getElem?_entry_iff mem, eq_comm]
  · intro label n i target found inside
    obtain ⟨above, below⟩ := (built.mem_instructions_iff mem found).mp inside
    have labelled := (Listing.isLabelled_iff built.sound).mpr ⟨label, target⟩
    have first : n = b.start := by
      by_contra later
      rw [(built.laid.straight mem).unlabelled n (by omega) below] at labelled
      cases labelled
    rw [Block.instructions, List.head?_cons, ← found, eq_comm, built.getElem?_entry_iff mem]
    exact first
  · have below := (List.getElem?_eq_some_iff.mp found).1
    obtain ⟨b, mem, within⟩ := built.laid.cover (Nat.zero_le n) (by omega)
    refine ⟨b, mem, built.blockOf?_eq mem within, (built.mem_instructions_iff mem found).mpr within,
      fun c hc inside => ?_⟩
    exact built.laid.eq_of_overlap hc mem ((built.mem_instructions_iff hc found).mp inside) within

/-- A result that passes a test is no failure. -/
theorem exists_of_any {ε α : Type} {r : Except ε α} {q : α → Bool}
    (h : r.toOption.any q = true) : ∃ p, r = .ok p ∧ q p = true := by
  cases r with
  | error e => cases h
  | ok p => exact ⟨p, rfl, h⟩

/-- A branch over an instruction, with a label behind the last one: three blocks. -/
theorem blocks_partition_three :
    ∃ p, ofSource [] (Text.ofString "bz f\nsha256\nf: sha256\nerr\ng:") = .ok p ∧
      p.blocks.length = 3 ∧ p.blocks.flatMap Block.instructions = p.listing.instructions := by
  obtain ⟨p, built, three⟩ := exists_of_any (q := fun p => p.blocks.length = 3)
    (r := ofSource [] (Text.ofString "bz f\nsha256\nf: sha256\nerr\ng:")) (by decide +kernel)
  exact ⟨p, built, of_decide_eq_true three, (blocks_partition built).2.1⟩

end Program

end TealAudit
