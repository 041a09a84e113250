import Mathlib.Logic.Relation
import TealAudit.Detector.DeadCode
import TealAudit.Proofs.Successors

/-!
# No run enters dead code

A run of a listing knows nothing of blocks: it has the position of the next instruction and the
positions that its pending calls return to (`Machine`), and `Listing.Step` is what one instruction
does to them.

**The invariant** (`Program.Inside`). As long as the position is one of an instruction, it lies in a
reachable block, and every pending call is *served* by the block above it: the innermost one by the
block that is being run, each other one by the block that ends in the call inside it
(`Program.Pending`). A step inside a subroutine keeps to its body, so what serves a call goes on
serving it. A call puts its own block on top and starts a body. At a return the innermost call is
served, so the block behind it is a successor of the return; and the call below is served by the
block that has come back, since a body goes on behind its calls.
-/

namespace TealAudit

/-- **The state of a run**: the position of the next instruction, and the positions that the pending
calls return to, the innermost first. -/
structure Machine where
  pc : Nat
  pending : List Nat
deriving DecidableEq, Repr

/-- **One step of a run.** There is none from a return without a pending call, from an instruction
that ends the program, and from behind the last instruction. -/
inductive Listing.Step (l : Listing) : Machine → Machine → Prop
  | next {pc : Nat} {pending : List Nat} {i : Instruction} : l.instructions[pc]? = some i →
      i.flow = .plain ∨ i.flow = .conditional ∨ i.flow = .switch →
      Step l ⟨pc, pending⟩ ⟨pc + 1, pending⟩
  | jump {pc n : Nat} {pending : List Nat} {i : Instruction} {label : Text} :
      l.instructions[pc]? = some i → i.flow = .branch ∨ i.flow = .conditional ∨ i.flow = .switch →
      label ∈ i.operands → l.position? label = some n → Step l ⟨pc, pending⟩ ⟨n, pending⟩
  | call {pc n : Nat} {pending : List Nat} {i : Instruction} {label : Text} :
      l.instructions[pc]? = some i → i.flow = .call → label ∈ i.operands →
      l.position? label = some n → Step l ⟨pc, pending⟩ ⟨n, (pc + 1) :: pending⟩
  | leave {pc n : Nat} {pending : List Nat} {i : Instruction} : l.instructions[pc]? = some i →
      i.flow = .leave → Step l ⟨pc, n :: pending⟩ ⟨n, pending⟩

namespace Program

variable {p : Program} {b c : Block} {label : Text} {e n : Nat}

/-! ## Positions that control goes on to -/

theorem mem_onward_next
    (flow : b.exit.flow = .plain ∨ b.exit.flow = .conditional ∨ b.exit.flow = .switch) :
    e + 1 ∈ p.onward b e := by
  rcases flow with flow | flow | flow <;> simp [onward, flow]

theorem mem_onward_target (names : b.exit.flow.namesLabels = true)
    (operand : label ∈ b.exit.operands) (target : p.listing.position? label = some n) : n ∈ p.onward b e := by
  have named : n ∈ b.exit.operands.filterMap p.listing.position? :=
    List.mem_filterMap.mpr ⟨label, operand, target⟩
  cases flow : b.exit.flow <;> simp_all [onward, Flow.namesLabels]

/-- A return goes on behind the calls of the labels it serves. -/
theorem mem_onward_resume (leaves : b.exit.flow = .leave) (serves : p.Serves label b.index)
    (called : (label, n) ∈ p.listing.callSites) : n + 1 ∈ p.onward b e := by
  have known : label ∈ p.listing.calledLabels :=
    List.mem_eraseDups.mpr (List.mem_map.mpr ⟨_, called, rfl⟩)
  simp only [onward, leaves]
  refine List.mem_flatMap.mpr ⟨label, List.mem_filter.mpr ⟨known, decide_eq_true serves⟩, ?_⟩
  exact List.mem_map.mpr ⟨_, List.mem_filter.mpr ⟨called, decide_eq_true rfl⟩, rfl⟩

namespace Built

/-- An instruction that passes control on is the last one of its block. -/
theorem exit_of_transfers (h : p.Built) (mem : b ∈ p.blocks) {i : Instruction}
    (found : p.listing.instructions[n]? = some i) (within : b.start ≤ n ∧ n < b.stop)
    (transfers : i.flow ≠ .plain) : n + 1 = b.stop := by
  by_contra inner
  exact transfers (h.plain_of_inner mem found within.1 (by omega))

theorem eq_exit (h : p.Built) (mem : b ∈ p.blocks) {i : Instruction}
    (found : p.listing.instructions[n]? = some i) (last : n + 1 = b.stop) : i = b.exit := by
  rw [(h.getElem?_exit_iff mem).mpr last] at found
  exact (Option.some.inj found).symm

theorem mem_next (h : p.Built) (hb : b ∈ p.blocks) (hc : c ∈ p.blocks) (last : e + 1 = b.stop)
    (on : c.start ∈ p.onward b e) : c.index ∈ p.next b.index := by
  rw [h.next_eq hb last]
  exact List.mem_filterMap.mpr ⟨c.start, on, h.at?_eq_some_iff.mpr ⟨c, hc, rfl, rfl⟩⟩

theorem reachable_next (h : p.Built) (hc : c ∈ p.blocks) (reached : b.index ∈ p.reachable)
    (edge : c.index ∈ p.next b.index) : c.index ∈ p.reachable :=
  Search.mem_closure.mpr (.step (Search.mem_closure.mp reached) edge (h.index_lt hc))

/-! ## Serving a call -/

theorem serves_entry (h : p.Built) (hc : c ∈ p.blocks)
    (target : p.listing.position? label = some c.start) : p.Serves label c.index := by
  refine ⟨c, hc, ?_, .entry (h.index_lt hc)⟩
  rw [target, Option.bind_some]
  exact (h.getElem?_entry_iff hc).mpr rfl

theorem serves_along (h : p.Built) (hb : b ∈ p.blocks) (hc : c ∈ p.blocks)
    (other : b.exit.flow ≠ .call) (stays : b.exit.flow ≠ .leave) (edge : c.index ∈ p.next b.index)
    (serves : p.Serves label b.index) : p.Serves label c.index := by
  obtain ⟨entry, mem, target, inside⟩ := serves
  exact ⟨entry, mem, target, .along inside (h.mem_iff.mp hb) other stays edge (h.index_lt hc)⟩

theorem serves_behind (h : p.Built) (hb : b ∈ p.blocks) (hc : c ∈ p.blocks)
    (call : b.exit.flow = .call) (behind : c.start = b.stop) (serves : p.Serves label b.index) :
    p.Serves label c.index := by
  obtain ⟨entry, mem, target, inside⟩ := serves
  have follows : b.following? p.blocks = some c.index := h.at?_eq_some_iff.mpr ⟨c, hc, behind, rfl⟩
  obtain ⟨next, lt⟩ := (h.following?_eq_some_iff hb).mp follows
  rw [next] at lt ⊢
  exact ⟨entry, mem, target, .behind inside (h.mem_iff.mp hb) call lt⟩

end Built

/-! ## The invariant -/

/-- **Pending calls, served from a block on**: each returns behind the block that ends in it, the
innermost is served by block `k`, and each other one by the block of the call inside it. -/
inductive Pending (p : Program) : (k : Nat) → List Nat → Prop
  | nil {k : Nat} : Pending p k []
  | cons {k : Nat} {c : Block} {label : Text} {rest : List Nat} : c ∈ p.blocks →
      c.exit.flow = .call → label ∈ c.exit.operands → p.Serves label k → Pending p c.index rest →
      Pending p k (c.stop :: rest)

/-- What serves all that another block serves takes over its pending calls. -/
theorem Pending.mono {k m : Nat} {rest : List Nat}
    (serves : ∀ label, p.Serves label k → p.Serves label m) (h : p.Pending k rest) :
    p.Pending m rest := by
  cases h with
  | nil => exact .nil
  | cons mem call operand served below => exact .cons mem call operand (serves _ served) below

/-- **A run is inside a block**: the block is reachable, holds the next instruction, and serves the
pending calls. -/
structure Inside (p : Program) (s : Machine) (b : Block) : Prop where
  mem : b ∈ p.blocks
  within : b.start ≤ s.pc ∧ s.pc < b.stop
  reached : b.index ∈ p.reachable
  pending : p.Pending b.index s.pending

namespace Built

/-- A run that goes on from the last instruction of a block enters a successor of it. -/
theorem enters (h : p.Built) {s t : Machine} (inside : p.Inside s b) (last : e + 1 = b.stop)
    (on : t.pc ∈ p.onward b e) (lt : t.pc < p.listing.instructions.length)
    (pending : ∀ c ∈ p.blocks, c.start = t.pc → c.index ∈ p.next b.index →
      p.Pending c.index t.pending) : ∃ c, p.Inside t c := by
  obtain ⟨c, hc, starts⟩ := h.start_of_onward inside.mem last on lt
  have edge := h.mem_next inside.mem hc last (starts ▸ on)
  refine ⟨c, hc, ?_, h.reachable_next hc inside.reached edge, pending c hc starts edge⟩
  rw [← starts]
  exact ⟨Nat.le_refl _, c.start_lt_stop⟩

/-- **The invariant holds at the first instruction.** -/
theorem inside_start (h : p.Built) (lt : 0 < p.listing.instructions.length) :
    ∃ b, p.Inside ⟨0, []⟩ b := by
  obtain ⟨b, mem, within⟩ := h.laid.cover (Nat.le_refl 0) (by omega)
  have first : b.index = 0 := by
    rcases h.laid.before mem with ⟨first, _⟩ | ⟨a, _, _, stop, _⟩
    · exact first
    · have := a.start_lt_stop
      omega
  refine ⟨b, mem, within, Search.mem_closure.mpr (.start ?_ (h.index_lt mem)), .nil⟩
  rw [first]
  exact List.mem_singleton_self 0

/-- **A step keeps the invariant**, up to the end of the program. -/
theorem inside_step (h : p.Built) {s t : Machine} (inside : p.Inside s b)
    (step : p.listing.Step s t) (lt : t.pc < p.listing.instructions.length) :
    ∃ c, p.Inside t c := by
  -- A step that neither calls nor returns leaves the pending calls as they are.
  have along : b.exit.flow ≠ .call ∧ b.exit.flow ≠ .leave → ∀ c ∈ p.blocks,
      c.index ∈ p.next b.index → p.Pending c.index s.pending := by
    rintro ⟨other, stays⟩ c hc edge
    exact inside.pending.mono fun _ => h.serves_along inside.mem hc other stays edge
  cases step with
  | @next pc pending i found flow =>
    by_cases inner : pc + 1 < b.stop
    · exact ⟨b, inside.mem, ⟨Nat.le_succ_of_le inside.within.1, inner⟩, inside.reached,
        inside.pending⟩
    · have last : pc + 1 = b.stop := Nat.le_antisymm inside.within.2 (Nat.le_of_not_lt inner)
      have exit := h.eq_exit inside.mem found last
      subst exit
      have kept : b.exit.flow ≠ .call ∧ b.exit.flow ≠ .leave := by
        rcases flow with flow | flow | flow <;> simp [flow]
      exact h.enters inside last (mem_onward_next flow) lt fun c hc _ => along kept c hc
  | @jump pc n pending i label found flow operand target =>
    have last := h.exit_of_transfers inside.mem found inside.within
      (by rcases flow with flow | flow | flow <;> simp [flow])
    have exit := h.eq_exit inside.mem found last
    subst exit
    have names : b.exit.flow.namesLabels = true := by
      rcases flow with flow | flow | flow <;> rw [flow] <;> rfl
    have kept : b.exit.flow ≠ .call ∧ b.exit.flow ≠ .leave := by
      rcases flow with flow | flow | flow <;> simp [flow]
    exact h.enters inside last (mem_onward_target names operand target) lt
      fun c hc _ => along kept c hc
  | @call pc n pending i label found flow operand target =>
    have last := h.exit_of_transfers inside.mem found inside.within (by simp [flow])
    have exit := h.eq_exit inside.mem found last
    subst exit
    have names : b.exit.flow.namesLabels = true := by
      rw [flow]
      rfl
    refine h.enters inside last (mem_onward_target names operand target) lt fun c hc starts _ => ?_
    rw [last]
    exact .cons inside.mem flow operand (h.serves_entry hc (starts ▸ target)) inside.pending
  | @leave pc n pending i found flow =>
    have last := h.exit_of_transfers inside.mem found inside.within (by simp [flow])
    have exit := h.eq_exit inside.mem found last
    subst exit
    -- The innermost pending call is served by this very return.
    have calls := inside.pending
    cases calls with
    | @cons _ c label _ hc call operand serves below =>
      have called : (label, c.start + c.rest.length) ∈ p.listing.callSites :=
        Listing.mem_callSites.mpr ⟨c.exit, (h.getElem?_exit_iff hc).mpr rfl, call, operand⟩
      refine h.enters inside last (mem_onward_resume flow serves called) lt fun d hd starts _ => ?_
      exact below.mono fun _ => h.serves_behind hc hd call starts

/-- **Every run stays inside reachable blocks**, up to the end of the program. -/
theorem inside_run (h : p.Built) {s : Machine}
    (run : Relation.ReflTransGen p.listing.Step ⟨0, []⟩ s)
    (lt : s.pc < p.listing.instructions.length) : ∃ b, p.Inside s b := by
  induction run with
  | refl => exact h.inside_start lt
  | @tail s t _ step ih =>
    have here : s.pc < p.listing.instructions.length := by
      cases step with
      | next found | jump found | call found | leave found =>
        exact (List.getElem?_eq_some_iff.mp found).1
    obtain ⟨b, inside⟩ := ih here
    exact h.inside_step inside step lt

end Built

end Program

/-- The blocks of the finding are the blocks that are not reachable. -/
theorem Detector.DeadCode.mem_blocks_of_detect {p : Program} {file : Text} {finding : Finding}
    (reported : finding ∈ detect p file) {b : Block} :
    b ∈ finding.blocks ↔ b ∈ p.blocks ∧ b.index ∉ p.reachable := by
  have dead : b ∈ deadBlocks p ↔ b ∈ p.blocks ∧ b.index ∉ p.reachable := by simp [deadBlocks]
  rw [← dead]
  unfold detect at reported
  split at reported
  · cases reported
  · cases List.mem_singleton.mp reported
    rfl

namespace Program

/-- **No run enters dead code.** Whatever run leads to an instruction, the block of that instruction
is reachable, and no block of the finding of dead code has the instruction. -/
theorem executed_not_dead {p : Program} {name source : Text} (h : ofSource name source = .ok p)
    {s : Machine} (run : Relation.ReflTransGen p.listing.Step ⟨0, []⟩ s)
    {i : Instruction} (found : p.listing.instructions[s.pc]? = some i) :
    (∃ b ∈ p.blocks, p.blockOf? s.pc = some b.index ∧ i ∈ b.instructions ∧
      b.index ∈ p.reachable) ∧
    ∀ file, ∀ finding ∈ Detector.DeadCode.detect p file, ∀ b ∈ finding.blocks,
      i ∉ b.instructions := by
  have built := built_of_source h
  obtain ⟨b, inside⟩ := built.inside_run run (List.getElem?_eq_some_iff.mp found).1
  have holds := (built.mem_instructions_iff inside.mem found).mpr inside.within
  refine ⟨⟨b, inside.mem, built.blockOf?_eq inside.mem inside.within, holds, inside.reached⟩, ?_⟩
  intro file finding reported c dead executed
  obtain ⟨hc, unreached⟩ := (Detector.DeadCode.mem_blocks_of_detect reported).mp dead
  have same : c = b := built.laid.eq_of_overlap hc inside.mem
    ((built.mem_instructions_iff hc found).mp executed) inside.within
  exact unreached (same ▸ inside.reached)

/-- A call and its return, over an instruction that is dead: the run ends behind the call. -/
theorem executed_not_dead_behind_call : ∃ p s i,
    ofSource [] (Text.ofString "callsub f\nerr\nsha256\nf: retsub") = .ok p ∧
      Relation.ReflTransGen p.listing.Step ⟨0, []⟩ s ∧ p.listing.instructions[s.pc]? = some i ∧
      i.name = Text.ofString "err" ∧ (∃ b ∈ p.blocks, i ∈ b.instructions ∧ b.index ∈ p.reachable) ∧
      (Detector.DeadCode.detect p []).length = 1 ∧
      ∀ finding ∈ Detector.DeadCode.detect p [], ∀ b ∈ finding.blocks, i ∉ b.instructions := by
  obtain ⟨p, built, checked⟩ := exists_of_any
    (q := fun p => p.listing.instructions =
        [⟨Text.ofString "callsub", .call, [Text.ofString "f"], 1⟩,
          ⟨Text.ofString "err", .terminal, [], 2⟩, ⟨Text.ofString "sha256", .plain, [], 3⟩,
          ⟨Text.ofString "retsub", .leave, [], 4⟩] &&
      p.listing.position? (Text.ofString "f") = some 3 &&
      (Detector.DeadCode.detect p []).length = 1)
    (r := ofSource [] (Text.ofString "callsub f\nerr\nsha256\nf: retsub")) (by decide +kernel)
  simp only [Bool.and_eq_true, decide_eq_true_eq] at checked
  obtain ⟨⟨code, target⟩, one⟩ := checked
  have call : p.listing.Step ⟨0, []⟩ ⟨3, [1]⟩ :=
    .call (by rw [code]; rfl) rfl (List.mem_singleton_self _) target
  have back : p.listing.Step ⟨3, [1]⟩ ⟨1, []⟩ := .leave (by rw [code]; rfl) rfl
  have run : Relation.ReflTransGen p.listing.Step ⟨0, []⟩ ⟨1, []⟩ :=
    (Relation.ReflTransGen.single call).tail back
  have found : p.listing.instructions[1]? = some ⟨Text.ofString "err", .terminal, [], 2⟩ := by
    rw [code]
    rfl
  obtain ⟨⟨b, mem, _, holds, reached⟩, alive⟩ := executed_not_dead built run found
  exact ⟨p, ⟨1, []⟩, _, built, run, found, rfl, ⟨b, mem, holds, reached⟩, one, alive []⟩

end Program

end TealAudit
