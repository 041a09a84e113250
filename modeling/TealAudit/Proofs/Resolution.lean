import TealAudit.Proofs.Partition

/-!
# Labels that no line defines

A flow graph is made unless some instruction sends control to a label that no line defines. The edges
are made block by block, and only the last instruction of a block is asked for its labels. **The law**
(`Program.refused_at_first_undefined`) does not speak of blocks: a listing is refused exactly for the
first instruction in it that names an undefined label, reachable or not, with the first such label
among its operands.

What carries it is that blocks are straight: an instruction that names a label passes control on, so
it is the last one of its block. A search through the instructions that finds nothing at plain ones is
then a search through the last instructions of the blocks (`Block.Laid.findSome?_exit`).
-/

namespace TealAudit

/-- **An instruction names a label**: it is a branch, a switch or a call with the label among its
operands. -/
def Instruction.Names (i : Instruction) (label : Text) : Prop :=
  (i.flow = .branch ∨ i.flow = .conditional ∨ i.flow = .switch ∨ i.flow = .call) ∧
    label ∈ i.operands

theorem Instruction.mem_targets {i : Instruction} {label : Text} :
    label ∈ i.targets ↔ i.Names label := by
  unfold targets Names
  cases i.flow <;> simp [Flow.namesLabels]

theorem Instruction.Names.targets_eq {i : Instruction} {label : Text} (h : i.Names label) :
    i.targets = i.operands := by
  unfold targets
  rcases h.1 with flow | flow | flow | flow <;> rw [flow] <;> rfl

namespace Listing

variable {l : Listing} {blocks todo : List Block} {label : Text}

/-- Whether a label is defined on some line. -/
def Defined (l : Listing) (label : Text) : Prop := label ∈ l.labels.map (·.1)

theorem not_defined_iff {x : Text} : (!l.defines x) = true ↔ ¬ l.Defined x := by
  rw [Defined, ← defines_iff, Bool.not_eq_true', Bool.not_eq_true]

/-- **The first undefined label**: an instruction and a label it names that is not defined. The labels
that earlier instructions name are defined, and so are the earlier operands of the instruction. -/
structure FirstUndefined (l : Listing) (i : Instruction) (label : Text) : Prop where
  names : i.Names label
  undefined : ¬ l.Defined label
  first : ∃ before after, l.instructions = before ++ i :: after ∧
    ∀ j ∈ before, ∀ x, j.Names x → l.Defined x
  leftmost : ∃ front back, i.operands = front ++ label :: back ∧ ∀ x ∈ front, l.Defined x

/-- The first label that an instruction names and no line defines. -/
def undefined? (l : Listing) (i : Instruction) : Option Text := i.targets.find? fun x => !l.defines x

theorem undefined?_of_plain {i : Instruction} (plain : i.flow = .plain) : l.undefined? i = none := by
  simp [undefined?, Instruction.targets, plain, Flow.namesLabels]

theorem undefined?_eq_none {i : Instruction} :
    l.undefined? i = none ↔ ∀ x, i.Names x → l.Defined x := by
  simp only [undefined?, List.find?_eq_none, Instruction.mem_targets, not_defined_iff, not_not]

theorem undefined?_eq_some {i : Instruction} {label : Text} :
    l.undefined? i = some label ↔ i.Names label ∧ ¬ l.Defined label ∧
      ∃ front back, i.operands = front ++ label :: back ∧ ∀ x ∈ front, l.Defined x := by
  simp only [undefined?, List.find?_eq_some_iff_append, not_defined_iff]
  have defined : ∀ x, (!(!l.defines x)) = true ↔ l.Defined x := by
    intro x
    rw [Bool.not_not, Defined, defines_iff]
  simp only [defined]
  constructor
  · rintro ⟨undefined, front, back, targets, earlier⟩
    have names : i.Names label := Instruction.mem_targets.mp (by rw [targets]; simp)
    exact ⟨names, undefined, front, back, names.targets_eq ▸ targets, earlier⟩
  · rintro ⟨names, undefined, front, back, operands, earlier⟩
    exact ⟨undefined, front, back, names.targets_eq.trans operands, earlier⟩

/-! ## Where resolving stops -/

theorem position?_eq_none : l.position? label = none ↔ l.defines label = false := by
  simp [position?, defines]

theorem resolve_error (l : Listing) (labels : List Text) :
    (∃ positions, l.resolve labels = .ok positions ∧
        labels.find? (fun x => !l.defines x) = none) ∨
      ∃ label, l.resolve labels = .error label ∧
        labels.find? (fun x => !l.defines x) = some label := by
  induction labels with
  | nil => exact .inl ⟨[], rfl, rfl⟩
  | cons label rest ih =>
    rw [resolve, List.find?_cons]
    cases found : l.position? label with
    | none =>
      rw [position?_eq_none.mp found]
      exact .inr ⟨label, rfl, rfl⟩
    | some n =>
      have defined : l.defines label = true := by
        by_contra missing
        rw [position?_eq_none.mpr (Bool.eq_false_iff.mpr missing)] at found
        cases found
      rw [defined]
      rcases ih with ⟨positions, resolved, all⟩ | ⟨x, failed, missing⟩
      · exact .inl ⟨n :: positions, by rw [resolved]; rfl, all⟩
      · exact .inr ⟨x, by rw [failed]; rfl, missing⟩

theorem successors_error (l : Listing) (blocks : List Block) (b : Block) :
    (∃ next, l.successors blocks b = .ok next ∧ l.undefined? b.exit = none) ∨
      ∃ label, l.successors blocks b = .error label ∧ l.undefined? b.exit = some label := by
  unfold successors
  rcases l.resolve_error b.exit.targets with ⟨positions, resolved, all⟩ | ⟨x, failed, missing⟩
  · exact .inl ⟨_, by rw [resolved]; rfl, all⟩
  · exact .inr ⟨x, by rw [failed]; rfl, missing⟩

/-- **Edges are made up to the first block whose last instruction names an undefined label.** -/
theorem directEdges_error (l : Listing) (blocks todo : List Block) :
    (∃ direct, l.directEdges blocks todo = .ok direct ∧
        todo.findSome? (fun b => (l.undefined? b.exit).map (b.exit.line, ·)) = none) ∨
      ∃ place, l.directEdges blocks todo = .error place ∧
        todo.findSome? (fun b => (l.undefined? b.exit).map (b.exit.line, ·)) = some place := by
  induction todo with
  | nil => exact .inl ⟨[], rfl, rfl⟩
  | cons b todo ih =>
    rw [directEdges, List.findSome?_cons]
    rcases l.successors_error blocks b with ⟨next, made, defined⟩ | ⟨label, failed, missing⟩
    · rw [made, defined]
      rcases ih with ⟨direct, wired, all⟩ | ⟨place, failed, missing⟩
      · exact .inl ⟨next.map (Edge.mk b.index) ++ direct, by simp only [wired]; rfl, all⟩
      · exact .inr ⟨place, by simp only [failed]; rfl, missing⟩
    · rw [failed, missing]
      exact .inr ⟨_, rfl, rfl⟩

end Listing

/-! ## From blocks to instructions -/

/-- **Blocks end to end**: what is looked for and not found at a plain instruction is found at the last
instruction of a block. -/
theorem Block.Laid.findSome?_exit {α : Type} {labelled : Nat → Bool} {index start : Nat}
    {instructions : List Instruction} {blocks : List Block}
    (h : Block.Laid labelled index start instructions blocks) {f : Instruction → Option α}
    (plain : ∀ i, i.flow = .plain → f i = none) :
    instructions.findSome? f = blocks.findSome? fun b => f b.exit := by
  induction h with
  | nil => rfl
  | @cons _ _ b rest behind _ _ straight _ _ ih =>
    have parts : b.instructions = b.instructions.dropLast ++ [b.exit] :=
      (List.dropLast_append_getLast _).symm
    have quiet : b.instructions.dropLast.findSome? f = none :=
      List.findSome?_eq_none_iff.mpr fun i mem => plain i (straight.plain i mem)
    rw [List.findSome?_append, ih, parts, List.findSome?_append, quiet, List.findSome?_cons,
      List.findSome?_cons]
    cases f b.exit <;> rfl

namespace Listing

variable {l : Listing}

/-- The line and the label at which a listing is refused, if it is. -/
def firstUndefined? (l : Listing) : Option (Nat × Text) :=
  l.instructions.findSome? fun i => (l.undefined? i).map (i.line, ·)

theorem firstUndefined?_eq_some {line : Nat} {label : Text} :
    l.firstUndefined? = some (line, label) ↔ ∃ i, l.FirstUndefined i label ∧ i.line = line := by
  simp only [firstUndefined?, List.findSome?_eq_some_iff, Option.map_eq_some_iff,
    Option.map_eq_none_iff, undefined?_eq_none]
  constructor
  · rintro ⟨before, i, after, split, ⟨_, missing, ⟨⟩⟩, earlier⟩
    obtain ⟨names, undefined, leftmost⟩ := undefined?_eq_some.mp missing
    exact ⟨i, ⟨names, undefined, ⟨before, after, split, earlier⟩, leftmost⟩, rfl⟩
  · rintro ⟨i, ⟨names, undefined, ⟨before, after, split, earlier⟩, leftmost⟩, rfl⟩
    have missing := undefined?_eq_some.mpr ⟨names, undefined, leftmost⟩
    exact ⟨before, i, after, split, ⟨label, missing, rfl⟩, earlier⟩

theorem firstUndefined?_eq_none :
    l.firstUndefined? = none ↔ ∀ i ∈ l.instructions, ∀ x, i.Names x → l.Defined x := by
  simp only [firstUndefined?, List.findSome?_eq_none_iff, Option.map_eq_none_iff, undefined?_eq_none]

end Listing

namespace Program

/-- A flow graph is made unless there is an undefined label. -/
theorem ofListing_eq (name source : Text) (l : Listing) :
    (l.firstUndefined? = none ∧ ∃ p, ofListing name source l = .ok p) ∨
      ∃ line label, l.firstUndefined? = some (line, label) ∧
        ofListing name source l = .error ⟨name, line, .undefinedLabel label⟩ := by
  have laid : Block.Laid l.isLabelled 0 0 l.instructions l.blocks := Block.laid_place _ _ 0 0
  have searched : l.firstUndefined? =
      l.blocks.findSome? fun b => (l.undefined? b.exit).map (b.exit.line, ·) :=
    laid.findSome?_exit fun i plain => by rw [Listing.undefined?_of_plain plain]; rfl
  rw [searched]
  unfold ofListing
  rcases l.directEdges_error l.blocks l.blocks with ⟨direct, made, all⟩ | ⟨⟨line, label⟩, failed, missing⟩
  · exact .inl ⟨all, _, by simp only [made]; rfl⟩
  · exact .inr ⟨line, label, missing, by simp only [failed]⟩

/-- **A listing is refused at its first undefined label, and for nothing else.**

* It is refused exactly when some instruction of it, a branch, a switch or a call, names a label that
  no line defines.
* The refusal is then under the name of the program, at the line of the first such instruction,
  reachable or not, for the first such label among its operands.
* Every other listing has a flow graph. -/
theorem refused_at_first_undefined (name source : Text) (l : Listing) :
    ((∃ e, ofListing name source l = .error e) ↔
      ∃ i ∈ l.instructions, ∃ label, i.Names label ∧ ¬ l.Defined label) ∧
    (∀ e, ofListing name source l = .error e ↔
      ∃ i label, l.FirstUndefined i label ∧ e = ⟨name, i.line, .undefinedLabel label⟩) ∧
    ((∀ i ∈ l.instructions, ∀ label, i.Names label → l.Defined label) →
      ∃ p, ofListing name source l = .ok p) := by
  rcases ofListing_eq name source l with ⟨none, p, made⟩ | ⟨line, label, found, failed⟩
  · have defined := Listing.firstUndefined?_eq_none.mp none
    rw [made]
    refine ⟨⟨nofun, ?_⟩, fun e => ⟨nofun, ?_⟩, fun _ => ⟨p, rfl⟩⟩
    · rintro ⟨i, mem, label, names, undefined⟩
      exact absurd (defined i mem label names) undefined
    · rintro ⟨i, label, first, -⟩
      have found := Listing.firstUndefined?_eq_some.mpr ⟨i, first, rfl⟩
      rw [none] at found
      cases found
  · obtain ⟨i, first, rfl⟩ := Listing.firstUndefined?_eq_some.mp found
    have mem : i ∈ l.instructions := by
      obtain ⟨before, after, split, -⟩ := first.first
      rw [split]
      exact List.mem_append_right _ List.mem_cons_self
    rw [failed]
    refine ⟨⟨fun _ => ⟨i, mem, label, first.names, first.undefined⟩, fun _ => ⟨_, rfl⟩⟩,
      fun e => ⟨?_, ?_⟩, fun defined => ?_⟩
    · rintro ⟨⟩
      exact ⟨i, label, first, rfl⟩
    · rintro ⟨j, label', first', rfl⟩
      -- There is only one first undefined label.
      have again := Listing.firstUndefined?_eq_some.mpr ⟨j, first', rfl⟩
      rw [found] at again
      obtain ⟨line, rfl⟩ := Prod.mk.inj (Option.some.inj again)
      rw [line]
    · exact absurd (defined i mem label first.names) first.undefined

/-- Behind an instruction that ends the program, two undefined labels on one line: the left one counts. -/
example : ofListing [] [] ⟨[⟨Text.ofString "err", .terminal, [], 1⟩,
    ⟨Text.ofString "switch", .switch, [Text.ofString "x", Text.ofString "y", Text.ofString "z"], 2⟩],
    [(Text.ofString "x", 0)], 0⟩ = .error ⟨[], 2, .undefinedLabel (Text.ofString "y")⟩ := by
  decide +kernel

end Program

end TealAudit
