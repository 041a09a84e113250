import Mathlib.Data.List.Forall2
import Mathlib.Data.List.Nodup
import TealAudit.Proofs.LineGrammar

/-!
# What a program is read into

The lines of a program are **well formed** when each follows the grammar of lines and no two define
one label. Reading accepts exactly such programs. The listing it makes is then given by the entries
of the lines, with no mention of the order in which it was put together: the instructions are those
of the entries under their line numbers, a label points behind the instructions of the lines before
its own, and the version is that of the last version pragma.

A program that is refused has a **first violation**: a line that breaks a rule behind lines that are
well formed. Its number, counted from one, and its fault are what is reported.

The step is one line (`SourceLine.Reads.add_eq`, `SourceLine.Violates.add_eq`), the run is
`readFrom_eq` for the lines in front and `readFrom_violates` for the one that is refused.
-/

namespace TealAudit

open SourceLine

/-- **Lines that are a program**: each is well formed, and no two define one label. -/
structure SourceLine.WellFormed (lines : List Text) : Prop where
  valid : ∀ line ∈ lines, ∃ e, Reads line e
  distinct : lines.Pairwise fun a b => ∀ x, Defines a x → ¬ Defines b x

/-- **The first violation of lines**: lines that are well formed, then, as line `n`, one that breaks
a rule. -/
def SourceLine.FirstViolation (lines : List Text) (n : Nat) (fault : Fault) : Prop :=
  ∃ before line after, lines = before ++ line :: after ∧ n = before.length + 1 ∧
    WellFormed before ∧ Violates (fun x => ∃ a ∈ before, Defines a x) line fault

/-- A search that only one element satisfies finds it. -/
theorem find?_eq_of_unique {α : Type} {q : α → Bool} {as : List α} {a : α} (mem : a ∈ as)
    (holds : q a = true) (only : ∀ b ∈ as, q b = true → b = a) : as.find? q = some a := by
  cases found : as.find? q with
  | none => exact absurd holds (List.find?_eq_none.mp found a mem)
  | some b => rw [only b (List.mem_of_find?_eq_some found) (List.find?_some found)]

/-! ## Entries of lines -/

theorem exists_forall₂ {α β : Type} {r : α → β → Prop} {as : List α}
    (some : ∀ a ∈ as, ∃ b, r a b) : ∃ bs, List.Forall₂ r as bs := by
  induction as with
  | nil => exact ⟨[], .nil⟩
  | cons a as ih =>
    obtain ⟨b, head⟩ := some a List.mem_cons_self
    obtain ⟨bs, tail⟩ := ih fun other mem => some other (List.mem_cons_of_mem _ mem)
    exact ⟨b :: bs, .cons head tail⟩

theorem SourceLine.exists_entries {lines : List Text} (valid : ∀ line ∈ lines, ∃ e, Reads line e) :
    ∃ entries, List.Forall₂ Reads lines entries :=
  exists_forall₂ valid

theorem SourceLine.exists_line {lines : List Text} {entries : List LineEntry} {e : LineEntry}
    (reads : List.Forall₂ Reads lines entries) (mem : e ∈ entries) :
    ∃ line ∈ lines, Reads line e := by
  induction reads with
  | nil => exact (List.not_mem_nil mem).elim
  | cons head _ ih =>
    rcases List.mem_cons.mp mem with rfl | mem
    · exact ⟨_, List.mem_cons_self, head⟩
    · obtain ⟨line, mem, reads⟩ := ih mem
      exact ⟨line, List.mem_cons_of_mem _ mem, reads⟩

/-- The labels of the entries are the labels that the lines define. -/
theorem SourceLine.exists_label_iff {lines : List Text} {entries : List LineEntry}
    (reads : List.Forall₂ Reads lines entries) {x : Text} :
    (∃ e ∈ entries, e.label = some x) ↔ ∃ line ∈ lines, Defines line x := by
  induction reads with
  | nil => simp
  | cons head _ ih => simp only [List.exists_mem_cons_iff, ih, head.label_eq_some_iff]

/-- Lines that define different labels have entries with different labels. -/
theorem SourceLine.nodup_labels {lines : List Text} {entries : List LineEntry}
    (reads : List.Forall₂ Reads lines entries)
    (distinct : lines.Pairwise fun a b => ∀ x, Defines a x → ¬ Defines b x) :
    (entries.filterMap (·.label)).Nodup := by
  induction reads with
  | nil => exact .nil
  | @cons line e lines entries head tail ih =>
    obtain ⟨apart, distinct⟩ := List.pairwise_cons.mp distinct
    rw [List.filterMap_cons]
    cases label : e.label with
    | none => exact ih distinct
    | some x =>
      refine List.nodup_cons.mpr ⟨fun again => ?_, ih distinct⟩
      obtain ⟨other, mem, defined⟩ := (exists_label_iff tail).mp (List.mem_filterMap.mp again)
      exact apart other mem x (head.label_eq_some_iff.mp label) defined

theorem SourceLine.entries_unique {lines : List Text} {entries entries' : List LineEntry}
    (reads : List.Forall₂ Reads lines entries) (reads' : List.Forall₂ Reads lines entries') :
    entries = entries' := by
  induction reads generalizing entries' with
  | nil => cases reads'; rfl
  | cons head _ ih =>
    cases reads' with
    | cons head' tail' => rw [head.unique head', ih tail']

namespace Listing

variable {l : Listing} {n : Nat}

/-! ## Labels of a listing -/

theorem defines_iff {x : Text} : l.defines x = true ↔ x ∈ l.labels.map (·.1) := by
  simp [defines]

theorem not_defines_nothing (x : Text) : ¬ ({} : Listing).defines x = true := by
  simp [defines]

/-- With labels of different names, a label is found where it stands. -/
theorem position?_eq_some_iff (nodup : (l.labels.map (·.1)).Nodup) {x : Text} {k : Nat} :
    l.position? x = some k ↔ (x, k) ∈ l.labels := by
  unfold position?
  constructor
  · intro h
    obtain ⟨entry, found, rfl⟩ := Option.map_eq_some_iff.mp h
    have name : entry.1 = x := by simpa using List.find?_some found
    exact name ▸ List.mem_of_find?_eq_some found
  · intro mem
    rw [find?_eq_of_unique mem (by simp) fun entry other name => ?_, Option.map_some]
    exact List.inj_on_of_nodup_map nodup other mem (by simpa using name)

theorem defines_extend {e : LineEntry} {x : Text} :
    (l.extend n e).defines x = true ↔ l.defines x = true ∨ e.label = some x := by
  rw [defines_iff, defines_iff, extend, List.map_append, List.mem_append]
  cases label : e.label with
  | none => simp
  | some y => simp [eq_comm]

/-! ## Runs -/

/-- A listing with the entries of the lines from `n` on added. -/
def extendAll (l : Listing) (n : Nat) : List LineEntry → Listing
  | [] => l
  | e :: rest => (l.extend n e).extendAll (n + 1) rest

theorem labels_extendAll (entries : List LineEntry) : ∀ (l : Listing) (n : Nat),
    (l.extendAll n entries).labels.map (·.1) = l.labels.map (·.1) ++ entries.filterMap (·.label) := by
  induction entries with
  | nil => intro l n; simp [extendAll]
  | cons e rest ih =>
    intro l n
    rw [extendAll, ih, List.filterMap_cons]
    cases h : e.label <;> simp [extend, h]

/-- **Well-formed lines are read to the end**, each adding its entry. -/
theorem readFrom_eq {lines : List Text} {entries : List LineEntry}
    (reads : List.Forall₂ Reads lines entries) : ∀ {l : Listing} {n : Nat},
    lines.Pairwise (fun a b => ∀ x, Defines a x → ¬ Defines b x) →
    (∀ line ∈ lines, ∀ x, Defines line x → ¬ l.defines x = true) →
    l.readFrom n lines = .ok (l.extendAll n entries) := by
  induction reads with
  | nil => intro l n _ _; rfl
  | @cons line e lines entries head _ ih =>
    intro l n distinct fresh
    obtain ⟨apart, distinct⟩ := List.pairwise_cons.mp distinct
    have new : ∀ x ∈ e.label, ¬ l.defines x = true := fun x hx =>
      fresh line List.mem_cons_self x (head.label_eq_some_iff.mp hx)
    rw [readFrom, head.add_eq new]
    refine ih distinct fun other mem x defined taken => ?_
    rcases defines_extend.mp taken with old | label
    · exact fresh other (List.mem_cons_of_mem _ mem) x defined old
    · exact apart other mem x (head.label_eq_some_iff.mp label) defined

theorem readFrom_append {before : List Text} (rest : List Text) : ∀ {l l' : Listing} {n : Nat},
    l.readFrom n before = .ok l' →
    l.readFrom n (before ++ rest) = l'.readFrom (n + before.length) rest := by
  induction before with
  | nil =>
    intro l l' n h
    cases h
    rfl
  | cons line before ih =>
    intro l l' n h
    rw [readFrom] at h
    rw [List.cons_append, readFrom]
    cases step : SourceLine.read line >>= l.add n with
    | error fault => rw [step] at h; cases h
    | ok next =>
      rw [step] at h
      simp only
      rw [ih h, List.length_cons, Nat.add_assoc, Nat.add_comm 1]

/-- **A violation behind well-formed lines ends the reading.** -/
theorem readFrom_violates {lines : List Text} {fault : Fault}
    (h : FirstViolation lines n fault) : readFrom {} 1 lines = .error (n, fault) := by
  obtain ⟨before, line, after, rfl, rfl, wellFormed, violates⟩ := h
  obtain ⟨entries, reads⟩ := exists_entries wellFormed.valid
  have front : readFrom {} 1 before = .ok (extendAll {} 1 entries) :=
    readFrom_eq reads wellFormed.distinct fun _ _ x _ => not_defines_nothing x
  have taken : (fun x => ∃ a ∈ before, Defines a x) =
      fun x => (extendAll {} 1 entries).defines x = true := by
    funext x
    rw [defines_iff, labels_extendAll, List.mem_append, List.mem_filterMap,
      exists_label_iff reads]
    simp
  rw [taken] at violates
  rw [readFrom_append _ front, readFrom, violates.add_eq, Nat.add_comm before.length]

/-- Lines are well formed or have a first violation. -/
theorem wellFormed_or_violation (lines : List Text) :
    WellFormed lines ∨ ∃ n fault, FirstViolation lines n fault := by
  -- From behind, since the labels that a line may not define are those of the lines in front of it.
  induction lines using List.reverseRecOn with
  | nil => exact .inl ⟨fun _ h => (List.not_mem_nil h).elim, .nil⟩
  | append_singleton before line ih =>
    rcases ih with wellFormed | ⟨n, fault, front, bad, after, rfl, violation⟩
    · rcases reads_or_violates (fun x => ∃ a ∈ before, Defines a x) line with
        ⟨e, reads, fresh⟩ | ⟨fault, violates⟩
      · refine .inl ⟨fun other mem => ?_, ?_⟩
        · rcases List.mem_append.mp mem with mem | mem
          · exact wellFormed.valid other mem
          · rw [List.mem_singleton.mp mem]
            exact ⟨e, reads⟩
        · refine List.pairwise_append.mpr ⟨wellFormed.distinct, List.pairwise_singleton _ _, ?_⟩
          intro a mem b last x defined
          rw [List.mem_singleton.mp last]
          exact fun again => fresh x (reads.label_eq_some_iff.mpr again) ⟨a, mem, defined⟩
      · exact .inr ⟨_, fault, before, line, [], rfl, rfl, wellFormed, violates⟩
    · refine .inr ⟨n, fault, front, bad, after ++ [line], ?_, violation⟩
      rw [List.append_assoc, List.cons_append]

/-! ## The listing in terms of entries -/

theorem instructions_extendAll (entries : List LineEntry) : ∀ (l : Listing) (n : Nat),
    (l.extendAll n entries).instructions = l.instructions ++
      (entries.zipIdx n).filterMap fun e => e.1.instruction.map (Instruction.ofOperation e.2) := by
  induction entries with
  | nil => intro l n; simp [extendAll]
  | cons e rest ih =>
    intro l n
    rw [extendAll, ih, List.zipIdx_cons, List.filterMap_cons]
    cases h : e.instruction <;> simp [extend, h]

theorem version_extendAll (entries : List LineEntry) : ∀ (l : Listing) (n : Nat),
    (l.extendAll n entries).version =
      (entries.filterMap (·.version)).getLast?.getD l.version := by
  induction entries with
  | nil => intro l n; simp [extendAll]
  | cons e rest ih =>
    intro l n
    rw [extendAll, ih, List.filterMap_cons]
    cases h : e.version <;> simp [extend, h, List.getLast?_cons]

theorem length_instructions_extend (l : Listing) (n : Nat) (e : LineEntry) :
    (l.extend n e).instructions.length =
      l.instructions.length + if e.instruction.isSome then 1 else 0 := by
  cases h : e.instruction <;> simp [extend, h]

/-- A label stands behind the instructions of the entries before its own. -/
theorem mem_labels_extendAll {x : Text} {k : Nat} (entries : List LineEntry) :
    ∀ (l : Listing) (n : Nat), (x, k) ∈ (l.extendAll n entries).labels ↔
      (x, k) ∈ l.labels ∨ ∃ i e, entries[i]? = some e ∧ e.label = some x ∧
        k = l.instructions.length + (entries.take i).countP (·.instruction.isSome) := by
  induction entries with
  | nil => intro l n; simp [extendAll]
  | cons e rest ih =>
    intro l n
    have first : (x, k) ∈ (l.extend n e).labels ↔
        (x, k) ∈ l.labels ∨ e.label = some x ∧ k = l.instructions.length := by
      rw [extend, List.mem_append]
      cases label : e.label with
      | none => simp
      | some y => simp [eq_comm]
    rw [extendAll, ih, first, length_instructions_extend, or_assoc]
    refine or_congr_right ⟨?_, ?_⟩
    · rintro (⟨label, rfl⟩ | ⟨i, other, at_i, label, rfl⟩)
      · exact ⟨0, e, rfl, label, by simp⟩
      · refine ⟨i + 1, other, at_i, label, ?_⟩
        rw [List.take_succ_cons, List.countP_cons]
        omega
    · rintro ⟨i, other, at_i, label, rfl⟩
      cases i with
      | zero =>
        cases at_i
        exact .inl ⟨label, by simp⟩
      | succ i =>
        refine .inr ⟨i, other, at_i, label, ?_⟩
        rw [List.take_succ_cons, List.countP_cons]
        omega

/-! ## Programs -/

variable {file source : Text}

theorem parse_eq_ok {entries : List LineEntry} (wellFormed : WellFormed source.lines)
    (reads : List.Forall₂ Reads source.lines entries) :
    parse file source = .ok (extendAll {} 1 entries) := by
  rw [parse, readFrom_eq reads wellFormed.distinct fun _ _ x _ => not_defines_nothing x]

theorem parse_eq_error {fault : Fault} (h : FirstViolation source.lines n fault) :
    parse file source = .error ⟨file, n, fault⟩ := by
  rw [parse, readFrom_violates h]

/-- A program that is read is well formed, and its listing is that of its entries. -/
theorem wellFormed_of_parse (h : parse file source = .ok l) : WellFormed source.lines ∧
    ∃ entries, List.Forall₂ Reads source.lines entries ∧ l = extendAll {} 1 entries := by
  rcases wellFormed_or_violation source.lines with wellFormed | ⟨n, fault, violation⟩
  · obtain ⟨entries, reads⟩ := exists_entries wellFormed.valid
    rw [parse_eq_ok wellFormed reads] at h
    cases h
    exact ⟨wellFormed, entries, reads, rfl⟩
  · rw [parse_eq_error violation] at h
    cases h

/-- **What holds of every listing that is read**: instructions on ascending lines, labels of
different names, and known operations with as many operands as they take. -/
structure Sound (l : Listing) : Prop where
  ascending : l.instructions.Pairwise fun i j => i.line < j.line
  labels : (l.labels.map (·.1)).Nodup
  operations : ∀ i ∈ l.instructions, ∃ op ∈ Opcode.table, op.name = i.name ∧ op.flow = i.flow ∧
    op.arity.Admits i.operands.length

theorem pairwise_lines (entries : List LineEntry) (n : Nat) :
    ((entries.zipIdx n).filterMap fun e =>
      e.1.instruction.map (Instruction.ofOperation e.2)).Pairwise fun i j => i.line < j.line := by
  have numbers : (entries.zipIdx n).Pairwise fun a b => a.2 < b.2 := by
    rw [← List.pairwise_map (f := Prod.snd), List.zipIdx_map_snd]
    exact List.pairwise_lt_range'
  refine numbers.filterMap _ fun a b lt i hi j hj => ?_
  obtain ⟨_, _, rfl⟩ := Option.map_eq_some_iff.mp hi
  obtain ⟨_, _, rfl⟩ := Option.map_eq_some_iff.mp hj
  exact lt

theorem sound_of_parse (h : parse file source = .ok l) : l.Sound := by
  obtain ⟨wellFormed, entries, reads, rfl⟩ := wellFormed_of_parse h
  have instructions : (extendAll {} 1 entries).instructions = (entries.zipIdx 1).filterMap
      fun e => e.1.instruction.map (Instruction.ofOperation e.2) :=
    instructions_extendAll entries {} 1
  refine ⟨?_, ?_, fun i mem => ?_⟩
  · rw [instructions]
    exact pairwise_lines entries 1
  · rw [labels_extendAll]
    exact nodup_labels reads wellFormed.distinct
  · rw [instructions] at mem
    obtain ⟨⟨e, k⟩, entry, eq⟩ := List.mem_filterMap.mp mem
    obtain ⟨operation, some, rfl⟩ := Option.map_eq_some_iff.mp eq
    obtain ⟨line, _, line_reads⟩ := exists_line reads (List.fst_mem_of_mem_zipIdx entry)
    obtain ⟨known, within⟩ := line_reads.operation_mem some
    exact ⟨operation.1, known, rfl, rfl, within⟩

/-- **Reading accepts the well-formed programs and reports the first violation of the others.**

* A program is read when each of its lines follows the grammar and no label is defined twice, and
  not otherwise.
* The instructions of its listing are those of the lines in their order, under the numbers of the
  lines, which ascend; a label points behind the instructions of the lines before its own; and the
  version is that of the last version pragma, or zero.
* A program that is refused is refused for its first violation: under its name, at the number of the
  line that breaks a rule, with the fault of that line. -/
theorem parse_follows_grammar (file source : Text) :
    ((∃ l, parse file source = .ok l) ↔ WellFormed source.lines) ∧
    (∀ l entries, parse file source = .ok l → List.Forall₂ Reads source.lines entries →
      l.instructions = (entries.zipIdx 1).filterMap (fun e =>
        e.1.instruction.map (Instruction.ofOperation e.2)) ∧
      l.instructions.Pairwise (fun i j => i.line < j.line) ∧
      (∀ x k, l.position? x = some k ↔ ∃ i e, entries[i]? = some e ∧ e.label = some x ∧
        k = (entries.take i).countP (·.instruction.isSome)) ∧
      l.version = (entries.filterMap (·.version)).getLast?.getD 0) ∧
    (∀ e, parse file source = .error e ↔
      e.file = file ∧ FirstViolation source.lines e.line e.fault) := by
  refine ⟨⟨fun ⟨l, ok⟩ => (wellFormed_of_parse ok).1, fun wellFormed => ?_⟩,
    fun l entries ok reads => ?_, fun e => ⟨fun refused => ?_, fun ⟨name, violation⟩ => ?_⟩⟩
  · obtain ⟨entries, reads⟩ := exists_entries wellFormed.valid
    exact ⟨_, parse_eq_ok wellFormed reads⟩
  · have sound := sound_of_parse ok
    obtain ⟨wellFormed, entries', reads', rfl⟩ := wellFormed_of_parse ok
    cases entries_unique reads reads'
    refine ⟨instructions_extendAll entries {} 1, sound.ascending, fun x k => ?_,
      version_extendAll entries {} 1⟩
    rw [position?_eq_some_iff sound.labels, mem_labels_extendAll]
    simp
  · rcases wellFormed_or_violation source.lines with wellFormed | ⟨n, fault, violation⟩
    · obtain ⟨entries, reads⟩ := exists_entries wellFormed.valid
      rw [parse_eq_ok wellFormed reads] at refused
      cases refused
    · rw [parse_eq_error violation] at refused
      cases refused
      exact ⟨rfl, violation⟩
  · rw [parse_eq_error violation, ← name]

/-- A program of two lines, a labelled branch and a version: its label points at its first
instruction. -/
theorem parse_follows_grammar_branch :
    ∃ l, parse (Text.ofString "a.teal") (Text.ofString "x: b x\n#pragma version 8") = .ok l ∧
      l.position? (Text.ofString "x") = some 0 ∧ l.version = 8 := by
  have lines : Text.lines (Text.ofString "x: b x\n#pragma version 8") =
      [Text.ofString "x: b x", Text.ofString "#pragma version 8"] := by decide +kernel
  obtain ⟨accepts, contents, _⟩ := parse_follows_grammar (Text.ofString "a.teal")
    (Text.ofString "x: b x\n#pragma version 8")
  rw [lines] at accepts contents
  have plain : ¬ IsPragma (Text.ofString "x: b x") := by unfold IsPragma; decide +kernel
  have labelled : Labelled (words (Text.ofString "x: b x")) (some (Text.ofString "x"))
      [Text.ofString "b", Text.ofString "x"] := by
    have words : words (Text.ofString "x: b x") = (Text.ofString "x" ++ Text.ofString ":") ::
        [Text.ofString "b", Text.ofString "x"] := by decide +kernel
    rw [words]
    exact .label (by decide)
  have known : Opcode.find? (Text.ofString "b") = some ⟨Text.ofString "b", .branch, .exactly 1⟩ := by
    decide +kernel
  have code := Reads.code plain labelled
    (.operation known (by simp [Arity.Admits, Arity.exactly]))
  have pragma : IsPragma (Text.ofString "#pragma version 8") := by unfold IsPragma; decide +kernel
  have marked : words (Text.ofString "#pragma version 8") =
      [Text.ofString "#pragma", Text.ofString "version", Text.ofString "8"] := by decide +kernel
  have version := Reads.version pragma marked (by unfold IsVersion; decide +kernel)
  have wellFormed : WellFormed [Text.ofString "x: b x", Text.ofString "#pragma version 8"] := by
    refine ⟨by simpa using ⟨⟨_, code⟩, _, version⟩, List.pairwise_pair.mpr ?_⟩
    exact fun x _ again => again.1 pragma
  obtain ⟨l, ok⟩ := accepts.mpr wellFormed
  obtain ⟨_, _, labels, last⟩ := contents l _ ok (.cons code (.cons version .nil))
  exact ⟨l, ok, (labels _ _).mpr ⟨0, _, rfl, rfl, rfl⟩, last⟩

end Listing

end TealAudit
