import TealAudit.Proofs.Reading
import TealAudit.Proofs.Rows

/-!
# Printing a listing

A listing is printed as a version pragma and then, instruction by instruction, the labels that point
at it and the instruction itself, each on a row of its own (`Listing.print`); labels at one place
stand in any order. **Reading the print gives the listing back**, but for the numbers of lines
(`Listing.parse_print`).

What makes this work is what reading leaves in a listing: the name and the operands of an
instruction are a chain of fields, a label is a field that can stand alone at the start of a line,
and neither holds a line feed (`Listing.Writable`). Each row then reads as the entry it was printed
from, and the entries add up to the listing.
-/

namespace TealAudit

open SourceLine

/-! ## What is printed -/

/-- Whether the last operand of an instruction, if it has any, does not end in white space. -/
def Instruction.Tight (i : Instruction) : Prop :=
  ∀ v ∈ i.operands.getLast?, ∀ p ∈ v.points.getLast?, p.isBlank = false

namespace Listing

/-- **An order of the labels** of a listing: for each place the labels that point there, each once. -/
structure Arranges (l : Listing) (names : Nat → List Text) : Prop where
  nodup : ∀ k, (names k).Nodup
  mem_iff : ∀ k x, x ∈ names k ↔ l.position? x = some k

/-- The row that defines a label. -/
def labelRow (x : Text) : Text := x ++ Text.ofString ":"

/-- The rows of instructions from place `k` on, behind the labels that point at them, and the labels
that point behind the last. -/
def rowsFrom (names : Nat → List Text) (k : Nat) : List Instruction → List Text
  | [] => (names k).map labelRow
  | i :: rest => (names k).map labelRow ++ i.text :: rowsFrom names (k + 1) rest

/-- **The print of a listing** with its labels in a given order. -/
def print (l : Listing) (names : Nat → List Text) : Text :=
  Text.ofRows (pragmaRow l.version :: rowsFrom names 0 l.instructions)

/-! ## What reading leaves in a listing -/

/-- A text that can be defined as a label. -/
structure IsLabel (x : Text) : Prop where
  nonempty : x ≠ []
  chain : Fields.Chain false [labelRow x]
  row : Text.IsRow (labelRow x)
  plain : ¬ pragmaMark <+: labelRow x

/-- An instruction that can be written on a row of its own, white space behind it aside. -/
structure IsWritten (i : Instruction) : Prop where
  known : ∃ op, Opcode.find? i.name = some op ∧ op.flow = i.flow ∧
    op.arity.Admits i.operands.length
  chain : Fields.Chain false (i.name :: i.operands)
  single : ∀ v ∈ i.operands, Text.byte '\n' ∉ v

/-- **A listing that can be printed.** -/
structure Writable (l : Listing) : Prop where
  instructions : ∀ i ∈ l.instructions, IsWritten i
  labels : ∀ x k, (x, k) ∈ l.labels → IsLabel x ∧ k ≤ l.instructions.length
  version : l.version < 2 ^ 64

end Listing

open Listing

namespace SourceLine

variable {line : Text} {e : LineEntry}

theorem chain_words (line : Text) : Fields.Chain false (words line) :=
  (Fields.cut_scan false line.trim).chain

theorem mem_of_mem_words {v : Text} (mem : v ∈ words line) {b : UInt8} (inside : b ∈ v) :
    b ∈ line :=
  Text.mem_of_mem_trim ((Fields.cut_scan false line.trim).mem mem b inside)

theorem announcesCode_labelRow (x : Text) : Fields.announcesCode (labelRow x) = false := by
  have other {w : Text} (last : ¬ Text.ofString ":" <:+ w) : labelRow x ≠ w := by
    rintro rfl
    exact last (List.suffix_append _ _)
  simp [Fields.announcesCode, other (w := Text.ofString "base64") (by decide),
    other (w := Text.ofString "b64") (by decide)]

/-- A label in front does not change how the fields behind it are told. -/
theorem Labelled.chain {ws body : List Text} {label : Option Text} (h : Labelled ws label body)
    (chain : Fields.Chain false ws) : Fields.Chain false body := by
  cases h with
  | bare _ => exact chain
  | @label name _ _ =>
    cases chain with
    | cons _ _ _ rest =>
      change Fields.Chain (Fields.announcesCode (labelRow name)) body at rest
      rwa [announcesCode_labelRow] at rest

theorem Labelled.body_subset {ws body : List Text} {label : Option Text} (h : Labelled ws label body) :
    body ⊆ ws := by
  cases h with
  | bare _ => exact List.Subset.refl _
  | label _ => exact List.subset_cons_self _ _

theorem Reads.isWritten (reads : Reads line e) (single : Text.byte '\n' ∉ line)
    {operation : Opcode × List Text} (mem : e.instruction = some operation) (n : Nat) :
    IsWritten (Instruction.ofOperation n operation) := by
  cases reads with
  | idle _ => cases mem
  | hint _ _ _ => cases mem
  | version _ _ _ => cases mem
  | code _ labelled spells =>
    cases mem
    cases spells with
    | @operation name op operands found within =>
      obtain ⟨_, named⟩ := Opcode.eq_of_find? found
      subst named
      refine ⟨⟨op, found, rfl, within⟩, labelled.chain (chain_words line), fun v operand feed => ?_⟩
      exact single (mem_of_mem_words (labelled.body_subset (List.mem_cons_of_mem _ operand)) feed)

theorem points_labelRow (x : Text) : (labelRow x).points = x.points ++ [.scalar ':'] :=
  Text.points_append x (Text.boundary_cons (by decide) [])

/-- A label that a line defines stands at the start of the line, and can stand there alone. -/
theorem Defines.isLabel {x : Text} (defined : Defines line x) (single : Text.byte '\n' ∉ line) :
    IsLabel x := by
  obtain ⟨plain, body, labelled⟩ := defined
  obtain ⟨nonempty, fields⟩ : x ≠ [] ∧ words line = labelRow x :: body := by
    generalize words line = ws at labelled
    cases labelled with
    | label nonempty => exact ⟨nonempty, rfl⟩
  obtain ⟨rest, start, boundary⟩ :=
    (Fields.cut_scan false line.trim).first (Fields.not_isGap_of_trim line) fields
  refine ⟨nonempty, ?_, ⟨?_, ?_, ?_⟩, fun mark => plain (mark.trans ⟨rest, start.symm⟩)⟩
  · have chain := chain_words line
    rw [fields] at chain
    cases chain with
    | cons nonempty holds _ _ => exact .cons nonempty holds (fun _ => rfl) .nil
  · exact fun feed => single (mem_of_mem_words (fields ▸ List.mem_cons_self) feed)
  · have dark := Text.head?_points_trim line
    rw [start, Text.points_append _ boundary, List.head?_append_of_ne_nil] at dark
    · exact dark
    · simp [points_labelRow]
  · intro p last
    rw [points_labelRow, List.getLast?_concat] at last
    cases last
    decide

theorem Reads.version_lt (reads : Reads line e) {v : Nat} (mem : e.version = some v) : v < 2 ^ 64 := by
  cases reads with
  | idle _ => cases mem
  | hint _ _ _ => cases mem
  | version _ _ version =>
    cases mem
    exact version.2.2
  | code _ _ _ => cases mem

end SourceLine

namespace Listing

theorem length_instructions_extendAll (entries : List LineEntry) : ∀ (l : Listing) (n : Nat),
    (l.extendAll n entries).instructions.length =
      l.instructions.length + entries.countP (·.instruction.isSome) := by
  induction entries with
  | nil => exact fun _ _ => rfl
  | cons e rest ih =>
    intro l n
    rw [extendAll, ih, length_instructions_extend, List.countP_cons]
    omega

/-- **A listing that was read can be printed.** -/
theorem writable_of_parse {file source : Text} {l : Listing} (read : parse file source = .ok l) :
    l.Writable := by
  obtain ⟨_, entries, reads, rfl⟩ := wellFormed_of_parse read
  -- Whatever a listing holds comes from an entry, and the entry from a line without a line feed.
  have origin {e : LineEntry} (mem : e ∈ entries) : ∃ line, Reads line e ∧ Text.byte '\n' ∉ line := by
    obtain ⟨line, inside, reads⟩ := exists_line reads mem
    exact ⟨line, reads, Text.not_mem_of_mem_lines inside⟩
  refine ⟨fun i mem => ?_, fun x k mem => ?_, ?_⟩
  · rw [instructions_extendAll, List.nil_append] at mem
    obtain ⟨⟨e, n⟩, entry, made⟩ := List.mem_filterMap.mp mem
    obtain ⟨operation, some, rfl⟩ := Option.map_eq_some_iff.mp made
    obtain ⟨line, reads, single⟩ := origin (List.fst_mem_of_mem_zipIdx entry)
    exact reads.isWritten single some n
  · rcases (mem_labels_extendAll entries {} 1).mp mem with none | ⟨i, e, place, label, rfl⟩
    · cases none
    · obtain ⟨line, reads, single⟩ := origin (List.mem_of_getElem? place)
      refine ⟨(reads.label_eq_some_iff.mp label).isLabel single, ?_⟩
      rw [length_instructions_extendAll]
      exact Nat.add_le_add_left (List.take_sublist i entries).countP_le _
  · rw [version_extendAll]
    cases last : (entries.filterMap (·.version)).getLast? with
    | none => decide
    | some v =>
      obtain ⟨e, entry, version⟩ := List.mem_filterMap.mp (List.mem_of_getLast? last)
      obtain ⟨line, reads, _⟩ := origin entry
      exact reads.version_lt version

end Listing

/-! ## Rows and their entries -/

namespace SourceLine

/-- **A label is read as it is written.** -/
theorem reads_labelRow {x : Text} (h : IsLabel x) : Reads (labelRow x) { label := some x } := by
  have plain : ¬ IsPragma (labelRow x) := by
    rw [IsPragma, h.row.trim_eq]
    exact h.plain
  have alone : Text.join (Text.ofString " ") [labelRow x] = labelRow x := by rw [Text.join]
  have fields := words_join h.chain (alone ▸ h.row)
  rw [alone] at fields
  refine .code plain ?_ .nothing
  rw [fields]
  exact .label h.nonempty

theorem isRow_text {i : Instruction} (written : IsWritten i) (tight : i.Tight) :
    Text.IsRow i.text := by
  obtain ⟨op, found, _, _⟩ := written.known
  obtain ⟨known, named⟩ := Opcode.eq_of_find? found
  have name : Text.IsRow i.name := named ▸ Text.isRow_of_visible (Opcode.isName known).visible
  refine Text.isRow_join written.chain.ne_nil
    (List.forall_mem_cons.mpr ⟨name.single, written.single⟩) name.start ?_
  intro p last
  cases operands : i.operands with
  | nil =>
    simp only [operands] at last
    exact name.last p last
  | cons v vs =>
    simp only [operands] at last
    refine tight ((v :: vs).getLast (List.cons_ne_nil _ _)) ?_ p last
    rw [operands]
    exact List.getLast?_eq_some_getLast _

/-- **An instruction is read as it is written.** -/
theorem reads_text {i : Instruction} (written : IsWritten i) (tight : i.Tight) :
    ∃ op, Reads i.text { instruction := some (op, i.operands) } ∧ op.name = i.name ∧
      op.flow = i.flow := by
  obtain ⟨op, found, flow, within⟩ := written.known
  obtain ⟨known, named⟩ := Opcode.eq_of_find? found
  have name := Opcode.isName known
  have row := isRow_text written tight
  have plain : ¬ IsPragma i.text := by
    rw [IsPragma, row.trim_eq, pragmaMark_eq]
    rintro ⟨rest, mark⟩
    obtain ⟨behind, text⟩ := Text.exists_join_eq i.name i.operands
    have first := congrArg List.head? (mark.trans text)
    rw [← named, List.head?_append_of_ne_nil _ name.nonempty] at first
    exact name.noMark first.symm
  have fields : words i.text = i.name :: i.operands := words_join written.chain row
  have labelled : Labelled (words i.text) none (i.name :: i.operands) := by
    rw [fields]
    refine .bare fun label _ first => ?_
    exact name.ne_label label (named.trans (Option.some.inj first))
  exact ⟨op, .code plain labelled (.operation found within), named, flow⟩

/-- Lines whose entries have different labels are a program. -/
theorem wellFormed_of_nodup {lines : List Text} {entries : List LineEntry}
    (reads : List.Forall₂ Reads lines entries) (nodup : (entries.filterMap (·.label)).Nodup) :
    WellFormed lines := by
  induction reads with
  | nil => exact ⟨fun _ mem => (List.not_mem_nil mem).elim, .nil⟩
  | @cons line e lines entries head tail ih =>
    have more : (entries.filterMap (·.label)).Nodup :=
      nodup.sublist ((List.sublist_cons_self e entries).filterMap _)
    obtain ⟨valid, distinct⟩ := ih more
    refine ⟨List.forall_mem_cons.mpr ⟨⟨e, head⟩, valid⟩, List.pairwise_cons.mpr ⟨?_, distinct⟩⟩
    intro other mem x defined again
    rw [List.filterMap_cons, head.label_eq_some_iff.mpr defined, List.nodup_cons] at nodup
    apply nodup.1
    exact List.mem_filterMap.mpr ((exists_label_iff tail).mpr ⟨other, mem, again⟩)

end SourceLine

namespace Listing

variable {names : Nat → List Text} {l : Listing}

/-- The entry of a row that defines a label. -/
def labelEntry (x : Text) : LineEntry := { label := some x }

/-- The entries of the rows of operations from place `k` on. -/
def entriesFrom (names : Nat → List Text) (k : Nat) : List (Opcode × List Text) → List LineEntry
  | [] => (names k).map labelEntry
  | o :: rest =>
    (names k).map labelEntry ++ { instruction := some o } :: entriesFrom names (k + 1) rest

theorem reads_rowsFrom {instructions : List Instruction} {operations : List (Opcode × List Text)}
    (labels : ∀ k, ∀ x ∈ names k, IsLabel x)
    (rows : List.Forall₂ (fun i o => Reads i.text { instruction := some o }) instructions operations) :
    ∀ k, List.Forall₂ Reads (rowsFrom names k instructions) (entriesFrom names k operations) := by
  have front (k : Nat) :
      List.Forall₂ Reads ((names k).map labelRow) ((names k).map labelEntry) := by
    rw [List.forall₂_map_left_iff, List.forall₂_map_right_iff, List.forall₂_same]
    exact fun x mem => reads_labelRow (labels k x mem)
  induction rows with
  | nil => exact front
  | cons head _ ih => exact fun k => List.rel_append (front k) (.cons head (ih (k + 1)))

/-- What entries hold beside labels, they hold in the rows of operations. -/
theorem filterMap_entriesFrom {α : Type} {f : LineEntry → Option α}
    (none : ∀ x, f (labelEntry x) = none) (operations : List (Opcode × List Text)) : ∀ k,
    (entriesFrom names k operations).filterMap f =
      operations.filterMap fun o => f { instruction := some o } := by
  have front (k : Nat) : ((names k).map labelEntry).filterMap f = [] := by
    rw [List.filterMap_map, List.filterMap_eq_nil_iff]
    exact fun x _ => none x
  induction operations with
  | nil => exact front
  | cons o rest ih =>
    intro k
    rw [entriesFrom, List.filterMap_append, front, List.nil_append, List.filterMap_cons,
      List.filterMap_cons, ih]

theorem extendAll_append (before : List LineEntry) : ∀ (l : Listing) (n : Nat) (after : List LineEntry),
    l.extendAll n (before ++ after) = (l.extendAll n before).extendAll (n + before.length) after := by
  induction before with
  | nil => exact fun _ _ _ => rfl
  | cons e before ih =>
    intro l n after
    rw [List.cons_append, extendAll, ih, extendAll, List.length_cons, Nat.add_assoc, Nat.add_comm 1]

theorem extendAll_labels (xs : List Text) : ∀ (l : Listing) (n : Nat),
    l.extendAll n (xs.map labelEntry) =
      { l with labels := l.labels ++ xs.map (·, l.instructions.length) } := by
  induction xs with
  | nil => intro l n; simp [extendAll]
  | cons x xs ih =>
    intro l n
    rw [List.map_cons, extendAll, ih]
    simp [extend, labelEntry]

/-- The labels that the entries add, at the places where they stand. -/
theorem labels_entriesFrom (operations : List (Opcode × List Text)) :
    ∀ (l : Listing) (n : Nat) {k : Nat}, l.instructions.length = k →
    (l.extendAll n (entriesFrom names k operations)).labels =
      l.labels ++ (List.range' k (operations.length + 1)).flatMap fun j => (names j).map (·, j) := by
  induction operations with
  | nil =>
    rintro l n k rfl
    rw [entriesFrom, extendAll_labels]
    simp
  | cons o rest ih =>
    rintro l n k rfl
    rw [entriesFrom, extendAll_append, extendAll_labels, extendAll, ih _ _ (by simp [extend])]
    simp [extend, List.range'_succ]

/-- Each operation of the entries adds an instruction. -/
theorem forall₂_operations (entries : List LineEntry) : ∀ n : Nat,
    List.Forall₂ (fun i o => ∃ k, i = Instruction.ofOperation k o)
      ((entries.zipIdx n).filterMap fun e => e.1.instruction.map (Instruction.ofOperation e.2))
      (entries.filterMap (·.instruction)) := by
  induction entries with
  | nil => exact fun _ => .nil
  | cons e rest ih =>
    intro n
    rw [List.zipIdx_cons, List.filterMap_cons, List.filterMap_cons]
    cases e.instruction with
    | none => exact ih (n + 1)
    | some o => exact .cons ⟨n, rfl⟩ (ih (n + 1))

/-! ## The print is read back -/

/-- Instructions that differ in nothing but their lines. -/
structure SameCode (i j : Instruction) : Prop where
  name : i.name = j.name
  flow : i.flow = j.flow
  operands : i.operands = j.operands
  targets : i.targets = j.targets

theorem reads_instruction {i : Instruction} (written : IsWritten i) (tight : i.Tight) :
    ∃ o, Reads i.text { instruction := some o } ∧ ∀ n, SameCode (Instruction.ofOperation n o) i := by
  obtain ⟨op, reads, named, flow⟩ := reads_text written tight
  refine ⟨(op, i.operands), reads, fun n => ⟨named, flow, rfl, ?_⟩⟩
  simp only [Instruction.targets, Instruction.ofOperation, flow]

theorem sameCode_of_operations {is js : List Instruction} {operations : List (Opcode × List Text)}
    (made : List.Forall₂ (fun i o => ∃ k, i = Instruction.ofOperation k o) is operations)
    (same : List.Forall₂ (fun j o => ∀ n, SameCode (Instruction.ofOperation n o) j) js operations) :
    List.Forall₂ SameCode is js := by
  induction made generalizing js with
  | nil => cases same; exact .nil
  | cons head _ ih =>
    obtain ⟨k, rfl⟩ := head
    cases same with
    | cons first rest => exact .cons (first k) (ih rest)

theorem isRow_of_mem_rowsFrom {row : Text} {instructions : List Instruction}
    (labels : ∀ k, ∀ x ∈ names k, IsLabel x) (texts : ∀ i ∈ instructions, Text.IsRow i.text) :
    ∀ {k : Nat}, row ∈ rowsFrom names k instructions → Text.IsRow row := by
  have front {k : Nat} (mem : row ∈ (names k).map labelRow) : Text.IsRow row := by
    obtain ⟨x, here, rfl⟩ := List.mem_map.mp mem
    exact (labels k x here).row
  induction instructions with
  | nil => exact @fun k mem => front mem
  | cons i rest ih =>
    obtain ⟨first, texts⟩ := List.forall_mem_cons.mp texts
    intro k mem
    rcases List.mem_append.mp mem with mem | mem
    · exact front mem
    · rcases List.mem_cons.mp mem with rfl | mem
      · exact first
      · exact ih texts mem

/-- A label stands at one place of an order. -/
theorem Arranges.nodup_flatMap (arranges : l.Arranges names) {ks : List Nat} (distinct : ks.Nodup) :
    (ks.flatMap names).Nodup := by
  refine List.nodup_flatMap.mpr ⟨fun k _ => arranges.nodup k, distinct.imp fun apart x mem mem' => ?_⟩
  have here := (arranges.mem_iff _ x).mp mem
  have there := (arranges.mem_iff _ x).mp mem'
  exact apart (Option.some.inj (here.symm.trans there))

/-- The listing that the entries of a print add up to. -/
def reread (names : Nat → List Text) (version : Nat) (operations : List (Opcode × List Text)) :
    Listing :=
  extendAll {} 1 ({ version := some version } :: entriesFrom names 0 operations)

variable {version : Nat} {operations : List (Opcode × List Text)}

theorem version_reread : (reread names version operations).version = version := by
  rw [reread, version_extendAll, List.filterMap_cons, filterMap_entriesFrom fun _ => rfl]
  simp

theorem instructions_reread : List.Forall₂ (fun i o => ∃ k, i = Instruction.ofOperation k o)
    (reread names version operations).instructions operations := by
  have made := forall₂_operations ({ version := some version } :: entriesFrom names 0 operations) 1
  rw [List.filterMap_cons, filterMap_entriesFrom fun _ => rfl] at made
  rw [reread, instructions_extendAll]
  simpa using made

theorem labels_reread : (reread names version operations).labels =
    (List.range' 0 (operations.length + 1)).flatMap fun k => (names k).map (·, k) :=
  labels_entriesFrom operations _ 2 rfl

theorem mem_labels_reread {x : Text} {k : Nat} :
    (x, k) ∈ (reread names version operations).labels ↔ k ≤ operations.length ∧ x ∈ names k := by
  rw [labels_reread, List.mem_flatMap]
  constructor
  · rintro ⟨j, place, mem⟩
    obtain ⟨y, here, eq⟩ := List.mem_map.mp mem
    cases eq
    exact ⟨by simpa [Nat.lt_succ_iff] using place, here⟩
  · rintro ⟨place, mem⟩
    exact ⟨k, by simpa [Nat.lt_succ_iff] using place, List.mem_map_of_mem mem⟩

theorem Arranges.nodup_reread (arranges : l.Arranges names) :
    ((reread names version operations).labels.map (·.1)).Nodup := by
  rw [labels_reread, List.map_flatMap]
  simpa [Function.comp_def] using arranges.nodup_flatMap List.nodup_range'

/-- **The print of a listing that can be printed is read back.** -/
theorem Writable.exists_parse (writable : l.Writable) (nodup : (l.labels.map (·.1)).Nodup)
    (tight : ∀ i ∈ l.instructions, i.Tight) (arranges : l.Arranges names) (file : Text) :
    ∃ l', parse file (l.print names) = .ok l' ∧ l'.version = l.version ∧
      (∀ x, l'.position? x = l.position? x) ∧
      List.Forall₂ SameCode l'.instructions l.instructions := by
  have mem_names {x : Text} {k : Nat} : x ∈ names k ↔ (x, k) ∈ l.labels := by
    rw [arranges.mem_iff, position?_eq_some_iff nodup]
  have labels : ∀ k, ∀ x ∈ names k, IsLabel x := fun k x mem =>
    (writable.labels x k (mem_names.mp mem)).1
  have texts : ∀ i ∈ l.instructions, Text.IsRow i.text := fun i mem =>
    isRow_text (writable.instructions i mem) (tight i mem)
  have lines : (l.print names).lines = pragmaRow l.version :: rowsFrom names 0 l.instructions :=
    Text.lines_ofRows (List.forall_mem_cons.mpr
      ⟨isRow_pragmaRow l.version, fun row mem => isRow_of_mem_rowsFrom labels texts mem⟩)
  obtain ⟨operations, rows⟩ := exists_forall₂ fun i mem =>
    reads_instruction (writable.instructions i mem) (tight i mem)
  have reads : List.Forall₂ Reads (l.print names).lines
      ({ version := some l.version } :: entriesFrom names 0 operations) := by
    rw [lines]
    exact .cons (reads_pragmaRow writable.version)
      (reads_rowsFrom labels (rows.imp fun _ _ h => h.1) 0)
  have distinct : ((reread names l.version operations).labels.map (·.1)).Nodup :=
    arranges.nodup_reread
  have apart := distinct
  rw [reread, labels_extendAll] at apart
  refine ⟨reread names l.version operations, parse_eq_ok (wellFormed_of_nodup reads apart) reads,
    version_reread, fun x => Option.ext fun k => ?_,
    sameCode_of_operations instructions_reread (rows.imp fun _ _ h => h.2)⟩
  rw [position?_eq_some_iff distinct, position?_eq_some_iff nodup, mem_labels_reread, mem_names,
    ← rows.length_eq]
  exact and_iff_right_of_imp fun mem => (writable.labels x k mem).2

/-- **A listing that was read is what its print is read into.** Print a listing as its version, then
each label in front of the instruction it points at, with the labels of one place in any order; if no
instruction ends in white space, this is read, and what is read has the same version, the same
labels at the same places and the same instructions, but for the lines they stand on. -/
theorem parse_print {file source : Text} (read : parse file source = .ok l)
    (tight : ∀ i ∈ l.instructions, i.Tight) (arranges : l.Arranges names) (file' : Text) :
    ∃ l', parse file' (l.print names) = .ok l' ∧ l'.version = l.version ∧
      (∀ x, l'.position? x = l.position? x) ∧
      List.Forall₂ SameCode l'.instructions l.instructions :=
  (writable_of_parse read).exists_parse (sound_of_parse read).labels tight arranges file'

/-- The labels at a place in the order in which they were defined. -/
def labelsAt (l : Listing) (k : Nat) : List Text := (l.labels.filter (·.2 = k)).map (·.1)

theorem arranges_labelsAt (nodup : (l.labels.map (·.1)).Nodup) : l.Arranges l.labelsAt where
  nodup k := nodup.sublist (List.filter_sublist.map _)
  mem_iff k x := by
    rw [position?_eq_some_iff nodup, labelsAt, List.mem_map]
    constructor
    · rintro ⟨⟨y, j⟩, mem, rfl⟩
      obtain ⟨mem, place⟩ := List.mem_filter.mp mem
      exact of_decide_eq_true place ▸ mem
    · intro mem
      exact ⟨(x, k), List.mem_filter.mpr ⟨mem, decide_eq_true rfl⟩, rfl⟩

/-- Strings and coded data that hold what would be a comment elsewhere, and a label that ends in two
colons. -/
theorem parse_print_strings : ∃ l l' : Listing,
    parse (Text.ofString "a.teal") (Text.ofString
      "a:: match base64 AA//BB // c\nb:\n switch \"x // y\" \nb a:\nend:") = .ok l ∧
    parse (Text.ofString "b.teal") (l.print l.labelsAt) = .ok l' ∧
    (∀ x, l'.position? x = l.position? x) ∧
    List.Forall₂ SameCode l'.instructions l.instructions := by
  have read : parse (Text.ofString "a.teal") (Text.ofString
      "a:: match base64 AA//BB // c\nb:\n switch \"x // y\" \nb a:\nend:") = .ok
        ⟨[⟨Text.ofString "match", .switch, [Text.ofString "base64", Text.ofString "AA//BB"], 1⟩,
          ⟨Text.ofString "switch", .switch, [Text.ofString "\"x // y\""], 3⟩,
          ⟨Text.ofString "b", .branch, [Text.ofString "a:"], 4⟩],
          [(Text.ofString "a:", 0), (Text.ofString "b", 1), (Text.ofString "end", 3)], 0⟩ := by
    decide +kernel
  obtain ⟨l', again, _, labels, same⟩ := parse_print read (by unfold Instruction.Tight; decide +kernel)
    (arranges_labelsAt (sound_of_parse read).labels) (Text.ofString "b.teal")
  exact ⟨_, l', read, again, labels, same⟩

end Listing

end TealAudit
