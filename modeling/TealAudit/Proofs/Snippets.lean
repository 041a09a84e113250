import Mathlib.Data.List.Pairwise
import TealAudit.Detector.DeadCode
import TealAudit.Finding.Snippet
import TealAudit.Proofs.Partition
import TealAudit.Proofs.Reachability
import TealAudit.Proofs.Rows

/-!
# What a snippet shows

A snippet is a text of lines, and some of them are **numbered rows**: a number, a bar, and what is shown
of the source line with that number. `Snippet.numbered` reads the numbered rows back from the text, and
`Snippet.numbered_text` says which they are: the lines of the ranges that fit, one range after the other.

The finding of dead code has a range for each dead block, from the line of its first instruction to that
of its last. Three facts make its snippet what it should be.

* Instructions stand on lines of their own, in ascending order, so the ranges of blocks follow each other
  and do not overlap (`Program.Built.pairwise_lines`). What lies between the first and the last line of a
  block is thus no instruction of another block.
* Each line that holds an instruction is a line of the source in both ways to cut a source into lines,
  so every range fits (`Snippet.fits_span`).
* The two ways differ by the carriage return at the end of a line and by the empty last line
  (`Snippet.exists_raw`).

`Snippet.shows_dead_code` puts them together.
-/

namespace TealAudit

namespace Snippet

/-! ## Numbered rows -/

/-- A snippet in words, with no styles shown. -/
def text (width : Nat) (source : List Text) (ranges : List LineRange) : Text :=
  Piece.renderAll false (render width source ranges)

/-- What stands between the number of a line and the line. -/
def bar : Text := " | "

/-- The number and the text of a numbered row. -/
def readRow? (line : Text) : Option (Nat × Text) := do
  let (n, rest) ← Text.cutNumber? (line.dropWhile (· = Text.byte ' '))
  let shown ← Text.behind? bar rest
  some (n, shown)

/-- **The numbered rows of a text**, in order. -/
def numbered (t : Text) : List (Nat × Text) := (Text.splitOn (Text.byte '\n') t).filterMap readRow?

/-- What is shown of a source line, under its number. -/
def shownAs (indent : Text) (r : Nat × Text) : Nat × Text :=
  (r.1, expandTabs (Text.dropStart indent r.2))

/-- The line of a numbered row. -/
def rowLine (width : Nat) (indent : Text) (r : Nat × Text) : Text :=
  Text.padStart width (Text.ofNat r.1) ++ bar ++ (shownAs indent r).2

/-- The line in front of a range. -/
def markLine (width index : Nat) : Text :=
  Text.spaces (width + 1) ++ (if index = 0 then "|" else ":")

/-- The lines of a range, if it fits. -/
def rangeLines (width : Nat) (indent : Text) (source : List Text) (r : LineRange) (index : Nat) :
    List Text :=
  if fits source.length r then markLine width index :: (rows source r).map (rowLine width indent)
  else []

theorem dropWhile_spaces (n : Nat) (t : Text) :
    (Text.spaces n ++ t).dropWhile (· = Text.byte ' ') = t.dropWhile (· = Text.byte ' ') :=
  List.dropWhile_append_of_pos fun _ mem => decide_eq_true (List.eq_of_mem_replicate mem)

/-- A numbered row is read back. -/
theorem readRow?_rowLine (width : Nat) (indent : Text) (r : Nat × Text) :
    readRow? (rowLine width indent r) = some (shownAs indent r) := by
  obtain ⟨b, digits, eq⟩ := List.exists_cons_of_ne_nil (SourceLine.ofNat_ne_nil r.1)
  have digit : Text.isDigit b = true := by
    apply Text.isDigit_of_mem_ofNat (n := r.1)
    rw [eq]
    exact List.mem_cons_self
  have number (t : Text) :
      (Text.ofNat r.1 ++ t).dropWhile (· = Text.byte ' ') = Text.ofNat r.1 ++ t := by
    rw [eq]
    refine List.dropWhile_cons_of_neg ?_
    rw [decide_eq_true_eq]
    rintro rfl
    exact absurd digit (by decide)
  have behind (t : Text) : ∀ b ∈ (bar ++ t).head?, Text.isDigit b = false := by
    intro b first
    cases first
    decide
  unfold readRow? rowLine Text.padStart
  rw [List.append_assoc, List.append_assoc, dropWhile_spaces, number,
    Text.cutNumber?_ofNat r.1 (behind _)]
  simp only [Option.bind_eq_bind, Option.bind_some, Text.behind?_append]
  rfl

theorem readRow?_markLine (width index : Nat) : readRow? (markLine width index) = none := by
  unfold readRow? markLine
  rw [dropWhile_spaces]
  split <;> decide

theorem filterMap_rangeLines (width : Nat) (indent : Text) (source : List Text) (r : LineRange)
    (index : Nat) : (rangeLines width indent source r index).filterMap readRow? =
      if fits source.length r then (rows source r).map (shownAs indent) else [] := by
  unfold rangeLines
  split
  · rw [List.filterMap_cons_none (readRow?_markLine width index), List.filterMap_map]
    exact List.filterMap_eq_map_iff_forall_eq_some.mpr fun r _ => readRow?_rowLine width indent r
  · rfl

/-! ### Lines of a snippet -/

theorem text_of_pieces (ps : List Piece) : Piece.renderAll false ps = ps.flatMap (·.text) := by
  refine List.flatMap_congr fun p _ => ?_
  cases style : p.style <;> simp [Piece.render, style]

/-- A snippet is made of lines. -/
theorem text_eq (width : Nat) (source : List Text) (ranges : List LineRange) :
    text width source ranges = Text.ofRows (ranges.zipIdx.flatMap fun x =>
      rangeLines width (commonIndent (shown source ranges)) source x.1 x.2) := by
  unfold text render
  rw [text_of_pieces, Text.ofRows, List.flatMap_assoc, List.flatMap_assoc]
  refine List.flatMap_congr fun x _ => ?_
  obtain ⟨r, index⟩ := x
  simp only [rangeLines]
  split
  · have mark : (rangeMark width index).text = markLine width index ++ Text.ofString "\n" := by
      unfold rangeMark markLine
      split <;> exact (List.append_assoc ..).symm
    rw [List.flatMap_cons, List.flatMap_cons, mark, List.flatMap_assoc, List.flatMap_map]
    congr 1
    refine List.flatMap_congr fun row _ => ?_
    simp [Snippet.row, Piece.styled, Piece.plain, rowLine, shownAs, bar]
  · rfl

theorem not_mem_expandFrom {b : UInt8} (visible : b < 0x80) (space : b ≠ Text.byte ' ') {t : Text}
    (none : b ∉ t) : ∀ column, b ∉ expandFrom column t.points := by
  induction t using Text.pointwise with
  | nil => exact fun _ => List.not_mem_nil
  | scalar c t ih =>
    rw [Text.points_encode]
    intro column
    obtain ⟨here, later⟩ := not_or.mp (mt List.mem_append.mpr none)
    rw [expandFrom]
    split
    · refine fun mem => ?_
      rcases List.mem_append.mp mem with mem | mem
      · exact space (List.eq_of_mem_replicate mem)
      · exact ih later _ mem
    · refine fun mem => ?_
      rcases List.mem_append.mp mem with mem | mem
      · exact here mem
      · exact ih later _ mem
  | stray x t read ih =>
    rw [Text.points_stray read]
    intro column mem
    rw [expandFrom] at mem
    rcases List.mem_append.mp mem with mem | mem
    · have bytes : String.utf8EncodeChar (Char.ofNat 0xFFFD) = [0xEF, 0xBF, 0xBD] := by decide
      rw [bytes] at mem
      simp only [List.mem_cons, List.not_mem_nil, or_false] at mem
      rcases mem with rfl | rfl | rfl <;> exact absurd visible (by decide)
    · exact ih (List.not_mem_of_not_mem_cons none) _ mem

theorem not_mem_rowLine (width : Nat) (indent : Text) {r : Nat × Text}
    (single : Text.byte '\n' ∉ r.2) : Text.byte '\n' ∉ rowLine width indent r := by
  have kept : Text.byte '\n' ∉ Text.dropStart indent r.2 := by
    unfold Text.dropStart
    split
    · exact fun mem => single (List.mem_of_mem_drop mem)
    · exact single
  have number : Text.byte '\n' ∉ Text.ofNat r.1 :=
    fun mem => absurd (Text.isDigit_of_mem_ofNat mem) (by decide)
  have spaces (n : Nat) : Text.byte '\n' ∉ Text.spaces n :=
    fun mem => absurd (List.eq_of_mem_replicate mem) (by decide)
  unfold rowLine Text.padStart
  simp only [List.mem_append, not_or]
  exact ⟨⟨⟨spaces _, number⟩, by decide⟩, not_mem_expandFrom (by decide) (by decide) kept 0⟩

theorem not_mem_markLine (width index : Nat) : Text.byte '\n' ∉ markLine width index := by
  unfold markLine
  rw [List.mem_append, not_or]
  refine ⟨fun mem => absurd (List.eq_of_mem_replicate mem) (by decide), ?_⟩
  split <;> decide

theorem mem_rows {source : List Text} {r : LineRange} {n : Nat} {line : Text} :
    (n, line) ∈ rows source r ↔ (r.first ≤ n ∧ n ≤ r.last) ∧ source[n - 1]? = some line := by
  have number : n ∈ numbers r ↔ r.first ≤ n ∧ n ≤ r.last := by
    simp only [numbers, List.mem_map, List.mem_range]
    constructor
    · rintro ⟨k, lt, rfl⟩
      omega
    · rintro ⟨above, below⟩
      exact ⟨n - r.first, by omega, by omega⟩
  rw [rows, List.mem_filterMap, ← number]
  constructor
  · rintro ⟨m, mem, eq⟩
    obtain ⟨other, found, same⟩ := Option.map_eq_some_iff.mp eq
    cases same
    exact ⟨mem, found⟩
  · rintro ⟨mem, found⟩
    exact ⟨n, mem, by rw [found]; rfl⟩

theorem not_mem_rangeLines (width : Nat) (indent : Text) {source : List Text} (r : LineRange)
    (index : Nat) (single : ∀ line ∈ source, Text.byte '\n' ∉ line) :
    ∀ row ∈ rangeLines width indent source r index, Text.byte '\n' ∉ row := by
  unfold rangeLines
  split
  · intro row mem
    rcases List.mem_cons.mp mem with rfl | mem
    · exact not_mem_markLine width index
    · obtain ⟨⟨n, line⟩, shown, rfl⟩ := List.mem_map.mp mem
      have found := (mem_rows.mp shown).2
      exact not_mem_rowLine width indent (single line (List.mem_of_getElem? found))
  · nofun

/-- **The numbered rows of a snippet** are the lines of the ranges that fit, as they are shown. -/
theorem numbered_text (width : Nat) {source : List Text} (ranges : List LineRange)
    (single : ∀ line ∈ source, Text.byte '\n' ∉ line) :
    numbered (text width source ranges) =
      ((ranges.filter (fits source.length)).flatMap (rows source)).map
        (shownAs (commonIndent (shown source ranges))) := by
  generalize indented : commonIndent (shown source ranges) = indent
  have lines : ∀ row ∈ ranges.zipIdx.flatMap (fun x => rangeLines width indent source x.1 x.2),
      Text.byte '\n' ∉ row := by
    intro row mem
    obtain ⟨x, -, mem⟩ := List.mem_flatMap.mp mem
    exact not_mem_rangeLines width indent x.1 x.2 single row mem
  have unread : readRow? [] = none := by decide
  -- The marks in front of the ranges are read over, and with them go the places of the ranges.
  calc numbered (text width source ranges)
      = (ranges.zipIdx.flatMap fun x => rangeLines width indent source x.1 x.2).filterMap readRow? := by
        rw [numbered, text_eq, indented, Text.splitOn_ofRows lines, List.filterMap_append,
          List.filterMap_cons_none unread, List.filterMap_nil, List.append_nil]
    _ = (ranges.zipIdx.map Prod.fst).flatMap fun r =>
          if fits source.length r then (rows source r).map (shownAs indent) else [] := by
        rw [List.filterMap_flatMap, List.flatMap_map]
        simp only [filterMap_rangeLines]
    _ = ((ranges.filter (fits source.length)).flatMap (rows source)).map (shownAs indent) := by
        rw [List.zipIdx_map_fst, flatMap_ite, List.map_flatMap]

theorem pairwise_rows (source : List Text) (r : LineRange) :
    (rows source r).Pairwise fun a b => a.1 < b.1 := by
  have ascending : (numbers r).Pairwise (· < ·) := by
    rw [numbers, List.pairwise_map]
    exact List.pairwise_lt_range.imp fun lt => Nat.add_lt_add_left lt _
  refine ascending.filterMap _ fun m n lt a first b second => ?_
  obtain ⟨_, _, rfl⟩ := Option.map_eq_some_iff.mp first
  obtain ⟨_, _, rfl⟩ := Option.map_eq_some_iff.mp second
  exact lt

/-! ## Lines of the source -/

/-- A line that is read stands under its number among those that are shown, but for a carriage return
at its end. -/
theorem exists_raw {source seen : Text} {k : Nat} (found : source.lines[k]? = some seen) :
    ∃ raw, (linesOf source)[k]? = some raw ∧ (raw = seen ∨ raw = seen ++ [Text.byte '\r']) := by
  rw [Text.lines, List.getElem?_map] at found
  obtain ⟨raw, piece, rfl⟩ := Option.map_eq_some_iff.mp found
  obtain ⟨rest, whole⟩ := Text.isPrefix_dropEmptyLast (Text.splitOn (Text.byte '\n') source)
  refine ⟨raw, ?_, ?_⟩
  · rw [linesOf, ← whole, List.getElem?_append_left (List.getElem?_eq_some_iff.mp piece).1]
    exact piece
  · unfold Text.dropReturn
    split
    · next last =>
      obtain ⟨front, rfl⟩ := List.getLast?_eq_some_iff.mp last
      rw [List.dropLast_concat]
      exact .inr rfl
    · exact .inl rfl

end Snippet

/-- An instruction stands on a line of the source. -/
theorem Listing.line_of_parse {file source : Text} {l : Listing} (h : parse file source = .ok l)
    {i : Instruction} (mem : i ∈ l.instructions) :
    ∃ k seen, i.line = k + 1 ∧ source.lines[k]? = some seen := by
  obtain ⟨-, entries, reads, rfl⟩ := wellFormed_of_parse h
  rw [instructions_extendAll, List.nil_append] at mem
  obtain ⟨⟨e, n⟩, entry, eq⟩ := List.mem_filterMap.mp mem
  obtain ⟨operation, _, rfl⟩ := Option.map_eq_some_iff.mp eq
  obtain ⟨above, below, -⟩ := List.mem_zipIdx entry
  have lt : n - 1 < source.lines.length := by
    rw [reads.length_eq]
    omega
  refine ⟨n - 1, _, ?_, List.getElem?_eq_getElem lt⟩
  show n = n - 1 + 1
  omega

/-! ## Lines of blocks -/

theorem Block.exit_mem_instructions (b : Block) : b.exit ∈ b.instructions := List.getLast_mem _

namespace Program.Built

variable {p : Program} {b c : Block} {i : Instruction}

/-- Whether a block ends on a line before the first one of another. -/
def Above (b c : Block) : Prop := ∀ i ∈ b.instructions, ∀ j ∈ c.instructions, i.line < j.line

/-- **The lines of instructions** ascend within a block and from block to block. -/
theorem pairwise_lines (h : p.Built) :
    (∀ b ∈ p.blocks, b.instructions.Pairwise fun i j => i.line < j.line) ∧ p.blocks.Pairwise Above := by
  have ascending := h.sound.ascending
  rw [← h.laid.flatMap_instructions] at ascending
  exact List.pairwise_flatMap.mp ascending

/-- An instruction stands between the first and the last of its block. -/
theorem line_within (h : p.Built) (mem : b ∈ p.blocks) (inside : i ∈ b.instructions) :
    b.entry.line ≤ i.line ∧ i.line ≤ b.exit.line := by
  have ascending := h.pairwise_lines.1 b mem
  constructor
  · rcases List.mem_cons.mp inside with rfl | behind
    · exact Nat.le_refl _
    · exact Nat.le_of_lt ((List.pairwise_cons.mp ascending).1 i behind)
  · have whole : b.instructions.dropLast ++ [b.exit] = b.instructions :=
      List.dropLast_concat_getLast b.instructions_ne_nil
    rw [← whole] at ascending inside
    rcases List.mem_append.mp inside with front | last
    · exact Nat.le_of_lt ((List.pairwise_append.mp ascending).2.2 i front _ (List.mem_singleton_self _))
    · rw [List.mem_singleton.mp last]

/-- An instruction does not stand between the first and the last of another block. -/
theorem line_apart (h : p.Built) (mem : b ∈ p.blocks) (mem' : c ∈ p.blocks) (ne : b ≠ c)
    (inside : i ∈ b.instructions) : ¬ (c.entry.line ≤ i.line ∧ i.line ≤ c.exit.line) := by
  have apart : p.blocks.Pairwise fun b c => Above b c ∨ Above c b := h.pairwise_lines.2.imp .inl
  have : Std.Symm fun b c => Above b c ∨ Above c b := ⟨fun _ _ => Or.symm⟩
  rintro ⟨least, most⟩
  rcases apart.forall mem mem' ne with above | below
  · exact absurd (above i inside c.entry List.mem_cons_self) (Nat.not_lt.mpr least)
  · exact absurd (below c.exit c.exit_mem_instructions i inside) (Nat.not_lt.mpr most)

end Program.Built

/-! ## Dead code -/

namespace Snippet

variable {name source : Text} {p : Program}

/-- The lines from the first to the last instruction of a block are lines of the source. -/
theorem exists_seen (built : Program.ofSource name source = .ok p) {b : Block} (mem : b ∈ p.blocks)
    {n : Nat} (least : b.entry.line ≤ n) (most : n ≤ b.exit.line) :
    ∃ k seen, n = k + 1 ∧ source.lines[k]? = some seen := by
  have listed {i : Instruction} (inside : i ∈ b.instructions) : i ∈ p.listing.instructions := by
    rw [← (Program.built_of_source built).laid.flatMap_instructions]
    exact List.mem_flatMap.mpr ⟨b, mem, inside⟩
  obtain ⟨parsed, -⟩ := Program.parse_of_source built
  obtain ⟨k, -, first, -⟩ := Listing.line_of_parse parsed (listed (List.mem_cons_self : b.entry ∈ _))
  obtain ⟨m, seen, last, found⟩ := Listing.line_of_parse parsed (listed b.exit_mem_instructions)
  have below := (List.getElem?_eq_some_iff.mp found).1
  have lt : n - 1 < source.lines.length := by omega
  exact ⟨n - 1, _, by omega, List.getElem?_eq_getElem lt⟩

/-- The range of a block lies within the lines that are shown. -/
theorem fits_span (built : Program.ofSource name source = .ok p) {b : Block} (mem : b ∈ p.blocks) :
    fits (linesOf source).length ⟨b.span.1, b.span.2⟩ = true := by
  have ordered : b.entry.line ≤ b.exit.line :=
    ((Program.built_of_source built).line_within mem b.exit_mem_instructions).1
  obtain ⟨k, -, first, -⟩ := exists_seen built mem (Nat.le_refl _) ordered
  obtain ⟨m, seen, last, found⟩ := exists_seen built mem ordered (Nat.le_refl _)
  obtain ⟨raw, there, -⟩ := exists_raw found
  have below : m < (linesOf source).length := (List.getElem?_eq_some_iff.mp there).1
  simp only [fits, Block.span, Bool.and_eq_true]
  exact ⟨⟨decide_eq_true (by omega), decide_eq_true ordered⟩, decide_eq_true (by omega)⟩

/-- The finding of dead code has a range for each dead block. -/
theorem ranges_of_detect {file : Text} {f : Finding} (found : f ∈ Detector.DeadCode.detect p file) :
    f.ranges = (Detector.DeadCode.deadBlocks p).map fun b => ⟨b.span.1, b.span.2⟩ := by
  unfold Detector.DeadCode.detect at found
  split at found
  · cases found
  · rw [List.mem_singleton.mp found]
    exact List.append_nil _

theorem mem_deadBlocks {b : Block} :
    b ∈ Detector.DeadCode.deadBlocks p ↔ b ∈ p.blocks ∧ b.index ∉ p.reachable := by
  simp [Detector.DeadCode.deadBlocks]

section Found

variable (built : Program.ofSource name source = .ok p) {file : Text} {f : Finding}
  (found : f ∈ Detector.DeadCode.detect p file)

include built found

theorem fits_ranges : ∀ r ∈ f.ranges, fits (linesOf source).length r = true := by
  rw [ranges_of_detect found]
  intro r mem
  obtain ⟨b, dead, rfl⟩ := List.mem_map.mp mem
  exact fits_span built (mem_deadBlocks.mp dead).1

theorem numbered_dead_code (width : Nat) : numbered (text width (linesOf source) f.ranges) =
    (f.ranges.flatMap (rows (linesOf source))).map
      (shownAs (commonIndent (shown (linesOf source) f.ranges))) := by
  have single : ∀ line ∈ linesOf source, Text.byte '\n' ∉ line :=
    fun _ mem => Text.not_mem_of_mem_splitOn source mem
  rw [numbered_text width f.ranges single, List.filter_eq_self.mpr (fits_ranges built found)]

omit built in
/-- A row of the finding belongs to a dead block and is one of its lines. -/
theorem mem_rows_dead_code {n : Nat} {raw : Text} :
    (n, raw) ∈ f.ranges.flatMap (rows (linesOf source)) ↔
      (∃ b ∈ p.blocks, b.index ∉ p.reachable ∧ b.entry.line ≤ n ∧ n ≤ b.exit.line) ∧
        (linesOf source)[n - 1]? = some raw := by
  rw [ranges_of_detect found, List.flatMap_map, List.mem_flatMap]
  constructor
  · rintro ⟨b, dead, mem⟩
    obtain ⟨inside, unreached⟩ := mem_deadBlocks.mp dead
    obtain ⟨bounds, line⟩ := mem_rows.mp mem
    exact ⟨⟨b, inside, unreached, bounds⟩, line⟩
  · rintro ⟨⟨b, inside, unreached, bounds⟩, line⟩
    exact ⟨b, mem_deadBlocks.mpr ⟨inside, unreached⟩, mem_rows.mpr ⟨bounds, line⟩⟩

/-- **The numbers of the rows** are the lines of dead blocks, and there is a row for each of these. -/
theorem mem_numbers_dead_code {n : Nat} :
    n ∈ (f.ranges.flatMap (rows (linesOf source))).map (·.1) ↔
      ∃ b ∈ p.blocks, b.index ∉ p.reachable ∧ b.entry.line ≤ n ∧ n ≤ b.exit.line := by
  rw [List.mem_map]
  constructor
  · rintro ⟨⟨m, raw⟩, mem, rfl⟩
    exact ((mem_rows_dead_code found).mp mem).1
  · rintro ⟨b, mem, unreached, least, most⟩
    obtain ⟨k, seen, rfl, line⟩ := exists_seen built mem least most
    obtain ⟨raw, there, -⟩ := exists_raw line
    have row := (mem_rows_dead_code found).mpr ⟨⟨b, mem, unreached, least, most⟩, there⟩
    exact ⟨(k + 1, raw), row, rfl⟩

/-- A row of the finding is a line as it was read, but for a carriage return at its end. -/
theorem seen_of_row {n : Nat} {raw : Text}
    (row : (n, raw) ∈ f.ranges.flatMap (rows (linesOf source))) :
    ∃ k seen, n = k + 1 ∧ source.lines[k]? = some seen ∧
      (raw = seen ∨ raw = seen ++ [Text.byte '\r']) := by
  obtain ⟨⟨b, inside, -, least, most⟩, line⟩ := (mem_rows_dead_code found).mp row
  obtain ⟨k, seen, rfl, read⟩ := exists_seen built inside least most
  obtain ⟨raw', there, ended⟩ := exists_raw read
  cases line.symm.trans there
  exact ⟨k, seen, rfl, read, ended⟩

/-- The rows of the finding ascend. -/
theorem pairwise_dead_code :
    (f.ranges.flatMap (rows (linesOf source))).Pairwise fun a b => a.1 < b.1 := by
  rw [List.pairwise_flatMap]
  refine ⟨fun r _ => pairwise_rows _ r, ?_⟩
  rw [ranges_of_detect found, List.pairwise_map]
  have ascending := (Program.built_of_source built).pairwise_lines.2
  refine (ascending.sublist List.filter_sublist).imp ?_
  intro b c above x first y second
  have most := (mem_rows.mp first).1.2
  have least := (mem_rows.mp second).1.1
  have apart := above b.exit b.exit_mem_instructions c.entry List.mem_cons_self
  exact Nat.lt_of_le_of_lt most (Nat.lt_of_lt_of_le apart least)

end Found

/-- **The snippet of dead code shows the dead code and nothing else.** For a finding of dead code in a
program, with the lines of the program:

* every range of the finding lies within these lines;
* the numbers of the rows ascend, and they are the lines from the first to the last instruction of some
  dead block;
* so an instruction is on a numbered row if its block is dead, and only then;
* the text of a row is the line that was read under its number, with its carriage return if there was
  one, without the common indentation and with tabs turned into spaces. -/
theorem shows_dead_code (built : Program.ofSource name source = .ok p) {file : Text} {f : Finding}
    (found : f ∈ Detector.DeadCode.detect p file) (width : Nat) :
    let shownRows := numbered (text width (linesOf source) f.ranges)
    (∀ r ∈ f.ranges, fits (linesOf source).length r = true) ∧
    (shownRows.map (·.1)).Pairwise (· < ·) ∧
    (∀ n, n ∈ shownRows.map (·.1) ↔ ∃ b ∈ p.blocks, b.index ∉ p.reachable ∧
      b.entry.line ≤ n ∧ n ≤ b.exit.line) ∧
    (∀ b ∈ p.blocks, ∀ i ∈ b.instructions,
      (i.line ∈ shownRows.map (·.1) ↔ b.index ∉ p.reachable)) ∧
    (∀ n t, (n, t) ∈ shownRows → ∃ k seen raw, n = k + 1 ∧ source.lines[k]? = some seen ∧
      (raw = seen ∨ raw = seen ++ [Text.byte '\r']) ∧
      t = expandTabs (Text.dropStart (commonIndent (shown (linesOf source) f.ranges)) raw)) := by
  intro shownRows
  have whole := Program.built_of_source built
  have shown_eq : shownRows = _ := numbered_dead_code built found width
  have numbers_eq : shownRows.map (·.1) = (f.ranges.flatMap (rows (linesOf source))).map (·.1) := by
    rw [shown_eq, List.map_map]
    rfl
  rw [numbers_eq]
  refine ⟨fits_ranges built found, ?_, fun n => mem_numbers_dead_code built found, ?_, ?_⟩
  · rw [List.pairwise_map]
    exact pairwise_dead_code built found
  · intro b mem i inside
    rw [mem_numbers_dead_code built found]
    constructor
    · rintro ⟨c, mem', unreached, bounds⟩ reached
      have ne : b ≠ c := by
        rintro rfl
        exact unreached reached
      exact whole.line_apart mem mem' ne inside bounds
    · exact fun unreached => ⟨b, mem, unreached, whole.line_within mem inside⟩
  · intro n t mem
    rw [shown_eq] at mem
    obtain ⟨⟨m, raw⟩, row, eq⟩ := List.mem_map.mp mem
    cases eq
    obtain ⟨k, seen, number, read, ended⟩ := seen_of_row built found row
    exact ⟨k, seen, raw, number, read, ended, rfl⟩

/-- A dead block with a comment in the middle and a carriage return at the end of a line, behind a
branch over it. -/
theorem shows_dead_code_comment :
    let source := Text.ofString "b x\n  dup\n// c\n\tpop\r\nx: err"
    ∃ p f, Program.ofSource [] source = .ok p ∧ f ∈ Detector.DeadCode.detect p [] ∧
      numbered (text 1 (linesOf source) f.ranges) = [(2, Text.ofString "  dup"),
        (3, Text.ofString "// c"), (4, Text.ofString "        pop\r")] ∧
      ∀ b ∈ p.blocks, ∀ i ∈ b.instructions, (i.line ∈ [2, 3, 4] ↔ b.index ∉ p.reachable) := by
  intro source
  obtain ⟨p, built, checked⟩ := Program.exists_of_any (r := Program.ofSource [] source)
    (q := fun p => (Detector.DeadCode.detect p []).map
      (fun f => numbered (text 1 (linesOf source) f.ranges)) = [[(2, Text.ofString "  dup"),
        (3, Text.ofString "// c"), (4, Text.ofString "        pop\r")]]) (by decide +kernel)
  obtain ⟨f, told, rows⟩ := List.map_eq_singleton_iff.mp (of_decide_eq_true checked)
  have found : f ∈ Detector.DeadCode.detect p [] := by
    rw [told]
    exact List.mem_singleton_self f
  obtain ⟨-, -, -, exact_lines, -⟩ := shows_dead_code built found 1
  rw [rows] at exact_lines
  exact ⟨p, f, built, found, rows, exact_lines⟩

end Snippet

end TealAudit
