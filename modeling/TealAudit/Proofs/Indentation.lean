import TealAudit.Finding.Snippet
import TealAudit.Proofs.Points

/-!
# The longest common indentation

The indentation of a snippet is folded from the indentations of its lines, point by point, and then
written in bytes. Two facts make the result what its name says.

* The fold is a meet in the order of prefixes (`Snippet.isPrefix_foldl_commonStart_iff`): what a list
  of indentations starts with is what each of them starts with.
* For white space, to be at the start of a text is the same in bytes and in points
  (`Text.isPrefix_iff_of_isBlank`). It does not hold of other texts: half a code point is at the start
  of its bytes and is no point of them.

`Snippet.IsCommonIndent` says what the longest common indentation is without saying how it is found.
There is one text only of which it holds, so the order of the lines, lines that are there twice and
lines of nothing but white space are of no account.
-/

namespace TealAudit

/-! ## White space at the start of a text -/

namespace Text

/-- **White space at the start of a text** is at the start of its indentation. -/
theorem isPrefix_iff_of_isBlank {w : Text} (blank : w.isBlank = true) (line : Text) :
    w <+: line ↔ w.points <+: line.indent := by
  constructor
  · rintro ⟨rest, rfl⟩
    rw [indent, points_blank_append blank,
      List.takeWhile_append_of_pos fun p mem => List.all_eq_true.mp blank p mem]
    exact List.prefix_append _ _
  · intro front
    obtain ⟨rest, eq⟩ := front.trans (List.takeWhile_prefix Point.isBlank)
    refine ⟨ofPoints rest, ?_⟩
    calc w ++ ofPoints rest
        = ofPoints (w.points ++ rest) := by rw [ofPoints_append, ofPoints_points]
      _ = line := by rw [eq, ofPoints_points]

/-- What is taken from the start of a text, if it starts with it. -/
theorem exists_dropStart (p t : Text) :
    ∃ taken, (taken = p ∨ taken = []) ∧ t = taken ++ dropStart p t := by
  unfold dropStart
  split
  · next front =>
    obtain ⟨rest, rfl⟩ := List.isPrefixOf_iff_prefix.mp front
    exact ⟨p, .inl rfl, by rw [List.drop_left]⟩
  · exact ⟨[], .inr rfl, rfl⟩

end Text

namespace Snippet

/-! ## Common starts -/

section CommonStart

variable {α : Type} [DecidableEq α]

/-- What the common start of two lists starts with is what both of them start with. -/
theorem isPrefix_commonStart_iff {ps as bs : List α} :
    ps <+: commonStart as bs ↔ ps <+: as ∧ ps <+: bs := by
  fun_induction commonStart as bs generalizing ps with
  | case1 a as bs ih =>
    cases ps with
    | nil => simp only [List.nil_prefix, and_self]
    | cons p ps =>
      simp only [List.cons_prefix_cons, ih]
      exact and_and_left
  | case2 a as b bs ne =>
    cases ps with
    | nil => simp only [List.nil_prefix, and_self]
    | cons p ps =>
      rw [List.prefix_nil, List.cons_prefix_cons, List.cons_prefix_cons]
      refine iff_of_false (List.cons_ne_nil p ps) ?_
      rintro ⟨⟨rfl, -⟩, same, -⟩
      exact ne same
  | case3 as bs apart =>
    rw [List.prefix_nil]
    constructor
    · rintro rfl
      exact ⟨List.nil_prefix, List.nil_prefix⟩
    · rintro ⟨first, second⟩
      cases ps with
      | nil => rfl
      | cons p ps =>
        obtain ⟨as, rfl⟩ := first
        obtain ⟨bs, rfl⟩ := second
        exact (apart _ _ _ _ rfl rfl).elim

/-- **The common start of a list of lists** is their meet in the order of prefixes. -/
theorem isPrefix_foldl_commonStart_iff {ps : List α} (rest : List (List α)) (first : List α) :
    ps <+: rest.foldl commonStart first ↔ ∀ as ∈ first :: rest, ps <+: as := by
  induction rest generalizing first with
  | nil => rw [List.foldl_nil, List.forall_mem_singleton]
  | cons as rest ih =>
    rw [List.foldl_cons, ih, List.forall_mem_cons, isPrefix_commonStart_iff, List.forall_mem_cons,
      List.forall_mem_cons, and_assoc]

end CommonStart

/-! ## The common indentation -/

/-- **The longest common indentation** of lines: white space that all of them start with, lines of
nothing but white space left aside, with whatever other white space all of them start with at its own
start. Where all lines are left aside, it is empty. -/
structure IsCommonIndent (lines : List Text) (indent : Text) : Prop where
  blank : indent.isBlank = true
  shared : ∀ line ∈ lines, line.isBlank = false → indent <+: line
  longest : (∃ line ∈ lines, line.isBlank = false) → ∀ w : Text, w.isBlank = true →
    (∀ line ∈ lines, line.isBlank = false → w <+: line) → w <+: indent
  empty : (∀ line ∈ lines, line.isBlank = true) → indent = []

/-- **What the fold finds**, as long as a line counts: white space that starts with what the
indentation of every line that counts starts with. -/
theorem exists_commonIndent {lines : List Text} (some : ∃ line ∈ lines, line.isBlank = false) :
    ∃ ps : List Point, (∀ p ∈ ps, p.isBlank = true) ∧ commonIndent lines = Text.ofPoints ps ∧
      ∀ qs, qs <+: ps ↔ ∀ line ∈ lines, line.isBlank = false → qs <+: line.indent := by
  obtain ⟨line, mem, text⟩ := some
  have counts (line : Text) : line ∈ lines.filter (fun line => !line.isBlank) ↔
      line ∈ lines ∧ line.isBlank = false := by
    rw [List.mem_filter, Bool.not_eq_true']
  obtain ⟨first, rest, eq⟩ := List.exists_cons_of_ne_nil
    (List.ne_nil_of_mem ((counts line).mpr ⟨mem, text⟩))
  have start := (isPrefix_foldl_commonStart_iff (rest.map Text.indent) first.indent).mp
    List.prefix_rfl first.indent List.mem_cons_self
  refine ⟨(rest.map Text.indent).foldl commonStart first.indent, ?_, ?_, fun qs => ?_⟩
  · exact fun p mem => List.mem_takeWhile_imp (start.subset mem)
  · rw [commonIndent, eq, List.map_cons]
  · rw [isPrefix_foldl_commonStart_iff, ← List.map_cons, ← eq, List.forall_mem_map]
    simp only [counts, and_imp]

/-- White space is at the start of the common indentation when it is at the start of every line that
counts. -/
theorem isPrefix_commonIndent_iff {lines : List Text}
    (some : ∃ line ∈ lines, line.isBlank = false) {w : Text} (blank : w.isBlank = true) :
    w <+: commonIndent lines ↔ ∀ line ∈ lines, line.isBlank = false → w <+: line := by
  obtain ⟨ps, white, eq, meet⟩ := exists_commonIndent some
  have whole : (Text.ofPoints ps).indent = ps := by
    rw [Text.indent, Text.points_ofPoints_blank white]
    exact List.takeWhile_eq_self_iff.mpr white
  rw [eq, Text.isPrefix_iff_of_isBlank blank, whole, meet]
  simp only [Text.isPrefix_iff_of_isBlank blank]

/-- Lines that are left aside have no common indentation. -/
theorem commonIndent_of_isBlank {lines : List Text} (none : ∀ line ∈ lines, line.isBlank = true) :
    commonIndent lines = [] := by
  have aside : lines.filter (fun line => !line.isBlank) = [] := by
    refine List.filter_eq_nil_iff.mpr fun line mem => ?_
    rw [none line mem]
    exact Bool.false_ne_true
  rw [commonIndent, aside, List.map_nil]

/-- A line counts, or all of them are left aside. -/
theorem counts_or_aside (lines : List Text) :
    (∃ line ∈ lines, line.isBlank = false) ∨ ∀ line ∈ lines, line.isBlank = true := by
  by_cases some : ∃ line ∈ lines, line.isBlank = false
  · exact .inl some
  · refine .inr fun line mem => ?_
    rw [← Bool.not_eq_false]
    exact fun text => some ⟨line, mem, text⟩

theorem isBlank_commonIndent (lines : List Text) : (commonIndent lines).isBlank = true := by
  rcases counts_or_aside lines with some | none
  · obtain ⟨ps, white, eq, -⟩ := exists_commonIndent some
    rw [eq]
    exact Text.isBlank_ofPoints white
  · rw [commonIndent_of_isBlank none]
    rfl

theorem isCommonIndent (lines : List Text) : IsCommonIndent lines (commonIndent lines) where
  blank := isBlank_commonIndent lines
  shared line mem text :=
    (isPrefix_commonIndent_iff ⟨line, mem, text⟩ (isBlank_commonIndent lines)).mp List.prefix_rfl
      line mem text
  longest some _ blank := (isPrefix_commonIndent_iff some blank).mpr
  empty := commonIndent_of_isBlank

/-- There is one longest common indentation, and it is that of the lines that count. -/
theorem IsCommonIndent.unique {lines others : List Text} {a b : Text} (first : IsCommonIndent lines a)
    (second : IsCommonIndent others b)
    (same : ∀ line : Text, line.isBlank = false → (line ∈ others ↔ line ∈ lines)) : b = a := by
  rcases counts_or_aside lines with some | none
  · obtain ⟨line, mem, text⟩ := some
    have front : a <+: b := by
      refine second.longest ⟨line, (same line text).mpr mem, text⟩ a first.blank ?_
      exact fun line mem text => first.shared line ((same line text).mp mem) text
    have back : b <+: a := by
      refine first.longest ⟨line, mem, text⟩ b second.blank ?_
      exact fun line mem text => second.shared line ((same line text).mpr mem) text
    exact back.eq_of_length_le front.length_le
  · have aside : ∀ line ∈ others, line.isBlank = true := by
      intro line mem
      rw [← Bool.not_eq_false]
      intro text
      have white := none line ((same line text).mp mem)
      rw [text] at white
      cases white
    rw [first.empty none, second.empty aside]

/-- **The common indentation is the longest one.** What is taken away with it from a line is white
space, and it depends only on which lines there are that hold something else than white space. -/
theorem commonIndent_exact (lines : List Text) :
    IsCommonIndent lines (commonIndent lines) ∧
      (∀ line : Text, ∃ w : Text, w.isBlank = true ∧
        line.points = w.points ++ (Text.dropStart (commonIndent lines) line).points) ∧
      ∀ others : List Text,
        (∀ line : Text, line.isBlank = false → (line ∈ others ↔ line ∈ lines)) →
          commonIndent others = commonIndent lines := by
  refine ⟨isCommonIndent lines, fun line => ?_, fun others same => ?_⟩
  · obtain ⟨taken, either, whole⟩ := Text.exists_dropStart (commonIndent lines) line
    have blank : taken.isBlank = true := by
      rcases either with rfl | rfl
      · exact isBlank_commonIndent lines
      · rfl
    refine ⟨taken, blank, ?_⟩
    rw [← Text.points_blank_append blank, ← whole]
  · exact (isCommonIndent lines).unique (isCommonIndent others) same

-- The wide space is shared as a whole; the last line goes on with a part of its bytes only.
example : commonIndent ["\u3000\u3000x", " \t", [0xE3, 0x80, 0x80, 0xE3, 0x80]] = "\u3000" := by decide

end Snippet

end TealAudit
