import TealAudit.Proofs.LineGrammar
import TealAudit.Proofs.Positions

/-!
# A line and its fields

A line is its fields in a **frame** (`Fields.Frame`): a gap in front of the first field, a gap behind
each, and what follows. The frame is put together along the cuts of the scanner (`Fields.Cut`), from
the end of the line to its start: a gap goes to the lead of the frame behind it (`Frame.Fits.gap`), and
a field turns that lead into the gap behind it (`Frame.Fits.word`).

Every byte of a line is thus in one of its fields, in one of its gaps or in its comment, and nothing
else is in them (`Fields.split_in_frame`).
-/

namespace TealAudit.Fields

open State

/-! ## Frames -/

/-- **What a line has beside its fields**: the gap in front of the first, the gap behind each, and
what follows the last gap. -/
structure Frame where
  lead : Text
  gaps : List Text
  rest : Text

namespace Frame

/-- The line that fields make in a frame. -/
def line (frame : Frame) (words : List Text) : Text :=
  frame.lead ++ (List.zipWith (· ++ ·) words frame.gaps).flatten ++ frame.rest

/-- **A frame that fits a cut line.** Gaps are tabs and spaces, and there is one between any two
fields; a field is not empty, and only a string has a gap in it; behind the last gap stands nothing
or a comment, which is the comment of the line but for white space. -/
structure Fits (frame : Frame) (f : Fields) : Prop where
  length : frame.gaps.length = f.words.length
  gaps : ∀ gap ∈ frame.lead :: frame.gaps, ∀ b ∈ gap, isGap b = true
  apart : ∀ gap ∈ frame.gaps.dropLast, gap ≠ []
  nonempty : ∀ w ∈ f.words, w ≠ []
  unbroken : ∀ w ∈ f.words, (∃ b ∈ w, isGap b = true) → w.head? = some (Text.byte '"')
  rest : frame.rest = [] ∨ SourceLine.commentMark <+: frame.rest
  comment : f.comment = frame.rest.trim

/-- A gap in front of a line belongs to its frame. -/
theorem Fits.gap {frame : Frame} {f : Fields} (h : frame.Fits f) {b : UInt8} (gap : isGap b = true) :
    Fits ⟨b :: frame.lead, frame.gaps, frame.rest⟩ f := by
  obtain ⟨lead, gaps⟩ := List.forall_mem_cons.mp h.gaps
  exact { h with gaps := List.forall_mem_cons.mpr ⟨List.forall_mem_cons.mpr ⟨gap, lead⟩, gaps⟩ }

/-- A field in front of a line, with a gap behind it. -/
theorem Fits.word {frame : Frame} {f : Fields} {w : Text} (h : frame.Fits f) (separated : frame.lead ≠ [])
    (nonempty : w ≠ []) (unbroken : (∃ b ∈ w, isGap b = true) → w.head? = some (Text.byte '"')) :
    Fits ⟨[], frame.lead :: frame.gaps, frame.rest⟩ ⟨w :: f.words, f.comment⟩ where
  length := congrArg (· + 1) h.length
  gaps := List.forall_mem_cons.mpr ⟨fun _ mem => (List.not_mem_nil mem).elim, h.gaps⟩
  apart := by
    cases gaps : frame.gaps with
    | nil => exact fun _ mem => (List.not_mem_nil mem).elim
    | cons gap more =>
      rw [List.dropLast_cons_cons, ← gaps]
      exact List.forall_mem_cons.mpr ⟨separated, h.apart⟩
  nonempty := List.forall_mem_cons.mpr ⟨nonempty, h.nonempty⟩
  unbroken := List.forall_mem_cons.mpr ⟨unbroken, h.unbroken⟩
  rest := h.rest
  comment := h.comment

end Frame

/-- Outside of a string and behind the head of a field, nothing makes a gap part of the field. -/
theorem State.Holds.unbroken {st : State} {w rest : Text} (h : st.Holds w rest)
    (outside : st.inString = false) (some : st.taken ≠ []) : ∀ b ∈ w, ¬ isGap b = true := by
  induction w generalizing st with
  | nil => exact fun _ mem => (List.not_mem_nil mem).elim
  | cons b w ih =>
    obtain ⟨field, _, more⟩ := h
    refine List.forall_mem_cons.mpr ⟨fun gap => field ⟨gap, outside⟩, ih more ?_ nofun⟩
    simp [State.push, quoted, outside, some]

/-- Only a string has a gap in it. -/
theorem head?_of_gap {inCode : Bool} {w rest : Text} (h : (State.start inCode).Holds w rest) :
    (∃ b ∈ w, isGap b = true) → w.head? = some (Text.byte '"') := by
  rintro ⟨b, mem, gap⟩
  cases w with
  | nil => exact (List.not_mem_nil mem).elim
  | cons first w =>
    obtain ⟨field, _, more⟩ := h
    by_contra other
    have outside : ((State.start inCode).push first).inString = false :=
      if_neg fun quote => other (congrArg some quote)
    rcases List.mem_cons.mp mem with rfl | mem
    · exact field ⟨gap, rfl⟩
    · exact more.unbroken outside (List.cons_ne_nil _ _) b mem gap

theorem addWord_reverse {w : Text} (nonempty : w ≠ []) (f : Fields) :
    addWord w.reverse f = ⟨w :: f.words, f.comment⟩ := by
  simp [addWord, nonempty]

/-- The last field of a line and what follows it. -/
theorem exists_frame_last {w rest : Text}
    (unbroken : (∃ b ∈ w, isGap b = true) → w.head? = some (Text.byte '"'))
    (ends : rest = [] ∨ SourceLine.commentMark <+: rest) :
    ∃ frame : Frame, frame.Fits (addWord w.reverse ⟨[], rest.trim⟩) ∧
      frame.line (addWord w.reverse ⟨[], rest.trim⟩).words = w ++ rest := by
  by_cases empty : w = []
  · subst empty
    change ∃ frame : Frame, frame.Fits ⟨[], rest.trim⟩ ∧ frame.line [] = rest
    exact ⟨⟨[], [], rest⟩, ⟨rfl, by simp, by simp, by simp, by simp, ends, rfl⟩, rfl⟩
  · rw [addWord_reverse empty]
    refine ⟨⟨[], [[]], rest⟩, ⟨rfl, by simp, by simp, by simpa using empty, ?_, ends, rfl⟩, ?_⟩
    · simpa using unbroken
    · simp [Frame.line]

/-- **A line is its fields in a frame.** -/
theorem Cut.exists_frame {inCode : Bool} {t : Text} {f : Fields} (cut : Cut inCode t f) :
    ∃ frame : Frame, frame.Fits f ∧ frame.line f.words = t := by
  induction cut with
  | @done _ w holds =>
    obtain ⟨frame, fits, whole⟩ := exists_frame_last (head?_of_gap holds) (.inl rfl)
    exact ⟨frame, fits, whole.trans (List.append_nil w)⟩
  | @comment _ w rest b holds comment =>
    refine exists_frame_last (head?_of_gap holds) (.inr ?_)
    obtain ⟨rfl, second, _⟩ := comment
    obtain ⟨more, rfl⟩ := List.head?_eq_some_iff.mp second
    exact ⟨more, by rw [SourceLine.commentMark_eq]; rfl⟩
  | @gap _ w rest b f holds divides _ ih =>
    obtain ⟨frame, fits, rfl⟩ := ih
    have spaced := fits.gap divides.1
    by_cases empty : w = []
    · subst empty
      exact ⟨_, spaced, by simp [Frame.line, addWord]⟩
    · rw [addWord_reverse empty]
      refine ⟨_, spaced.word (List.cons_ne_nil _ _) empty (head?_of_gap holds), ?_⟩
      simp [Frame.line]

/-- **Cutting a line loses nothing and invents nothing.**

* Read by position, it takes no byte and no stretch from outside the line.
* The line is its fields in a frame of gaps, and of a comment if it has one.
* The fields with one space between them are cut into the same fields, with no comment. -/
theorem split_in_frame (line : Text) :
    split? line = some (split line) ∧
    (∃ frame : Frame, frame.Fits (split line) ∧ line = frame.line (split line).words) ∧
    split (Text.join (Text.ofString " ") (split line).words) = ⟨(split line).words, []⟩ := by
  have cut : Cut false line (split line) := cut_scan false line
  obtain ⟨frame, fits, whole⟩ := cut.exists_frame
  exact ⟨split?_eq line, ⟨frame, fits, whole.symm⟩, scan_join cut.chain⟩

end TealAudit.Fields
