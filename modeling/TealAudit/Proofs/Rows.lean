import TealAudit.Proofs.LineGrammar
import TealAudit.Proofs.Scanning

/-!
# Rows

A **row** is a text that can be a line of a program just as it is: it holds no line feed and has no
white space at its ends. Rows written under each other are the lines of the text they make
(`Text.lines_ofRows`), and a row that is a chain of fields with one space between them has these
fields as its words (`SourceLine.words_join`). A version pragma is such a row, whatever the version
(`SourceLine.reads_pragmaRow`). The last section reads what a text starts with, a given text or a number.
-/

namespace TealAudit

namespace Text

/-- **A text that can be a line as it is.** -/
structure IsRow (t : Text) : Prop where
  single : byte '\n' ∉ t
  start : ∀ p ∈ t.points.head?, p.isBlank = false
  last : ∀ p ∈ t.points.getLast?, p.isBlank = false

/-- Rows under each other, a line feed behind each. -/
def ofRows (rows : List Text) : Text := rows.flatMap fun row => row ++ ofString "\n"

theorem IsRow.trim_eq {t : Text} (row : IsRow t) : t.trim = t := trim_eq_self row.start row.last

/-! ## Lines -/

theorem splitOn_append {sep : UInt8} {piece : Text} (none : sep ∉ piece) (rest : Text) :
    splitOn sep (piece ++ sep :: rest) = piece :: splitOn sep rest := by
  induction piece with
  | nil => simp [splitOn]
  | cons b piece ih =>
    have other : b ≠ sep := (List.ne_of_not_mem_cons none).symm
    rw [List.cons_append, splitOn, if_neg other, ih (List.not_mem_of_not_mem_cons none)]

theorem not_mem_of_mem_splitOn {sep : UInt8} {piece : Text} (t : Text) :
    piece ∈ splitOn sep t → sep ∉ piece := by
  induction t generalizing piece with
  | nil =>
    intro mem
    rw [List.mem_singleton.mp mem]
    exact List.not_mem_nil
  | cons b t ih =>
    rw [splitOn]
    split
    · intro mem
      rcases List.mem_cons.mp mem with rfl | mem
      · exact List.not_mem_nil
      · exact ih mem
    · next other =>
      split
      · intro mem
        rw [List.mem_singleton.mp mem]
        exact List.not_mem_cons_of_ne_of_not_mem (Ne.symm other) List.not_mem_nil
      · next front pieces eq =>
        rw [eq] at ih
        intro mem
        rcases List.mem_cons.mp mem with rfl | mem
        · exact List.not_mem_cons_of_ne_of_not_mem (Ne.symm other) (ih List.mem_cons_self)
        · exact ih (List.mem_cons_of_mem _ mem)

theorem isPrefix_dropEmptyLast (pieces : List Text) : dropEmptyLast pieces <+: pieces := by
  unfold dropEmptyLast
  split
  · exact List.dropLast_prefix pieces
  · exact List.prefix_rfl

theorem isPrefix_dropReturn (line : Text) : dropReturn line <+: line := by
  unfold dropReturn
  split
  · exact List.dropLast_prefix line
  · exact List.prefix_rfl

theorem not_mem_of_mem_lines {line t : Text} (mem : line ∈ t.lines) : byte '\n' ∉ line := by
  obtain ⟨piece, kept, rfl⟩ := List.mem_map.mp mem
  have none := not_mem_of_mem_splitOn t ((isPrefix_dropEmptyLast _).subset kept)
  exact fun mem => none ((isPrefix_dropReturn piece).subset mem)

theorem mem_of_mem_trim {t : Text} {b : UInt8} (mem : b ∈ t.trim) : b ∈ t := by
  obtain ⟨p, kept, written⟩ := List.mem_flatMap.mp mem
  rw [← ofPoints_points t]
  refine List.mem_flatMap.mpr ⟨p, ?_, written⟩
  rw [List.mem_reverse] at kept
  have kept := (List.dropWhile_sublist _).subset kept
  exact (List.dropWhile_sublist _).subset (List.mem_reverse.mp kept)

/-- A row does not end in a carriage return, which is white space. -/
theorem IsRow.dropReturn_eq {t : Text} (row : IsRow t) : dropReturn t = t := by
  refine if_neg fun last => ?_
  obtain ⟨front, rfl⟩ := List.getLast?_eq_some_iff.mp last
  have points : points (front ++ [byte '\r']) = points front ++ [.scalar '\r'] :=
    points_append front (boundary_cons (by decide) [])
  have blank := row.last (.scalar '\r') (by rw [points]; simp)
  exact absurd blank (by decide)

theorem splitOn_ofRows {rows : List Text} (single : ∀ row ∈ rows, byte '\n' ∉ row) :
    splitOn (byte '\n') (ofRows rows) = rows ++ [[]] := by
  induction rows with
  | nil => rfl
  | cons row rows ih =>
    obtain ⟨first, single⟩ := List.forall_mem_cons.mp single
    have feed : ofRows (row :: rows) = row ++ byte '\n' :: ofRows rows := by
      rw [ofRows, List.flatMap_cons, List.append_assoc]
      rfl
    rw [feed, splitOn_append first, ih single]
    rfl

/-- **Rows are the lines of what they make under each other.** -/
theorem lines_ofRows {rows : List Text} (all : ∀ row ∈ rows, IsRow row) :
    lines (ofRows rows) = rows := by
  rw [lines, splitOn_ofRows fun row mem => (all row mem).single, dropEmptyLast,
    if_pos (by simp), List.dropLast_concat]
  calc rows.map dropReturn = rows.map id :=
        List.map_congr_left fun row mem => (all row mem).dropReturn_eq
    _ = rows := List.map_id rows

/-! ## Rows of fields -/

theorem points_ne_nil {t : Text} (h : t ≠ []) : t.points ≠ [] := by
  intro none
  apply h
  rw [← ofPoints_points t, none]
  rfl

theorem points_join_cons (w v : Text) (vs : List Text) :
    points (join (ofString " ") (w :: v :: vs)) =
      points w ++ .scalar ' ' :: points (join (ofString " ") (v :: vs)) := by
  have space : Boundary (ofString " " ++ join (ofString " ") (v :: vs)) :=
    boundary_cons (by decide) _
  rw [join, List.append_assoc, points_append w space]
  exact congrArg _ (points_encode ' ' _)

theorem head?_points_join {w : Text} (nonempty : w ≠ []) (ws : List Text) :
    (points (join (ofString " ") (w :: ws))).head? = w.points.head? := by
  cases ws with
  | nil => rfl
  | cons v vs => rw [points_join_cons, List.head?_append_of_ne_nil _ (points_ne_nil nonempty)]

theorem getLast?_points_join {w : Text} {ws : List Text} (nonempty : ∀ v ∈ w :: ws, v ≠ []) :
    (points (join (ofString " ") (w :: ws))).getLast? =
      (points ((w :: ws).getLast (List.cons_ne_nil _ _))).getLast? := by
  induction ws generalizing w with
  | nil => rfl
  | cons v vs ih =>
    obtain ⟨_, nonempty⟩ := List.forall_mem_cons.mp nonempty
    have more : points (join (ofString " ") (v :: vs)) ≠ [] := by
      intro none
      have first := head?_points_join (nonempty v List.mem_cons_self) vs
      rw [none] at first
      exact points_ne_nil (nonempty v List.mem_cons_self) (List.head?_eq_none_iff.mp first.symm)
    rw [points_join_cons, List.getLast?_append_cons, List.getLast?_cons, List.getLast_cons_cons,
      ← ih nonempty]
    cases eq : (points (join (ofString " ") (v :: vs))).getLast? with
    | none => exact absurd (List.getLast?_eq_none_iff.mp eq) more
    | some p => rfl

theorem exists_join_eq (w : Text) (ws : List Text) :
    ∃ rest, join (ofString " ") (w :: ws) = w ++ rest := by
  cases ws with
  | nil => exact ⟨[], (List.append_nil w).symm⟩
  | cons v vs => exact ⟨_, List.append_assoc _ _ _⟩

theorem mem_join {sep : Text} {ws : List Text} {b : UInt8} (mem : b ∈ join sep ws) :
    b ∈ sep ∨ ∃ w ∈ ws, b ∈ w := by
  fun_induction join sep ws with
  | case1 => cases mem
  | case2 w => exact .inr ⟨w, List.mem_cons_self, mem⟩
  | case3 w v vs ih =>
    rcases List.mem_append.mp mem with mem | mem
    · rcases List.mem_append.mp mem with mem | mem
      · exact .inr ⟨w, List.mem_cons_self, mem⟩
      · exact .inl mem
    · rcases ih mem with here | ⟨u, inside, mem⟩
      · exact .inl here
      · exact .inr ⟨u, List.mem_cons_of_mem _ inside, mem⟩

/-- Fields make a row when the first and the last have no white space at the ends of the row. -/
theorem isRow_join {w : Text} {ws : List Text} (nonempty : ∀ v ∈ w :: ws, v ≠ [])
    (single : ∀ v ∈ w :: ws, byte '\n' ∉ v) (start : ∀ p ∈ w.points.head?, p.isBlank = false)
    (last : ∀ p ∈ (points ((w :: ws).getLast (List.cons_ne_nil _ _))).getLast?, p.isBlank = false) :
    IsRow (join (ofString " ") (w :: ws)) where
  single mem := by
    rcases mem_join mem with space | ⟨v, inside, mem⟩
    · exact absurd space (by decide)
    · exact single v inside mem
  start := by
    rw [head?_points_join (nonempty w List.mem_cons_self)]
    exact start
  last := by
    rw [getLast?_points_join nonempty]
    exact last

theorem isRow_of_visible {t : Text} (visible : ∀ b ∈ t, IsVisible b) : IsRow t where
  single mem := absurd (visible _ mem) (by decide)
  start p first := isBlank_of_visible visible p (List.mem_of_head? first)
  last p last := isBlank_of_visible visible p (List.mem_of_getLast? last)

/-! ## Numbers -/

theorem isDigit_bounds {c : Char} (digit : c.isDigit = true) : 48 ≤ c.toNat ∧ c.toNat ≤ 57 := by
  simpa [Char.isDigit, UInt32.le_iff_toNat_le] using digit

theorem toNat_byte_digit {c : Char} (digit : c.isDigit = true) : (byte c).toNat = c.toNat := by
  have bounds := isDigit_bounds digit
  rw [byte, UInt8.toNat_ofNat']
  omega

theorem isDigit_of_mem_toDigits {n : Nat} : ∀ c ∈ Nat.toDigits 10 n, c.isDigit = true :=
  fun _ mem => Nat.isDigit_of_mem_toDigits (by decide) (by decide) mem

theorem isDigit_of_mem_ofNat {n : Nat} {b : UInt8} (mem : b ∈ ofNat n) : isDigit b = true := by
  obtain ⟨c, written, rfl⟩ := List.mem_map.mp mem
  have digit := isDigit_of_mem_toDigits c written
  rw [isDigit, Bool.and_eq_true, decide_eq_true_eq, decide_eq_true_eq, UInt8.le_iff_toNat_le,
    UInt8.le_iff_toNat_le, toNat_byte_digit digit]
  exact isDigit_bounds digit

theorem foldl_byte {cs : List Char} (digits : ∀ c ∈ cs, c.isDigit = true) (k : Nat) :
    (cs.map byte).foldl (fun n b => n * 10 + (b.toNat - 48)) k = Nat.ofDigitChars 10 cs k := by
  induction cs generalizing k with
  | nil => rfl
  | cons c cs ih =>
    obtain ⟨first, digits⟩ := List.forall_mem_cons.mp digits
    rw [List.map_cons, List.foldl_cons, ih digits, toNat_byte_digit first, Nat.mul_comm]
    rfl

end Text

/-! ## Words of rows -/

namespace Fields

theorem Chain.ne_nil {inCode : Bool} {ws : List Text} (chain : Chain inCode ws) :
    ∀ w ∈ ws, w ≠ [] := by
  induction chain with
  | nil => exact fun _ mem => (List.not_mem_nil mem).elim
  | cons nonempty _ _ _ ih => exact List.forall_mem_cons.mpr ⟨nonempty, ih⟩

theorem not_isGap_of_trim (t : Text) : ∀ b ∈ t.trim.head?, ¬ isGap b = true := by
  intro b first gap
  obtain ⟨rest, eq⟩ := List.head?_eq_some_iff.mp first
  have dark := Text.head?_points_trim t
  rw [eq] at dark
  rcases Bool.or_eq_true_iff.mp gap with space | tab
  · rw [of_decide_eq_true space] at dark
    exact absurd (dark (.scalar ' ') (congrArg List.head? (Text.points_encode ' ' rest))) (by decide)
  · rw [of_decide_eq_true tab] at dark
    exact absurd (dark (.scalar '\t') (congrArg List.head? (Text.points_encode '\t' rest))) (by decide)

/-- Whether a byte neither divides fields nor starts a string or a comment. -/
def IsPlain (b : UInt8) : Prop :=
  isGap b = false ∧ b ≠ Text.byte '/' ∧ b ≠ Text.byte '"'

instance (b : UInt8) : Decidable (IsPlain b) := inferInstanceAs (Decidable (_ ∧ _ ∧ _))

theorem State.holds_of_plain {w : Text} (plain : ∀ b ∈ w, IsPlain b) (rest : Text) (st : State) :
    st.Holds w rest ∧ (st.run w).inString = st.inString := by
  induction w generalizing st with
  | nil => exact ⟨trivial, rfl⟩
  | cons b w ih =>
    obtain ⟨⟨gap, slash, quote⟩, plain⟩ := List.forall_mem_cons.mp plain
    obtain ⟨holds, outside⟩ := ih plain (st.push b)
    refine ⟨⟨?_, fun comment => slash comment.1, holds⟩, outside.trans (if_neg quote)⟩
    intro divides
    rw [divides.1] at gap
    cases gap

theorem chain_of_plain {ws : List Text} (plain : ∀ w ∈ ws, w ≠ [] ∧ ∀ b ∈ w, IsPlain b)
    (inCode : Bool) : Chain inCode ws := by
  induction ws generalizing inCode with
  | nil => exact .nil
  | cons w ws ih =>
    obtain ⟨⟨nonempty, first⟩, plain⟩ := List.forall_mem_cons.mp plain
    obtain ⟨holds, outside⟩ := State.holds_of_plain first [] (.start inCode)
    refine .cons nonempty holds (fun inside => ?_) (ih plain _)
    rw [outside] at inside
    cases inside

end Fields

namespace SourceLine

/-- **A row of fields has these words.** -/
theorem words_join {ws : List Text} (chain : Fields.Chain false ws)
    (row : Text.IsRow (Text.join (Text.ofString " ") ws)) :
    words (Text.join (Text.ofString " ") ws) = ws := by
  rw [words, row.trim_eq]
  exact congrArg Fields.words (Fields.scan_join chain)

theorem decimal_ofNat (n : Nat) : decimal (Text.ofNat n) = n := by
  rw [← foldl_digits, Text.ofNat, Text.foldl_byte Text.isDigit_of_mem_toDigits,
    Nat.ofDigitChars_ten_toDigits]

theorem ofNat_ne_nil (n : Nat) : Text.ofNat n ≠ [] :=
  fun none => Nat.toDigits_ne_nil (List.map_eq_nil_iff.mp none)

theorem isVersion_ofNat {n : Nat} (small : n < 2 ^ 64) : IsVersion (Text.ofNat n) := by
  refine ⟨ofNat_ne_nil n, fun b mem => Text.isDigit_of_mem_ofNat mem, ?_⟩
  rwa [decimal_ofNat]

/-- The row of a version pragma. -/
def pragmaRow (version : Nat) : Text := Text.ofString "#pragma version " ++ Text.ofNat version

theorem pragmaRow_eq (version : Nat) : pragmaRow version =
    Text.join (Text.ofString " ") [pragmaMark, Text.ofString "version", Text.ofNat version] := by
  have front : Text.ofString "#pragma version " =
      pragmaMark ++ Text.ofString " " ++ (Text.ofString "version" ++ Text.ofString " ") := by decide
  rw [pragmaRow, front, Text.join, Text.join, Text.join]
  simp only [List.append_assoc]

theorem isVisible_of_isDigit {b : UInt8} (digit : Text.isDigit b = true) : Text.IsVisible b := by
  rw [Text.isDigit, Bool.and_eq_true, decide_eq_true_eq, decide_eq_true_eq, UInt8.le_iff_toNat_le,
    UInt8.le_iff_toNat_le] at digit
  exact ⟨le_trans (by decide) digit.1, le_trans digit.2 (by decide)⟩

theorem isRow_ofNat (n : Nat) : Text.IsRow (Text.ofNat n) :=
  Text.isRow_of_visible fun _ mem => isVisible_of_isDigit (Text.isDigit_of_mem_ofNat mem)

theorem isPlain_of_isDigit {b : UInt8} (digit : Text.isDigit b = true) : Fields.IsPlain b := by
  have other {x : UInt8} (none : Text.isDigit x = false) : b ≠ x := by
    rintro rfl
    rw [digit] at none
    cases none
  have gap : Fields.isGap b = false := by
    simp [Fields.isGap, other (x := Text.byte ' ') (by decide), other (x := Text.byte '\t') (by decide)]
  exact ⟨gap, other (by decide), other (by decide)⟩

theorem chain_pragma (version : Nat) :
    Fields.Chain false [pragmaMark, Text.ofString "version", Text.ofNat version] := by
  have plain {w : Text} (all : (w.all fun b => Fields.IsPlain b) = true) :
      ∀ b ∈ w, Fields.IsPlain b := fun b mem => of_decide_eq_true (List.all_eq_true.mp all b mem)
  refine Fields.chain_of_plain (fun w mem => ?_) false
  simp only [List.mem_cons, List.not_mem_nil, or_false] at mem
  rcases mem with rfl | rfl | rfl
  · exact ⟨by decide, plain (by decide)⟩
  · exact ⟨by decide, plain (by decide)⟩
  · exact ⟨ofNat_ne_nil version, fun b mem => isPlain_of_isDigit (Text.isDigit_of_mem_ofNat mem)⟩

theorem isRow_pragmaRow (version : Nat) : Text.IsRow (pragmaRow version) := by
  rw [pragmaRow_eq]
  refine Text.isRow_join (fun v mem => ?_) (fun v mem => ?_) (by decide)
    (isRow_ofNat version).last
  all_goals
    simp only [List.mem_cons, List.not_mem_nil, or_false] at mem
    rcases mem with rfl | rfl | rfl
  · decide
  · decide
  · exact ofNat_ne_nil version
  · decide
  · decide
  · exact (isRow_ofNat version).single

/-- **A version pragma is read as it is written.** -/
theorem reads_pragmaRow {version : Nat} (small : version < 2 ^ 64) :
    Reads (pragmaRow version) { version := some version } := by
  have row := isRow_pragmaRow version
  have pragma : IsPragma (pragmaRow version) := by
    rw [IsPragma, row.trim_eq]
    exact ⟨Text.ofString " version " ++ Text.ofNat version, by
      rw [pragmaRow, ← List.append_assoc]; rfl⟩
  have fields : words (pragmaRow version) =
      [pragmaMark, Text.ofString "version", Text.ofNat version] := by
    rw [pragmaRow_eq] at row ⊢
    exact words_join (chain_pragma version) row
  have reads := Reads.version pragma fields (isVersion_ofNat small)
  rwa [decimal_ofNat] at reads

end SourceLine

/-! ## What a text starts with -/

namespace Text

/-- What is left of a text behind `front`, if the text starts with it. -/
def behind? (front t : Text) : Option Text :=
  if t.startsWith front then some (t.drop front.length) else none

theorem behind?_append (front t : Text) : behind? front (front ++ t) = some t := by
  have starts : (front ++ t).startsWith front = true := by simp [startsWith]
  rw [behind?, if_pos starts, List.drop_left]

/-- The number that a text starts with, and what stands behind its digits. -/
def cutNumber? (t : Text) : Option (Nat × Text) :=
  (toNat? (t.takeWhile isDigit)).map (·, t.dropWhile isDigit)

theorem takeWhile_eq_nil {α : Type} {q : α → Bool} {as : List α}
    (other : ∀ a ∈ as.head?, q a = false) : as.takeWhile q = [] ∧ as.dropWhile q = as := by
  cases as with
  | nil => exact ⟨rfl, rfl⟩
  | cons a as =>
    have first : ¬ q a = true := by simp [other a rfl]
    exact ⟨List.takeWhile_cons_of_neg first, List.dropWhile_cons_of_neg first⟩

/-- A number is read back, if what stands behind it does not start with a digit. -/
theorem cutNumber?_ofNat (n : Nat) {rest : Text} (other : ∀ b ∈ rest.head?, isDigit b = false) :
    cutNumber? (ofNat n ++ rest) = some (n, rest) := by
  have digits : ∀ b ∈ ofNat n, isDigit b = true := fun _ mem => isDigit_of_mem_ofNat mem
  obtain ⟨none, all⟩ := takeWhile_eq_nil other
  rw [cutNumber?, List.takeWhile_append_of_pos digits, List.dropWhile_append_of_pos digits, none, all,
    List.append_nil, SourceLine.toNat?_of_digits (SourceLine.ofNat_ne_nil n) digits,
    SourceLine.decimal_ofNat]
  rfl

end Text

end TealAudit
