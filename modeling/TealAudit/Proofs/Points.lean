import Mathlib.Data.List.DropRight
import TealAudit.Text.Blank

/-!
# Points of joined texts

Reading a text point by point and joining texts go together wherever the seam is a **boundary**: the
text behind it does not start inside a code point. The first byte of a code point says how many bytes
follow it, and the bytes that follow are told from a first byte by their value (`Point.Spells`). So a
text that is cut short cannot take in what stands behind a boundary, and `Text.points_append` holds
whether or not the two texts are valid.

Trimming is a matter of points (`Text.points_trim`). The laws of trimming at the end of this module
say that it takes away the white space at the two ends of a text and nothing else.
-/

namespace TealAudit

/-! ## The bytes of a code point -/

namespace Point

/-- Whether a byte is one of those that follow the first byte of a code point. -/
def IsTail (b : UInt8) : Prop := 0x80 ≤ b ∧ b < 0xC0

instance (b : UInt8) : Decidable (IsTail b) := inferInstanceAs (Decidable (_ ∧ _))

/-- **The bytes that write the value `v`**: a first byte, as many behind it as it announces, none of
which could be a first byte, and the value that their bits make up. -/
structure Spells (v : Nat) (b : UInt8) (tail : Text) : Prop where
  first : ¬ IsTail b
  length : tail.length = tailLength b
  follows : ∀ x ∈ tail, IsTail x
  value : tail.foldl (fun n x => n * 64 + x.toNat % 64) (leadBits b) = v

theorem toNat_ofNat {n : Nat} (h : n < 256) : (UInt8.ofNat n).toNat = n := by
  rw [UInt8.toNat_ofNat', Nat.mod_eq_of_lt h]

theorem isTail_ofNat (n : Nat) : IsTail (UInt8.ofNat (n % 64 + 128)) := by
  simp only [IsTail, UInt8.le_iff_toNat_le, UInt8.lt_iff_toNat_lt, UInt8.reduceToNat]
  rw [toNat_ofNat (by omega)]
  omega

theorem bits_ofNat (n : Nat) : (UInt8.ofNat (n % 64 + 128)).toNat % 64 = n % 64 := by
  rw [toNat_ofNat (by omega)]
  omega

theorem not_isTail_ofNat {n : Nat} (small : n < 256) (apart : n < 128 ∨ 192 ≤ n) :
    ¬ IsTail (UInt8.ofNat n) := by
  simp only [IsTail, UInt8.le_iff_toNat_le, UInt8.lt_iff_toNat_lt, toNat_ofNat small,
    UInt8.reduceToNat]
  omega

theorem tailLength_ofNat {n : Nat} (small : n < 256) : tailLength (UInt8.ofNat n) =
    if n < 192 then 0 else if n < 224 then 1 else if n < 240 then 2 else 3 := by
  simp only [tailLength, UInt8.lt_iff_toNat_lt, toNat_ofNat small, UInt8.reduceToNat]

theorem leadBits_ofNat {n : Nat} (small : n < 256) : leadBits (UInt8.ofNat n) =
    if n < 128 then n else if n < 224 then n % 32 else if n < 240 then n % 16 else n % 8 := by
  simp only [leadBits, UInt8.lt_iff_toNat_lt, toNat_ofNat small, UInt8.reduceToNat]

theorem toNat_lt (c : Char) : c.toNat < 0x110000 := by
  rcases c.valid with low | ⟨_, high⟩
  · exact Nat.lt_trans low (by omega)
  · exact high

theorem exists_spells (c : Char) :
    ∃ b tail, String.utf8EncodeChar c = b :: tail ∧ Spells c.toNat b tail := by
  have bound := toNat_lt c
  have value : c.val.toNat = c.toNat := rfl
  simp only [String.utf8EncodeChar, value]
  generalize c.toNat = v at bound
  -- One case for each number of bytes; in each the bits of the bytes add up to `v`.
  split
  · refine ⟨_, _, rfl, not_isTail_ofNat (by omega) (by omega), ?_, by simp, ?_⟩
    · rw [tailLength_ofNat (by omega), if_pos (by omega)]
      rfl
    · rw [leadBits_ofNat (by omega), if_pos (by omega)]
      rfl
  · split
    · refine ⟨_, _, rfl, not_isTail_ofNat (by omega) (by omega), ?_, ?_, ?_⟩
      · rw [tailLength_ofNat (by omega), if_neg (by omega), if_pos (by omega)]
        rfl
      · simp only [List.forall_mem_singleton, isTail_ofNat]
      · rw [leadBits_ofNat (by omega), if_neg (by omega), if_pos (by omega)]
        simp only [List.foldl_cons, List.foldl_nil, bits_ofNat]
        omega
    · split
      · refine ⟨_, _, rfl, not_isTail_ofNat (by omega) (by omega), ?_, ?_, ?_⟩
        · rw [tailLength_ofNat (by omega), if_neg (by omega), if_neg (by omega), if_pos (by omega)]
          rfl
        · simp [isTail_ofNat, -UInt8.ofNat_add]
        · rw [leadBits_ofNat (by omega), if_neg (by omega), if_neg (by omega), if_pos (by omega)]
          simp only [List.foldl_cons, List.foldl_nil, bits_ofNat]
          omega
      · refine ⟨_, _, rfl, not_isTail_ofNat (by omega) (by omega), ?_, ?_, ?_⟩
        · rw [tailLength_ofNat (by omega), if_neg (by omega), if_neg (by omega), if_neg (by omega)]
          rfl
        · simp [isTail_ofNat, -UInt8.ofNat_add]
        · rw [leadBits_ofNat (by omega), if_neg (by omega), if_neg (by omega), if_neg (by omega)]
          simp only [List.foldl_cons, List.foldl_nil, bits_ofNat]
          omega

variable {c : Char} {b : UInt8} {tail rest : Text} {n : Nat}

theorem spells_of_encode (h : String.utf8EncodeChar c = b :: tail) : Spells c.toNat b tail := by
  obtain ⟨b', tail', eq, spells⟩ := exists_spells c
  rw [h] at eq
  cases eq
  exact spells

/-- **A code point is read back from its bytes**, whatever stands behind them. -/
theorem read?_encode (h : String.utf8EncodeChar c = b :: tail) (t : Text) :
    read? b (tail ++ t) = some (c, tail.length) := by
  have spells := spells_of_encode h
  have taken : (tail ++ t).take (tailLength b) = tail := by
    rw [← spells.length, List.take_left]
  simp only [read?, taken, spells.value, Char.ofNat_toNat, if_pos h]

theorem encode_of_read? (h : read? b rest = some (c, n)) :
    String.utf8EncodeChar c = b :: rest.take n ∧ n ≤ rest.length := by
  simp only [read?] at h
  split at h
  · next written =>
    cases h
    have length := (spells_of_encode written).length
    refine ⟨?_, ?_⟩
    · rw [length]
      exact written
    · rw [List.length_take]
      exact Nat.min_le_right _ _
  · cases h

end Point

/-! ## Points -/

namespace Text

open Point (IsTail)

theorem pointsFrom_eq (n : Nat) (t : Text) : pointsFrom n t = points (t.drop n) := by
  induction n generalizing t with
  | zero => rfl
  | succ n ih =>
    cases t with
    | nil => rfl
    | cons b t => exact ih t

theorem points_encode (c : Char) (t : Text) :
    points (String.utf8EncodeChar c ++ t) = .scalar c :: points t := by
  obtain ⟨b, tail, eq, _⟩ := Point.exists_spells c
  rw [eq, List.cons_append, points, pointsFrom, Point.read?_encode eq]
  simp only [pointsFrom_eq, List.drop_left]

theorem points_stray {b : UInt8} {t : Text} (h : Point.read? b t = none) :
    points (b :: t) = .stray b :: points t := by
  rw [points, pointsFrom, h]
  rfl

/-- **Induction over the points of a text.** -/
@[elab_as_elim]
theorem pointwise {motive : Text → Prop} (nil : motive [])
    (scalar : ∀ c t, motive t → motive (String.utf8EncodeChar c ++ t))
    (stray : ∀ b t, Point.read? b t = none → motive t → motive (b :: t)) (t : Text) : motive t := by
  induction length : t.length using Nat.strong_induction_on generalizing t with
  | _ k ih =>
    cases t with
    | nil => exact nil
    | cons b t =>
      rw [List.length_cons] at length
      cases read : Point.read? b t with
      | none => exact stray b t read (ih t.length (by omega) t rfl)
      | some found =>
        obtain ⟨c, n⟩ := found
        obtain ⟨eq, _⟩ := Point.encode_of_read? read
        have behind := scalar c (t.drop n) (ih _ (by rw [List.length_drop]; omega) _ rfl)
        rwa [eq, List.cons_append, List.take_append_drop] at behind

/-- Writing the points of a text gives the text back. -/
theorem ofPoints_points (t : Text) : ofPoints t.points = t := by
  induction t using pointwise with
  | nil => rfl
  | scalar c t ih =>
    rw [points_encode, ofPoints, List.flatMap_cons]
    exact congrArg _ ih
  | stray b t none ih =>
    rw [points_stray none, ofPoints, List.flatMap_cons]
    exact congrArg _ ih

theorem ofPoints_append (ps qs : List Point) : ofPoints (ps ++ qs) = ofPoints ps ++ ofPoints qs :=
  List.flatMap_append

/-- **A boundary**: the text does not start inside a code point. -/
def Boundary (t : Text) : Prop := ∀ b ∈ t.head?, ¬ IsTail b

theorem boundary_nil : Boundary [] := fun _ h => by cases h

theorem boundary_cons {b : UInt8} (h : ¬ IsTail b) (t : Text) : Boundary (b :: t) := by
  intro x first
  cases first
  exact h

/-- **Points of joined texts** are those of the two, where a boundary lies between them. -/
theorem points_append (t : Text) {u : Text} (boundary : Boundary u) :
    points (t ++ u) = points t ++ points u := by
  induction t using pointwise with
  | nil => rfl
  | scalar c t ih => rw [List.append_assoc, points_encode, points_encode, ih, List.cons_append]
  | stray b t none ih =>
    -- A code point that starts at `b` would have to reach into `u`, whose first byte it cannot hold.
    have still : Point.read? b (t ++ u) = .none := by
      cases read : Point.read? b (t ++ u) with
      | none => rfl
      | some found =>
        obtain ⟨c, n⟩ := found
        obtain ⟨eq, long⟩ := Point.encode_of_read? read
        by_cases inside : n ≤ t.length
        · rw [List.take_append_of_le_length inside] at eq
          have early := Point.read?_encode eq (t.drop n)
          rw [List.take_append_drop, none] at early
          cases early
        · cases u with
          | nil => simp at long inside; omega
          | cons x u =>
            have reached : x ∈ (t ++ x :: u).take n := by
              rw [List.take_append, List.mem_append]
              obtain ⟨k, more⟩ : ∃ k, n - t.length = k + 1 := ⟨n - t.length - 1, by omega⟩
              rw [more, List.take_succ_cons]
              exact .inr List.mem_cons_self
            exact absurd ((Point.spells_of_encode eq).follows x reached) (boundary x rfl)
    rw [List.cons_append, points_stray still, points_stray none, ih, List.cons_append]

/-! ## White space -/

theorem isBlank_encode {c : Char} {w : Text} :
    isBlank (String.utf8EncodeChar c ++ w) = true ↔ (Point.scalar c).isBlank = true ∧ isBlank w = true := by
  rw [isBlank, points_encode, List.all_cons, Bool.and_eq_true]
  rfl

theorem not_isBlank_stray {b : UInt8} {w : Text} (h : Point.read? b w = none) :
    ¬ isBlank (b :: w) = true := by
  rw [isBlank, points_stray h, List.all_cons]
  exact nofun

/-- White space starts no code point that it does not end. -/
theorem points_blank_append {w : Text} (blank : isBlank w = true) (t : Text) :
    points (w ++ t) = points w ++ points t := by
  induction w using pointwise with
  | nil => rfl
  | scalar c w ih =>
    rw [List.append_assoc, points_encode, points_encode, ih (isBlank_encode.mp blank).2,
      List.cons_append]
  | stray b w none _ => exact absurd blank (not_isBlank_stray none)

theorem isBlank_append {w : Text} (blank : isBlank w = true) (t : Text) :
    isBlank (w ++ t) = isBlank t := by
  have front : w.points.all Point.isBlank = true := blank
  rw [isBlank, points_blank_append blank, List.all_append, front, Bool.true_and]
  rfl

theorem boundary_of_isBlank {w : Text} (blank : isBlank w = true) : Boundary w := by
  cases w using pointwise with
  | nil => exact boundary_nil
  | scalar c w _ =>
    obtain ⟨b, tail, eq, spells⟩ := Point.exists_spells c
    rw [eq]
    exact boundary_cons spells.first _
  | stray b w none _ => exact absurd blank (not_isBlank_stray none)

theorem points_ofPoints_of_append {t : Text} {ps qs : List Point} (h : t.points = ps ++ qs) :
    (ofPoints qs).points = qs := by
  induction t using pointwise generalizing ps with
  | nil =>
    obtain ⟨rfl, rfl⟩ := List.append_eq_nil_iff.mp h.symm
    rfl
  | scalar c t ih =>
    cases ps with
    | nil => rw [← List.nil_append qs, ← h, ofPoints_points]
    | cons p ps =>
      rw [points_encode, List.cons_append] at h
      exact ih (List.cons.inj h).2
  | stray b t none ih =>
    cases ps with
    | nil => rw [← List.nil_append qs, ← h, ofPoints_points]
    | cons p ps =>
      rw [points_stray none, List.cons_append] at h
      exact ih (List.cons.inj h).2

theorem points_ofPoints_of_blank {t : Text} {ps qs : List Point} (h : t.points = ps ++ qs)
    (blank : ∀ q ∈ qs, q.isBlank = true) : (ofPoints ps).points = ps := by
  have behind := points_ofPoints_of_append h
  have white : isBlank (ofPoints qs) = true := by
    rw [isBlank, behind]
    exact List.all_eq_true.mpr blank
  have whole : t = ofPoints ps ++ ofPoints qs := by rw [← ofPoints_append, ← h, ofPoints_points]
  rw [whole, points_append _ (boundary_of_isBlank white), behind] at h
  exact List.append_cancel_right h

/-- The points that trimming leaves. -/
theorem points_trim (t : Text) :
    t.trim.points = (t.points.dropWhile Point.isBlank).rdropWhile Point.isBlank := by
  have front : t.points = t.points.takeWhile Point.isBlank ++ t.points.dropWhile Point.isBlank :=
    List.takeWhile_append_dropWhile.symm
  have started := points_ofPoints_of_append front
  rw [← List.rdropWhile_append_rtakeWhile (p := Point.isBlank)
    (l := t.points.dropWhile Point.isBlank)] at started
  exact points_ofPoints_of_blank started fun q mem => List.mem_rtakeWhile_imp mem

/-- Whether a byte is a visible ASCII character. -/
def IsVisible (b : UInt8) : Prop := 33 ≤ b.toNat ∧ b.toNat ≤ 126

instance (b : UInt8) : Decidable (IsVisible b) := inferInstanceAs (Decidable (_ ∧ _))

/-- A visible character is a point of its own, and no white space. -/
theorem points_of_visible {b : UInt8} (visible : IsVisible b) (t : Text) :
    ∃ p, p.isBlank = false ∧ points (b :: t) = p :: points t := by
  obtain ⟨least, most⟩ := visible
  have valid : b.toNat.isValidChar := .inl (by omega)
  have value : (Char.ofNat b.toNat).toNat = b.toNat := by
    rw [Char.ofNat, dif_pos valid]
    rfl
  have encode : String.utf8EncodeChar (Char.ofNat b.toNat) = [b] := by
    have small : (Char.ofNat b.toNat).toNat ≤ 127 := by omega
    refine (if_pos small).trans ?_
    change [UInt8.ofNat (Char.ofNat b.toNat).toNat] = [b]
    rw [value, UInt8.ofNat_toNat]
  refine ⟨.scalar (Char.ofNat b.toNat), ?_, ?_⟩
  · simp only [Point.isBlank, Point.blankRanges, value]
    simp
    omega
  · rw [← points_encode, encode]
    rfl

theorem isBlank_of_visible {t : Text} (visible : ∀ b ∈ t, IsVisible b) :
    ∀ p ∈ t.points, p.isBlank = false := by
  induction t with
  | nil => exact fun _ mem => (List.not_mem_nil mem).elim
  | cons b t ih =>
    obtain ⟨first, visible⟩ := List.forall_mem_cons.mp visible
    obtain ⟨p, dark, points⟩ := points_of_visible first t
    rw [points]
    exact List.forall_mem_cons.mpr ⟨dark, ih visible⟩

/-- White space does not start with a visible character. -/
theorem not_isVisible_of_isBlank {b : UInt8} {w : Text} (blank : isBlank (b :: w) = true) :
    ¬ IsVisible b := by
  intro visible
  obtain ⟨p, dark, points⟩ := points_of_visible visible w
  rw [isBlank, points, List.all_cons, dark] at blank
  cases blank

/-! ## Trimming -/

/-- A text that starts and ends with something else than white space is not changed. -/
theorem trim_eq_self {t : Text} (start : ∀ p ∈ t.points.head?, p.isBlank = false)
    (last : ∀ p ∈ t.points.getLast?, p.isBlank = false) : t.trim = t := by
  have front : t.points.dropWhile Point.isBlank = t.points := by
    cases points : t.points with
    | nil => rfl
    | cons p ps =>
      rw [points] at start
      exact List.dropWhile_cons_of_neg (by simp [start p rfl])
  have back : t.points.rdropWhile Point.isBlank = t.points := by
    rw [List.rdropWhile_eq_self_iff]
    intro nonempty
    simp [last _ (List.getLast?_eq_some_getLast nonempty)]
  change ofPoints ((t.points.dropWhile Point.isBlank).rdropWhile Point.isBlank) = t
  rw [front, back, ofPoints_points]

theorem head?_points_trim (t : Text) : ∀ p ∈ t.trim.points.head?, p.isBlank = false := by
  intro p first
  rw [points_trim] at first
  obtain ⟨rest, eq⟩ := List.rdropWhile_prefix Point.isBlank (l := t.points.dropWhile Point.isBlank)
  have head : (t.points.dropWhile Point.isBlank).head? = some p := by
    rw [← eq, List.head?_append, first]
    rfl
  have blank := List.head?_dropWhile_not Point.isBlank t.points
  rw [head] at blank
  exact blank

theorem getLast?_points_trim (t : Text) : ∀ p ∈ t.trim.points.getLast?, p.isBlank = false := by
  intro p last
  rw [points_trim] at last
  have nonempty : (t.points.dropWhile Point.isBlank).rdropWhile Point.isBlank ≠ [] := by
    intro nil
    rw [nil] at last
    cases last
  rw [List.getLast?_eq_some_getLast nonempty] at last
  cases last
  exact Bool.eq_false_iff.mpr (List.rdropWhile_last_not Point.isBlank _ nonempty)

theorem trim_trim (t : Text) : t.trim.trim = t.trim :=
  trim_eq_self (head?_points_trim t) (getLast?_points_trim t)

/-- White space around a text makes no difference. -/
theorem trim_blank_append_blank {w w' : Text} (front : isBlank w = true) (back : isBlank w' = true)
    (t : Text) : trim (w ++ t ++ w') = trim t := by
  have before : ∀ p ∈ w.points, p.isBlank = true := List.all_eq_true.mp front
  have behind : ∀ p ∈ w'.points, p.isBlank = true := List.all_eq_true.mp back
  have all : points (w ++ t ++ w') = w.points ++ (t.points ++ w'.points) := by
    rw [List.append_assoc, points_blank_append front, points_append t (boundary_of_isBlank back)]
  change ofPoints ((points (w ++ t ++ w')).dropWhile Point.isBlank |>.rdropWhile Point.isBlank) =
    ofPoints ((t.points.dropWhile Point.isBlank).rdropWhile Point.isBlank)
  rw [all, List.dropWhile_append_of_pos before, List.dropWhile_append]
  congr 1
  split
  · next none =>
    rw [List.isEmpty_iff.mp none, List.dropWhile_eq_nil_iff.mpr behind]
  · simp only [List.rdropWhile, List.reverse_append]
    rw [List.dropWhile_append_of_pos]
    exact fun p mem => behind p (List.mem_reverse.mp mem)

theorem points_ofPoints_blank {ps : List Point} (blank : ∀ p ∈ ps, p.isBlank = true) :
    (ofPoints ps).points = ps := by
  induction ps with
  | nil => rfl
  | cons p ps ih =>
    obtain ⟨first, rest⟩ := List.forall_mem_cons.mp blank
    cases p with
    | stray b => cases first
    | scalar c =>
      rw [ofPoints, List.flatMap_cons]
      exact (points_encode c _).trans (congrArg _ (ih rest))

theorem isBlank_ofPoints {ps : List Point} (blank : ∀ p ∈ ps, p.isBlank = true) :
    isBlank (ofPoints ps) = true := by
  rw [isBlank, points_ofPoints_blank blank]
  exact List.all_eq_true.mpr blank

/-- **A text is what trimming leaves of it between white space.** -/
theorem exists_trim (t : Text) : ∃ front back, isBlank front = true ∧ isBlank back = true ∧
    t = front ++ trim t ++ back := by
  have before : isBlank (ofPoints (t.points.takeWhile Point.isBlank)) = true :=
    isBlank_ofPoints fun _ mem => List.mem_takeWhile_imp mem
  have behind : isBlank (ofPoints ((t.points.dropWhile Point.isBlank).rtakeWhile Point.isBlank)) =
      true := isBlank_ofPoints fun _ mem => List.mem_rtakeWhile_imp mem
  refine ⟨_, _, before, behind, ?_⟩
  change t = ofPoints _ ++ ofPoints ((t.points.dropWhile Point.isBlank).rdropWhile Point.isBlank) ++
    ofPoints _
  rw [List.append_assoc, ← ofPoints_append, List.rdropWhile_append_rtakeWhile, ← ofPoints_append,
    List.takeWhile_append_dropWhile, ofPoints_points]

/-- What starts with something else than white space is not trimmed at its start. -/
theorem trimStart_append {t u : Text} (some : t.points ≠ [])
    (start : ∀ p ∈ t.points.head?, p.isBlank = false) (boundary : Boundary u) :
    trimStart (t ++ u) = t ++ u := by
  obtain ⟨p, ps, points⟩ := List.exists_cons_of_ne_nil some
  rw [points] at start
  rw [trimStart, points_append t boundary, points, List.cons_append,
    List.dropWhile_cons_of_neg (by simp [start p rfl]), ← List.cons_append, ← points,
    ← points_append t boundary, ofPoints_points]

/-- Two texts are trimmed apart when the second starts with something else than white space. -/
theorem trim_append {s : Text} (boundary : Boundary s) {p : Point} {ps : List Point}
    (points : s.points = p :: ps) (dark : p.isBlank = false) (t : Text) :
    trim (t ++ s) = trimStart t ++ trim s := by
  have front : s.points.dropWhile Point.isBlank = s.points := by
    rw [points]
    exact List.dropWhile_cons_of_neg (by simp [dark])
  have all : (Text.points (t ++ s)).dropWhile Point.isBlank =
      t.points.dropWhile Point.isBlank ++ s.points := by
    rw [points_append t boundary, List.dropWhile_append]
    split
    · next none => rw [List.isEmpty_iff.mp none, front, List.nil_append]
    · rfl
  have kept : ¬ (s.points.reverse.dropWhile Point.isBlank).isEmpty = true := by
    rw [List.isEmpty_iff, List.dropWhile_eq_nil_iff]
    intro blank
    have := blank p (by rw [points]; simp)
    rw [dark] at this
    cases this
  have back : (t.points.dropWhile Point.isBlank ++ s.points).rdropWhile Point.isBlank =
      t.points.dropWhile Point.isBlank ++ s.points.rdropWhile Point.isBlank := by
    simp only [List.rdropWhile, List.reverse_append]
    rw [List.dropWhile_append, if_neg kept, List.reverse_append, List.reverse_reverse]
  change ofPoints (((Text.points (t ++ s)).dropWhile Point.isBlank).rdropWhile Point.isBlank) =
    ofPoints (t.points.dropWhile Point.isBlank) ++
      ofPoints ((s.points.dropWhile Point.isBlank).rdropWhile Point.isBlank)
  rw [all, back, front, ofPoints_append]

end Text

end TealAudit
