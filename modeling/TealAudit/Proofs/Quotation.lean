import Mathlib.Algebra.Group.Nat.Defs
import TealAudit.Proofs.Points
import TealAudit.Text.Quoted

/-!
# Reading quoted texts

`Text.cutQuoted?` reads a text in quotes from the front of a text, byte by byte, and gives what is
left behind the closing quote. A byte stands for itself unless it is a quote or a backslash, and an
escape is a letter or a number in base sixteen. The reader knows nothing of which points are
printable.

Every text is read back from its quoted form, whatever stands behind it
(`Text.cutQuoted?_quote`). What is read holds no line feed (`Text.exists_used`), so a quoted text
never goes past the end of a line.
-/

namespace TealAudit

namespace Text

/-! ## The reader -/

/-- The value of a digit of base sixteen, in either case. -/
def hexValue? (b : UInt8) : Option Nat :=
  if 48 ≤ b.toNat ∧ b.toNat ≤ 57 then some (b.toNat - 48)
  else if 97 ≤ b.toNat ∧ b.toNat ≤ 102 then some (b.toNat - 87)
  else if 65 ≤ b.toNat ∧ b.toNat ≤ 70 then some (b.toNat - 55)
  else none

/-- The letters that may stand behind a backslash, with the bytes they stand for. -/
def escapes : List (UInt8 × UInt8) :=
  [(byte 'a', 7), (byte 'b', 8), (byte 't', 9), (byte 'n', 10), (byte 'v', 11), (byte 'f', 12),
    (byte 'r', 13), (byte '"', 34), (byte '\\', 92)]

/-- What the number of an escape stands for: a code point when the escape is wide, a byte when it is
not. -/
def numbered? (wide : Bool) (v : Nat) : Option Text :=
  if !wide then some [UInt8.ofNat v]
  else if v.isValidChar then some (String.utf8EncodeChar (Char.ofNat v)) else none

/-- **Where a reader of a quoted text is**: between escapes, right behind a backslash, or in the
number of an escape, with `more` digits to come behind the next one. -/
inductive Quotation where
  | plain
  | escape
  | number (more value : Nat) (wide : Bool)

/-- A reading with more in front. -/
def ahead (front : Text) : Option (Text × Text) → Option (Text × Text) :=
  Option.map fun read => (front ++ read.1, read.2)

/-- What is read up to the closing quote, and what is left behind it. -/
def cutFrom : Quotation → Text → Option (Text × Text)
  | _, [] => none
  | .plain, b :: t =>
    if b = byte '"' then some ([], t)
    else if b = byte '\\' then cutFrom .escape t
    else if b = byte '\n' then none
    else ahead [b] (cutFrom .plain t)
  | .escape, b :: t =>
    if b = byte 'x' then cutFrom (.number 1 0 false) t
    else if b = byte 'u' then cutFrom (.number 3 0 true) t
    else if b = byte 'U' then cutFrom (.number 7 0 true) t
    else (escapes.lookup b).bind fun v => ahead [v] (cutFrom .plain t)
  | .number 0 value wide, b :: t =>
    (hexValue? b).bind fun d => (numbered? wide (value * 16 + d)).bind fun w =>
      ahead w (cutFrom .plain t)
  | .number (more + 1) value wide, b :: t =>
    (hexValue? b).bind fun d => cutFrom (.number more (value * 16 + d) wide) t

/-- **A quoted text at the front of a text**: what it stands for, and what is left behind it. -/
def cutQuoted? : Text → Option (Text × Text)
  | [] => none
  | b :: t => if b = byte '"' then cutFrom .plain t else none

theorem ahead_ahead (front w : Text) (read : Option (Text × Text)) :
    ahead front (ahead w read) = ahead (front ++ w) read := by
  cases read with
  | none => rfl
  | some read => simp [ahead]

/-! ## One line -/

theorem ahead_eq_some {front value rest : Text} {read : Option (Text × Text)}
    (h : ahead front read = some (value, rest)) : ∃ v, read = some (v, rest) := by
  obtain ⟨⟨v, rest'⟩, rfl, eq⟩ := Option.map_eq_some_iff.mp h
  cases eq
  exact ⟨v, rfl⟩

/-- **What is read of a quoted text is on one line.** -/
theorem exists_used {place : Quotation} {t value rest : Text}
    (read : cutFrom place t = some (value, rest)) :
    ∃ used, t = used ++ rest ∧ byte '\n' ∉ used := by
  have longer {b : UInt8} {t : Text} (other : b ≠ byte '\n')
      (ih : ∃ used, t = used ++ rest ∧ byte '\n' ∉ used) :
      ∃ used, b :: t = used ++ rest ∧ byte '\n' ∉ used := by
    obtain ⟨used, rfl, none⟩ := ih
    exact ⟨b :: used, rfl, List.not_mem_cons_of_ne_of_not_mem other.symm none⟩
  have digit {b : UInt8} {d : Nat} (value : hexValue? b = some d) : b ≠ byte '\n' := by
    rintro rfl
    cases value
  fun_induction cutFrom place t generalizing value with
  | case1 => cases read
  | case2 t =>
    cases read
    exact ⟨[byte '"'], rfl, by decide⟩
  | case3 t _ ih => exact longer (by decide) (ih read)
  | case4 => cases read
  | case5 b t _ _ other ih =>
    obtain ⟨v, read⟩ := ahead_eq_some read
    exact longer other (ih read)
  | case6 t ih => exact longer (by decide) (ih read)
  | case7 t _ ih => exact longer (by decide) (ih read)
  | case8 t _ _ ih => exact longer (by decide) (ih read)
  | case9 b t _ _ _ ih =>
    obtain ⟨v, letter, read⟩ := Option.bind_eq_some_iff.mp read
    obtain ⟨w, read⟩ := ahead_eq_some read
    have other : b ≠ byte '\n' := by
      rintro rfl
      cases letter
    exact longer other (ih read)
  | case10 value wide b t ih =>
    obtain ⟨d, hex, read⟩ := Option.bind_eq_some_iff.mp read
    obtain ⟨w, _, read⟩ := Option.bind_eq_some_iff.mp read
    obtain ⟨v, read⟩ := ahead_eq_some read
    exact longer (digit hex) (ih read)
  | case11 more value wide b t ih =>
    obtain ⟨d, hex, read⟩ := Option.bind_eq_some_iff.mp read
    exact longer (digit hex) (ih d read)

theorem exists_used_quoted {t value rest : Text} (read : cutQuoted? t = some (value, rest)) :
    ∃ used, t = used ++ rest ∧ byte '\n' ∉ used := by
  cases t with
  | nil => cases read
  | cons b t =>
    rw [cutQuoted?] at read
    split at read
    · next quote =>
      obtain ⟨used, rfl, none⟩ := exists_used read
      refine ⟨b :: used, rfl, List.not_mem_cons_of_ne_of_not_mem ?_ none⟩
      rw [quote]
      decide
    · cases read

/-! ## Numbers in base sixteen -/

theorem hexValue?_hexDigit {d : Nat} (small : d < 16) : hexValue? (hexDigit d) = some d := by
  have all : ∀ d < 16, hexValue? (hexDigit d) = some d := by decide
  exact all d small

/-- The digits of a number move a reader on by as many digits, and make up the number's last
digits. -/
theorem cutFrom_hex (w more n value : Nat) (wide : Bool) (t : Text) :
    cutFrom (.number (w + more) value wide) (hex w n ++ t) =
      cutFrom (.number more (value * 16 ^ w + n % 16 ^ w) wide) t := by
  induction w generalizing n more t with
  | zero => simp [hex, Nat.mod_one]
  | succ w ih =>
    have digits : (value * 16 ^ w + n / 16 % 16 ^ w) * 16 + n % 16 =
        value * 16 ^ (w + 1) + n % 16 ^ (w + 1) := by
      rw [Nat.pow_succ, Nat.mul_comm (16 ^ w) 16, Nat.mod_mul, Nat.add_mul, Nat.mul_assoc,
        Nat.mul_comm (16 ^ w) 16]
      omega
    rw [hex, List.append_assoc, Nat.add_right_comm, Nat.add_assoc, ih, List.singleton_append,
      cutFrom, hexValue?_hexDigit (Nat.mod_lt _ (by omega)), Option.bind_some, digits]

/-- **The number of an escape is read back** when it has no more digits than the escape. -/
theorem cutFrom_number {w n : Nat} {wide : Bool} {value : Text} (small : n < 16 ^ (w + 1))
    (stands : numbered? wide n = some value) (t : Text) :
    cutFrom (.number w 0 wide) (hex (w + 1) n ++ t) = ahead value (cutFrom .plain t) := by
  have digits : n / 16 % 16 ^ w * 16 + n % 16 = n := by
    have short : n / 16 < 16 ^ w := by
      rw [Nat.div_lt_iff_lt_mul (by omega), ← Nat.pow_succ]
      exact small
    rw [Nat.mod_eq_of_lt short]
    omega
  rw [hex, List.append_assoc]
  refine (cutFrom_hex w 0 (n / 16) 0 wide _).trans ?_
  rw [Nat.zero_mul, Nat.zero_add, List.singleton_append, cutFrom,
    hexValue?_hexDigit (Nat.mod_lt _ (by omega)), Option.bind_some, digits, stands,
    Option.bind_some]

theorem numbered?_wide (c : Char) : numbered? true c.toNat = some (String.utf8EncodeChar c) := by
  have valid : c.toNat.isValidChar := c.valid
  rw [numbered?, if_neg (by decide), if_pos valid, Char.ofNat_toNat]

/-! ## Points -/

/-- A first byte of ASCII is all there is of a code point. -/
theorem toNat_of_spells {v : Nat} {b : UInt8} {tail : Text} (spells : Point.Spells v b tail)
    (low : b.toNat < 0x80) : b.toNat = v := by
  have small : b < 0x80 := low
  have alone : tail = [] := by
    apply List.eq_nil_of_length_eq_zero
    rw [spells.length, Point.tailLength, if_pos (UInt8.lt_trans small (by decide))]
  have value := spells.value
  rw [alone, List.foldl_nil, Point.leadBits, if_pos small] at value
  exact value

theorem utf8EncodeChar_of_lt {c : Char} (ascii : c.toNat < 0x80) :
    String.utf8EncodeChar c = [UInt8.ofNat c.toNat] := by
  have value : c.val.toNat = c.toNat := rfl
  rw [String.utf8EncodeChar]
  simp only [value]
  rw [if_pos (by omega)]

/-- All bytes of a code point above ASCII are above it. -/
theorem le_of_mem_encode {c : Char} (high : 0x80 ≤ c.toNat) {b : UInt8}
    (mem : b ∈ String.utf8EncodeChar c) : 0x80 ≤ b.toNat := by
  obtain ⟨first, tail, eq, spells⟩ := Point.exists_spells c
  rw [eq] at mem
  rcases List.mem_cons.mp mem with rfl | mem
  · refine Nat.le_of_not_lt fun low => ?_
    have value := toNat_of_spells spells low
    omega
  · exact (spells.follows b mem).1

/-- Bytes that stand for themselves in a quoted text. -/
def IsVerbatim (b : UInt8) : Prop := b ≠ byte '"' ∧ b ≠ byte '\\' ∧ b ≠ byte '\n'

theorem cutFrom_verbatim {w : Text} (verbatim : ∀ b ∈ w, IsVerbatim b) (t : Text) :
    cutFrom .plain (w ++ t) = ahead w (cutFrom .plain t) := by
  induction w with
  | nil => simp [ahead]
  | cons b w ih =>
    obtain ⟨⟨quote, backslash, newline⟩, verbatim⟩ := List.forall_mem_cons.mp verbatim
    rw [List.cons_append, cutFrom, if_neg quote, if_neg backslash, if_neg newline, ih verbatim]
    exact ahead_ahead [b] w _

/-- The bytes of a code point that has no letter stand for themselves: those of an ASCII character
are the character, and all others are above ASCII. -/
theorem isVerbatim_of_mem {c : Char} (letterless : escapeLetter? c = none) {b : UInt8}
    (mem : b ∈ String.utf8EncodeChar c) : IsVerbatim b := by
  by_cases ascii : c.toNat < 0x80
  · rw [utf8EncodeChar_of_lt ascii, List.mem_singleton] at mem
    have value : b.toNat = c.toNat := by rw [mem, Point.toNat_ofNat (by omega)]
    refine ⟨?_, ?_, ?_⟩ <;>
    · rintro rfl
      rw [escapeLetter?, ← value] at letterless
      cases letterless
  · have high := le_of_mem_encode (Nat.le_of_not_lt ascii) mem
    refine ⟨?_, ?_, ?_⟩ <;>
    · rintro rfl
      exact absurd high (by decide)

theorem cutFrom_letter {c letter : Char} (h : escapeLetter? c = some letter) (t : Text) :
    cutFrom .escape (byte letter :: t) = ahead (String.utf8EncodeChar c) (cutFrom .plain t) := by
  have known : c.toNat < 0x80 ∧
      cutFrom .escape (byte letter :: t) = ahead [UInt8.ofNat c.toNat] (cutFrom .plain t) := by
    unfold escapeLetter? at h
    split at h <;> cases h <;> next value =>
      rw [value]
      exact ⟨by decide, rfl⟩
  rw [utf8EncodeChar_of_lt known.1, known.2]

/-- **A point is read back** from the way it is written between quotes. -/
theorem cutFrom_escape (p : Point) (t : Text) :
    cutFrom .plain (p.escape ++ t) = ahead p.encode (cutFrom .plain t) := by
  cases p with
  | stray b =>
    have stands : numbered? false b.toNat = some [b] := by simp [numbered?]
    exact cutFrom_number (w := 1) b.toNat_lt stands t
  | scalar c =>
    have bound := Point.toNat_lt c
    rw [Point.escape, Point.encode]
    split
    · next letter => exact cutFrom_letter letter t
    · next letterless =>
      split_ifs with printable ascii short
      · exact cutFrom_verbatim (fun b => isVerbatim_of_mem letterless) t
      · rw [utf8EncodeChar_of_lt ascii]
        exact cutFrom_number (w := 1) (by omega) rfl t
      · exact cutFrom_number (w := 3) (by omega) (numbered?_wide c) t
      · exact cutFrom_number (w := 7) (by omega) (numbered?_wide c) t

/-! ## Texts -/

/-- **Every text is read back from its quoted form**, whatever stands behind it. -/
theorem cutQuoted?_quote (t rest : Text) : cutQuoted? (quote t ++ rest) = some (t, rest) := by
  have points (ps : List Point) : cutFrom .plain (ps.flatMap Point.escape ++ byte '"' :: rest) =
      some (ofPoints ps, rest) := by
    induction ps with
    | nil => rfl
    | cons p ps ih =>
      rw [List.flatMap_cons, List.append_assoc, cutFrom_escape, ih]
      rfl
  have opened : quote t ++ rest =
      byte '"' :: (t.points.flatMap Point.escape ++ byte '"' :: rest) := by
    rw [quote, List.append_assoc]
    rfl
  rw [opened, cutQuoted?, if_pos rfl, points, ofPoints_points]

/-- A quoted text is on one line. -/
theorem newline_not_mem_quote (t : Text) : byte '\n' ∉ quote t := by
  have read := cutQuoted?_quote t []
  obtain ⟨used, eq, none⟩ := exists_used_quoted read
  rw [List.append_nil, List.append_nil] at eq
  rw [eq]
  exact none

end Text

end TealAudit
