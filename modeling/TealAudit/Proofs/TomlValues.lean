import TealAudit.Proofs.Quotation
import TealAudit.Proofs.Rows
import TealAudit.Toml.Reader
import TealAudit.Toml.Writer

/-!
# Names and values in TOML

A name is written as it is if its bytes allow that and in quotes otherwise, a text always in quotes, and
a flag or a number as a word. Here each of them is read back from what is written, whatever follows in
the text (`Toml.exists_written_name`, `Toml.exists_written_value`).

The writer goes byte by byte and the reader character by character, so a written text is also given by
its characters (`Toml.Written`). In quotes, some characters stand for each character of a text
(`Toml.standFor`), and it is read back from them (`Toml.basicFrom_quoted`). A number is read back if it
fits into 64 bits (`Numeral.integer_ofInt`).
-/

/-- What is done with a result is done with its value. -/
theorem Except.ok_bind {ε α β : Type} (a : α) (f : α → Except ε β) : (Except.ok a >>= f) = f a := rfl

namespace TealAudit

/-! ## Characters of valid texts -/

namespace Text

theorem ofChars_append (cs ds : List Char) : ofChars (cs ++ ds) = ofChars cs ++ ofChars ds :=
  List.flatMap_append

theorem points_ofChars (cs : List Char) : points (ofChars cs) = cs.map .scalar := by
  induction cs with
  | nil => rfl
  | cons c cs ih =>
    rw [ofChars, List.flatMap_cons, points_encode]
    exact congrArg _ ih

theorem isValid_ofChars (cs : List Char) : (ofChars cs).isValid = true := by
  rw [isValid, points_ofChars, List.all_map]
  exact List.all_eq_true.mpr fun _ _ => rfl

theorem chars?_ofChars (cs : List Char) : (ofChars cs).chars? = some cs := by
  rw [chars?, points_ofChars]
  induction cs with
  | nil => rfl
  | cons c cs ih =>
    rw [List.map_cons, List.mapM_cons, ih]
    rfl

/-- **A valid text is made of characters.** -/
theorem exists_ofChars {t : Text} (valid : t.isValid = true) : ∃ cs, t = ofChars cs := by
  induction t using pointwise with
  | nil => exact ⟨[], rfl⟩
  | scalar c t ih =>
    rw [isValid, points_encode] at valid
    obtain ⟨cs, rfl⟩ := ih valid
    exact ⟨c :: cs, rfl⟩
  | stray b t none _ =>
    rw [isValid, points_stray none] at valid
    cases valid

end Text

namespace Toml

/-- Whether a character may stand in any place of a text: a line feed, or no control code. -/
def isOpen (c : Char) : Bool := c = '\n' || (0x20 ≤ c.toNat && c.toNat ≠ 0x7F)

/-- **A text written by characters**, all of which may stand in any place. -/
structure Written (t : Text) (cs : List Char) : Prop where
  eq : t = Text.ofChars cs
  isOpen : ∀ c ∈ cs, isOpen c = true

namespace Written

theorem append {t u : Text} {cs ds : List Char} (first : Written t cs) (second : Written u ds) :
    Written (t ++ u) (cs ++ ds) where
  eq := by rw [Text.ofChars_append, first.eq, second.eq]
  isOpen := List.forall_mem_append.mpr ⟨first.isOpen, second.isOpen⟩

theorem literal {s : String} (plain : s.toList.all Toml.isOpen = true) : Written s s.toList :=
  ⟨rfl, List.all_eq_true.mp plain⟩

end Written

/-! ## Texts in quotes -/

/-- The characters that stand for one in quotes. -/
def quotedChar (c : Char) : List Char :=
  if c.toNat < 0x80 then (quotedByte (UInt8.ofNat c.toNat)).map fun b => Char.ofNat b.toNat else [c]

/-- Whether characters in quotes stand for `c`: it stands for itself, or it is escaped by a letter or by
its number. -/
def standFor (c : Char) : List Char → Bool
  | [x] => x = c && x ≠ '"' && x ≠ '\\' && !isLineEnd x
  | [x, y] => x = '\\' && y ≠ 'u' && y ≠ 'U' && escaped? y = some c
  | x :: y :: digits => x = '\\' && y = 'u' && digits.length = 4 && hexNumber digits = some c.toNat
  | [] => false

theorem quotedChar_ascii : ∀ n < 0x80, let c := Char.ofNat n
    standFor c (quotedChar c) = true ∧ (quotedChar c).all isOpen = true ∧
      Text.ofChars (quotedChar c) = quotedByte (UInt8.ofNat n) := by
  decide +kernel

/-- The bytes of a character outside ASCII stand for themselves. -/
theorem quotedByte_of_le {b : UInt8} (high : 0x80 ≤ b.toNat) : quotedByte b = [b] := by
  have none : [(0x08, 'b'), (0x09, 't'), (0x0A, 'n'), (0x0C, 'f'), (0x0D, 'r'), (0x22, '"'),
      (0x5C, '\\')].lookup b.toNat = none := by
    refine List.lookup_eq_none_iff.mpr ?_
    simp only [List.forall_mem_cons, bne_iff_ne, ne_eq]
    refine ⟨by omega, by omega, by omega, by omega, by omega, by omega, by omega, nofun⟩
  have low : (decide (b < 0x20) || decide (b = 0x7F)) = false := by
    simp only [UInt8.lt_iff_toNat_lt, ← UInt8.toNat_inj, UInt8.reduceToNat, Bool.or_eq_false_iff,
      decide_eq_false_iff_not]
    omega
  simp only [quotedByte, none, low, Bool.false_eq_true, if_false]

/-- **How a character is written in quotes.** -/
theorem quotedChar_spec (c : Char) : standFor c (quotedChar c) = true ∧
    Written ((String.utf8EncodeChar c).flatMap quotedByte) (quotedChar c) := by
  by_cases ascii : c.toNat < 0x80
  · obtain ⟨stands, allowed, eq⟩ := quotedChar_ascii c.toNat ascii
    rw [Char.ofNat_toNat] at stands allowed eq
    refine ⟨stands, ?_, List.all_eq_true.mp allowed⟩
    rw [Text.utf8EncodeChar_of_lt ascii, List.flatMap_singleton, eq]
  · have high := Nat.le_of_not_lt ascii
    have alone : quotedChar c = [c] := if_neg ascii
    have shown : isOpen c = true := by
      simp only [isOpen, Bool.or_eq_true, Bool.and_eq_true, decide_eq_true_eq]
      omega
    have apart (x : Char) (low : x.toNat < 0x80) : c ≠ x := by
      rintro rfl
      omega
    rw [alone]
    refine ⟨?_, ?_, List.forall_mem_singleton.mpr shown⟩
    · simp only [standFor, isLineEnd, decide_true, Bool.true_and, decide_eq_true_eq, Bool.and_eq_true,
        ne_eq, Bool.not_eq_true', Bool.or_eq_false_iff, decide_eq_false_iff_not]
      exact ⟨⟨apart _ (by decide), apart _ (by decide)⟩, apart _ (by decide), apart _ (by decide)⟩
    · have same : ∀ b ∈ String.utf8EncodeChar c, quotedByte b = [b] :=
        fun b mem => quotedByte_of_le (Text.le_of_mem_encode high mem)
      rw [List.flatMap_congr same, List.flatMap_singleton', Text.ofChars, List.flatMap_singleton]

/-- What a text is in quotes. -/
theorem written_quoted (cs : List Char) :
    Written (quoted (Text.ofChars cs)) ('"' :: cs.flatMap quotedChar ++ ['"']) := by
  have inner : Written ((Text.ofChars cs).flatMap quotedByte) (cs.flatMap quotedChar) := by
    induction cs with
    | nil => exact ⟨rfl, nofun⟩
    | cons c cs ih =>
      rw [Text.ofChars, List.flatMap_cons, List.flatMap_append, List.flatMap_cons]
      exact (quotedChar_spec c).2.append ih
  have mark : Written (Text.ofString "\"") ['"'] := .literal (s := "\"") (by decide)
  exact (mark.append inner).append mark

theorem basicFrom_skip {lines : Bool} {before : Before} (xs rest : List Char) :
    basicFrom lines xs.length before (xs ++ rest) = basicFrom lines 0 before rest := by
  induction xs with
  | nil => rfl
  | cons x xs ih => exact ih

/-- **A character in quotes is read back**, whatever follows. -/
theorem basicFrom_standFor {c : Char} {ds : List Char} (stands : standFor c ds = true)
    {before : Before} (here : before ≠ .join) (rest : List Char) :
    ∃ behind, behind ≠ Before.join ∧ basicFrom false 0 before (ds ++ rest) =
      (basicFrom false 0 behind rest).map fun (cs, e) => (c :: cs, e) := by
  unfold standFor at stands
  split at stands
  · next x =>
    simp only [Bool.and_eq_true, decide_eq_true_eq, Bool.not_eq_true'] at stands
    obtain ⟨⟨⟨rfl, quote⟩, slash⟩, inLine⟩ := stands
    refine ⟨.other, nofun, ?_⟩
    simp [basicFrom, here, quote, slash, inLine]
  · next x y =>
    simp only [Bool.and_eq_true, decide_eq_true_eq] at stands
    obtain ⟨⟨⟨rfl, short⟩, long⟩, letter⟩ := stands
    refine ⟨if c = '\\' then .backslash else .other, by split <;> nofun, ?_⟩
    simp [basicFrom, here, short, long, letter]
  · next x y digits _ =>
    simp only [Bool.and_eq_true, decide_eq_true_eq] at stands
    obtain ⟨⟨⟨rfl, rfl⟩, four⟩, number⟩ := stands
    refine ⟨.other, nofun, ?_⟩
    have valid : c.toNat.isValidChar := c.valid
    have skipped : basicFrom false 4 .other (digits ++ rest) = basicFrom false 0 .other rest := by
      rw [← four, basicFrom_skip]
    simp [basicFrom, here, four, number, valid, skipped]
  · cases stands

/-- **A text in quotes is read back**, whatever follows. -/
theorem basicFrom_quoted {before : Before} (here : before ≠ .join) (cs rest : List Char) :
    basicFrom false 0 before (cs.flatMap quotedChar ++ '"' :: rest) = some (cs, rest) := by
  induction cs generalizing before with
  | nil => simp [basicFrom, here]
  | cons c cs ih =>
    rw [List.flatMap_cons, List.append_assoc]
    obtain ⟨behind, there, eq⟩ := basicFrom_standFor (quotedChar_spec c).1 here
      (cs.flatMap quotedChar ++ '"' :: rest)
    rw [eq, ih there]
    rfl

/-! ## Names -/

/-- Whether a name may start with a character. -/
def startsName (c : Char) : Bool := c = '"' || isBareKeyChar c

theorem isOpen_of_isBareKeyChar {c : Char} (bare : isBareKeyChar c = true) : isOpen c = true := by
  have letter : c.isAlpha = (decide ('A'.val ≤ c.val ∧ c.val ≤ 'Z'.val) ||
      decide ('a'.val ≤ c.val) && decide (c.val ≤ 'z'.val)) := rfl
  simp only [isBareKeyChar, Char.isAlphanum, letter, Char.isDigit, Bool.or_eq_true, Bool.and_eq_true,
    decide_eq_true_eq, UInt32.le_iff_toNat_le] at bare
  simp only [isOpen, Bool.or_eq_true, Bool.and_eq_true, decide_eq_true_eq]
  have marks : 'A'.val.toNat = 65 ∧ 'Z'.val.toNat = 90 ∧ 'a'.val.toNat = 97 ∧ 'z'.val.toNat = 122 ∧
      '0'.val.toNat = 48 ∧ '9'.val.toNat = 57 := by decide
  have value : c.val.toNat = c.toNat := rfl
  rcases bare with (bare | rfl) | rfl
  · omega
  · decide
  · decide

theorem isBareKeyChar_ofNat :
    ∀ n < 0x80, isBareByte (UInt8.ofNat n) = isBareKeyChar (Char.ofNat n) := by
  decide +kernel

theorem lt_of_isBareByte {b : UInt8} (bare : isBareByte b = true) : b.toNat < 0x80 := by
  simp only [isBareByte, Text.isDigit, Bool.or_eq_true, Bool.and_eq_true, decide_eq_true_eq,
    UInt8.le_iff_toNat_le, ← UInt8.toNat_inj] at bare
  have marks : (Text.byte '9').toNat = 57 ∧ (Text.byte 'z').toNat = 122 ∧ (Text.byte 'Z').toNat = 90 ∧
      (Text.byte '_').toNat = 95 ∧ (Text.byte '-').toNat = 45 := by decide
  omega

theorem forall_isBareKeyChar {cs : List Char} (bare : (Text.ofChars cs).all isBareByte = true) :
    ∀ c ∈ cs, isBareKeyChar c = true := by
  intro c mem
  have bytes : ∀ b ∈ String.utf8EncodeChar c, isBareByte b = true :=
    fun b among => List.all_eq_true.mp bare b (List.mem_flatMap.mpr ⟨c, mem, among⟩)
  by_cases ascii : c.toNat < 0x80
  · have first := bytes (UInt8.ofNat c.toNat)
    rw [Text.utf8EncodeChar_of_lt ascii, isBareKeyChar_ofNat _ ascii, Char.ofNat_toNat] at first
    exact first List.mem_cons_self
  · obtain ⟨b, tail, eq, -⟩ := Point.exists_spells c
    have among : b ∈ String.utf8EncodeChar c := by
      rw [eq]
      exact List.mem_cons_self
    have high := Text.le_of_mem_encode (Nat.le_of_not_lt ascii) among
    exact absurd (lt_of_isBareByte (bytes b among)) (Nat.not_lt.mpr high)

/-- **A name is read back**, as long as no character follows that could belong to it. -/
theorem exists_written_name {t : Text} (valid : t.isValid = true) :
    ∃ c cs, Written (name t) (c :: cs) ∧ startsName c = true ∧
      ∀ rest : List Char, (∀ d ∈ rest.head?, isBareKeyChar d = false) →
        keyPart (c :: cs ++ rest) = some (t, rest) := by
  obtain ⟨cs, rfl⟩ := Text.exists_ofChars valid
  unfold name
  split
  · next bare =>
    rw [Bool.and_eq_true, Bool.not_eq_true', List.isEmpty_eq_false_iff] at bare
    have bareChars := forall_isBareKeyChar bare.2
    cases cs with
    | nil => exact absurd rfl bare.1
    | cons c cs =>
      have first := bareChars c List.mem_cons_self
      have unquoted : (c = '"' || c = '\'') = false := by
        rw [Bool.or_eq_false_iff, decide_eq_false_iff_not, decide_eq_false_iff_not]
        constructor <;> rintro rfl <;> exact absurd first (by decide)
      refine ⟨c, cs, ⟨rfl, ?_⟩, ?_, fun rest ends => ?_⟩
      · exact fun d mem => isOpen_of_isBareKeyChar (bareChars d mem)
      · rw [startsName, first, Bool.or_true]
      · have taken : (c :: cs ++ rest).takeWhile isBareKeyChar = c :: cs := by
          rw [List.takeWhile_append_of_pos bareChars, (Text.takeWhile_eq_nil ends).1, List.append_nil]
        rw [List.cons_append] at taken ⊢
        simp only [keyPart, unquoted, Bool.false_eq_true, if_false, taken, List.isEmpty_cons]
        rw [← List.cons_append, List.drop_left]
  · refine ⟨'"', cs.flatMap quotedChar ++ ['"'], written_quoted cs, rfl, fun rest _ => ?_⟩
    have read := basicFrom_quoted (show Before.other ≠ .join from nofun) cs rest
    simp [keyPart, shortText, read]

theorem skipBlanks_of_startsName {c : Char} (starts : startsName c = true) (cs : List Char) :
    skipBlanks (c :: cs) = c :: cs := by
  refine List.dropWhile_cons_of_neg fun blank => ?_
  simp only [isBlank, Bool.or_eq_true, decide_eq_true_eq] at blank
  rcases blank with rfl | rfl <;> exact absurd starts (by decide)

theorem keyAt_last {n : Nat} {cs rest : List Char} {t : Text}
    (part : keyPart (skipBlanks cs) = some (t, rest)) (last : ∀ d ∈ (skipBlanks rest).head?, d ≠ '.') :
    keyAt (n + 1) cs = some ([t], skipBlanks rest) := by
  rw [keyAt, part, Option.bind_eq_bind, Option.bind_some]
  dsimp only
  split
  · next more eq => exact absurd rfl (last '.' (by rw [eq]; rfl))
  · rfl

theorem keyAt_point {n : Nat} {cs rest : List Char} {t : Text}
    (part : keyPart (skipBlanks cs) = some (t, '.' :: rest)) :
    keyAt (n + 1) cs = (keyAt n rest).map fun (parts, rest) => (t :: parts, rest) := by
  rw [keyAt, part, Option.bind_eq_bind, Option.bind_some]
  cases read : keyAt n rest <;> simp [skipBlanks, isBlank, read]

/-- **A key is read back**: its parts, with a point between two of them. -/
theorem exists_written_key {parts : List Text} (some : parts ≠ [])
    (valid : ∀ t ∈ parts, t.isValid = true) :
    ∃ c cs, Written (Text.join "." (parts.map name)) (c :: cs) ∧ startsName c = true ∧
      parts.length ≤ cs.length + 1 ∧
      ∀ rest : List Char, (∀ d ∈ rest.head?, isBareKeyChar d = false) →
        (∀ d ∈ (skipBlanks rest).head?, d ≠ '.') → ∀ n, parts.length ≤ n →
          keyAt n (c :: cs ++ rest) = .some (parts, skipBlanks rest) := by
  induction parts with
  | nil => exact absurd rfl some
  | cons t parts ih =>
    obtain ⟨first, later⟩ := List.forall_mem_cons.mp valid
    obtain ⟨c, cs, written, starts, reads⟩ := exists_written_name first
    cases parts with
    | nil =>
      refine ⟨c, cs, written, starts, Nat.le_add_left _ _, fun rest ends last n enough => ?_⟩
      obtain ⟨n, rfl⟩ : ∃ m, n = m + 1 := ⟨n - 1, by rw [List.length_singleton] at enough; omega⟩
      refine keyAt_last ?_ last
      rw [List.cons_append, skipBlanks_of_startsName starts]
      exact reads rest ends
    | cons u parts =>
      obtain ⟨d, ds, written', starts', length, reads'⟩ := ih (List.cons_ne_nil _ _) later
      have point : Written (Text.ofString ".") ['.'] := .literal (s := ".") (by decide)
      refine ⟨c, cs ++ '.' :: d :: ds, ?_, starts, ?_, fun rest ends last n enough => ?_⟩
      · have whole := (written.append point).append written'
        simpa [Text.join] using whole
      · simp only [List.length_append, List.length_cons] at length ⊢
        omega
      · obtain ⟨n, rfl⟩ : ∃ m, n = m + 1 := ⟨n - 1, by rw [List.length_cons] at enough; omega⟩
        have part := reads ('.' :: (d :: ds ++ rest)) (by rintro x ⟨⟩; decide)
        rw [List.cons_append, ← skipBlanks_of_startsName starts] at part
        have inner := reads' rest ends last n (Nat.le_of_succ_le_succ enough)
        have here : c :: (cs ++ '.' :: d :: ds) ++ rest = c :: (cs ++ '.' :: (d :: ds ++ rest)) := by simp
        rw [here, keyAt_point part, inner]
        rfl

end Toml

/-! ## Numbers -/

namespace Text

/-- A number other than zero has no zero in front. -/
theorem head?_ofNat {n : Nat} (positive : 0 < n) : (ofNat n).head? ≠ some (byte '0') := by
  induction n using Nat.strong_induction_on with
  | _ n ih =>
    rw [ofNat]
    by_cases small : n < 10
    · have digits : ∀ n < 10, 0 < n → ([n.digitChar].map byte).head? ≠ some (byte '0') := by decide
      rw [Nat.toDigits_of_lt_base small]
      exact digits n small positive
    · have front := Nat.toDigits_of_base_le (b := 10) (n := n) (by decide) (Nat.le_of_not_lt small)
      obtain ⟨c, cs, eq⟩ := List.exists_cons_of_ne_nil (Nat.toDigits_ne_nil (b := 10) (n := n / 10))
      have shorter := ih (n / 10) (by omega) (by omega)
      rw [ofNat, eq] at shorter
      rw [front, eq]
      exact shorter

end Text

namespace Numeral

theorem digitValue?_of_isDigit {b : UInt8} (digit : Text.isDigit b = true) :
    digitValue? b = some (b.toNat - 48) ∧ b.toNat - 48 < 10 ∧ b ≠ Text.byte '_' := by
  have bounds := digit
  simp only [Text.isDigit, Bool.and_eq_true, decide_eq_true_eq, UInt8.le_iff_toNat_le] at bounds
  have marks : (Text.byte '0').toNat = 48 ∧ (Text.byte '9').toNat = 57 ∧
      (Text.byte '_').toNat = 95 := by decide
  refine ⟨?_, by omega, ?_⟩
  · rw [digitValue?, if_pos digit, UInt8.toNat_sub_of_le _ _ (UInt8.le_iff_toNat_le.mpr bounds.1),
      marks.1]
  · rintro rfl
    omega

theorem le_foldl_digits (t : Text) (k : Nat) :
    k ≤ t.foldl (fun n b => n * 10 + (b.toNat - 48)) k := by
  induction t generalizing k with
  | nil => exact Nat.le_refl k
  | cons b t ih => exact Nat.le_trans (by omega) (ih (k * 10 + (b.toNat - 48)))

/-- Digits are read as the number they write, as long as it fits into 64 bits. -/
theorem value_digits {t : Text} (digits : ∀ b ∈ t, Text.isDigit b = true) {k : Nat}
    (fits : t.foldl (fun n b => n * 10 + (b.toNat - 48)) k < Word.count) :
    value 10 k t = .ok (t.foldl (fun n b => n * 10 + (b.toNat - 48)) k) := by
  induction t generalizing k with
  | nil => rfl
  | cons b t ih =>
    obtain ⟨first, digits⟩ := List.forall_mem_cons.mp digits
    obtain ⟨eq, small, plain⟩ := digitValue?_of_isDigit first
    rw [List.foldl_cons] at fits ⊢
    have below : ¬ Word.count ≤ k * 10 + (b.toNat - 48) :=
      Nat.not_le.mpr (Nat.lt_of_le_of_lt (le_foldl_digits t _) fits)
    rw [value, if_neg plain, eq]
    simp only [if_neg (Nat.not_le.mpr small), if_neg below]
    exact ih digits fits

theorem underscoresFrom_digits {t : Text} (digits : ∀ b ∈ t, Text.isDigit b = true) (digit : Bool) :
    underscoresFrom digit t = true := by
  induction t generalizing digit with
  | nil => rfl
  | cons b t ih =>
    obtain ⟨first, digits⟩ := List.forall_mem_cons.mp digits
    rw [underscoresFrom, if_neg (digitValue?_of_isDigit first).2.2]
    exact ih digits true

/-- **A number in decimal digits is read back.** -/
theorem natural_ofNat {n : Nat} (small : n < Word.count) : natural (Text.ofNat n) = .ok n := by
  have digits : ∀ b ∈ Text.ofNat n, Text.isDigit b = true := fun _ mem => Text.isDigit_of_mem_ofNat mem
  rcases Nat.eq_zero_or_pos n with rfl | positive
  · decide
  · have whole : split (Text.ofNat n) = (10, Text.ofNat n) := by
      have front := Text.head?_ofNat positive
      obtain ⟨b, rest, eq⟩ := List.exists_cons_of_ne_nil (SourceLine.ofNat_ne_nil n)
      rw [eq] at front ⊢
      exact if_neg fun zero => front (by rw [zero]; rfl)
    have sum : (Text.ofNat n).foldl (fun n b => n * 10 + (b.toNat - 48)) 0 = n := by
      rw [SourceLine.foldl_digits, SourceLine.decimal_ofNat]
    have value : value 10 0 (Text.ofNat n) = .ok n := by
      rw [value_digits digits (by rw [sum]; exact small), sum]
    have filled : ¬ (Text.ofNat n).isEmpty = true := by
      rw [List.isEmpty_iff]
      exact SourceLine.ofNat_ne_nil n
    rw [natural, if_neg filled]
    simp only [hasPlacedUnderscores, whole, value, underscoresFrom_digits digits, if_true]

theorem fits_iff {n : Int} : Word.fits n = true ↔ -2 ^ 63 ≤ n ∧ n < 2 ^ 63 := by
  rw [Word.fits, Bool.and_eq_true, decide_eq_true_eq, decide_eq_true_eq]
  rfl

theorem integer_ofInt {n : Int} (fits : Word.fits n = true) : integer (Text.ofInt n) = .ok n := by
  have bounds := fits_iff.mp fits
  have count : Word.count = 2 ^ 64 := rfl
  cases n with
  | ofNat n =>
    rw [Int.ofNat_eq_natCast] at bounds fits
    obtain ⟨b, rest, eq⟩ := List.exists_cons_of_ne_nil (SourceLine.ofNat_ne_nil n)
    have digit : Text.isDigit b = true := Text.isDigit_of_mem_ofNat (n := n) (eq ▸ List.mem_cons_self)
    have minus : b ≠ Text.byte '-' := by rintro rfl; exact absurd digit (by decide)
    have plus : b ≠ Text.byte '+' := by rintro rfl; exact absurd digit (by decide)
    have read := natural_ofNat (n := n) (by rw [count]; omega)
    rw [eq] at read
    rw [Text.ofInt, eq, integer, if_neg minus, if_neg plus, read, Except.ok_bind, fitted, if_pos fits,
      Int.ofNat_eq_natCast]
  | negSucc n =>
    have read := natural_ofNat (n := n + 1) (by rw [count]; omega)
    have same : -((n + 1 : Nat) : Int) = Int.negSucc n := rfl
    rw [Text.ofInt, integer, if_pos rfl, read, Except.ok_bind, same, fitted, if_pos fits]

end Numeral

namespace Toml

/-! ## Values -/

theorem groupedDigits_eq {t : Text} (some : t ≠ []) (digits : ∀ b ∈ t, Text.isDigit b = true) :
    groupedDigits Text.isDigit t = .some t := by
  fun_induction groupedDigits Text.isDigit t with
  | case1 => exact absurd rfl some
  | case2 d digit => rfl
  | case3 d other => exact absurd (digits d List.mem_cons_self) other
  | case4 d e rest other => simp [digits d List.mem_cons_self] at other
  | case5 d rest digit ih => exact absurd (digits (Text.byte '_') (by simp)) (by decide)
  | case6 d e rest digit other ih =>
    rw [ih (List.cons_ne_nil _ _) (List.forall_mem_cons.mp digits).2]
    rfl

theorem isDecimal_ofNat (n : Nat) : isDecimal (Text.ofNat n) = true := by
  have digits : ∀ b ∈ Text.ofNat n, Text.isDigit b = true := fun _ mem => Text.isDigit_of_mem_ofNat mem
  rcases Nat.eq_zero_or_pos n with rfl | positive
  · decide
  · simp only [isDecimal, groupedDigits_eq (SourceLine.ofNat_ne_nil n) digits, ne_eq,
      Text.head?_ofNat positive, not_false_eq_true, decide_true, Bool.or_true]

theorem mem_ofInt {n : Int} {b : UInt8} (mem : b ∈ Text.ofInt n) :
    Text.isDigit b = true ∨ b = Text.byte '-' := by
  cases n with
  | ofNat n => exact .inl (Text.isDigit_of_mem_ofNat mem)
  | negSucc n =>
    rcases List.mem_cons.mp mem with minus | mem
    · exact .inr minus
    · exact .inl (Text.isDigit_of_mem_ofNat mem)

theorem isWhole_ofInt (n : Int) : isWhole (Text.ofInt n) = true := by
  have digits : isDecimal (unsigned (Text.ofInt n)) = true := by
    cases n with
    | ofNat n =>
      obtain ⟨b, rest, eq⟩ := List.exists_cons_of_ne_nil (SourceLine.ofNat_ne_nil n)
      have digit : Text.isDigit b = true := Text.isDigit_of_mem_ofNat (n := n) (eq ▸ List.mem_cons_self)
      have unsigned : unsigned (Text.ofNat n) = Text.ofNat n := by
        rw [eq]
        refine if_neg ?_
        simp only [Bool.or_eq_true, decide_eq_true_eq]
        rintro (rfl | rfl) <;> exact absurd digit (by decide)
      rw [Text.ofInt, unsigned, isDecimal_ofNat]
    | negSucc n => exact isDecimal_ofNat (n + 1)
  unfold isWhole
  rw [digits, Bool.true_or]

/-- **A number is read back.** -/
theorem wordValue_ofInt {n : Int} (fits : Word.fits n = true) :
    wordValue (Text.ofInt n) = some (.whole n) := by
  have whole : (Text.ofInt n).filter (· ≠ Text.byte '_') = Text.ofInt n := by
    refine List.filter_eq_self.mpr fun b mem => decide_eq_true ?_
    rintro rfl
    rcases mem_ofInt mem with digit | minus
    · exact absurd digit (by decide)
    · exact absurd minus (by decide)
  have other (word : Text) (letter : ∃ b ∈ word, ¬ (Text.isDigit b = true ∨ b = Text.byte '-')) :
      Text.ofInt n ≠ word := by
    rintro rfl
    obtain ⟨b, mem, apart⟩ := letter
    exact apart (mem_ofInt mem)
  rw [wordValue, if_neg (other "true" (by decide)), if_neg (other "false" (by decide)),
    if_pos (isWhole_ofInt n)]
  simp only [whole, Numeral.integer_ofInt fits]

/-- The characters of a number. -/
def numberChars : Int → List Char
  | .ofNat n => Nat.toDigits 10 n
  | .negSucc n => '-' :: Nat.toDigits 10 (n + 1)

theorem mem_numberChars {n : Int} {c : Char} (mem : c ∈ numberChars n) : c.isDigit = true ∨ c = '-' := by
  cases n with
  | ofNat n => exact .inl (Text.isDigit_of_mem_toDigits c mem)
  | negSucc n =>
    rcases List.mem_cons.mp mem with minus | mem
    · exact .inr minus
    · exact .inl (Text.isDigit_of_mem_toDigits c mem)

theorem numberChars_ne_nil (n : Int) : numberChars n ≠ [] := by
  cases n with
  | ofNat n => exact Nat.toDigits_ne_nil
  | negSucc n => exact List.cons_ne_nil _ _

theorem ofChars_digits (n : Nat) : Text.ofChars (Nat.toDigits 10 n) = Text.ofNat n := by
  rw [Text.ofChars, Text.ofNat, List.map_eq_flatMap]
  refine List.flatMap_congr fun c mem => ?_
  have bounds := Text.isDigit_bounds (Text.isDigit_of_mem_toDigits c mem)
  rw [Text.utf8EncodeChar_of_lt (by omega)]
  rfl

theorem written_ofInt (n : Int) : Written (Text.ofInt n) (numberChars n) where
  eq := by
    cases n with
    | ofNat n => exact (ofChars_digits n).symm
    | negSucc n => exact congrArg (Text.byte '-' :: ·) (ofChars_digits (n + 1)).symm
  isOpen c mem := by
    rcases mem_numberChars mem with digit | rfl
    · exact isOpen_of_isBareKeyChar (by rw [isBareKeyChar, Char.isAlphanum, digit, Bool.or_true]; rfl)
    · decide

theorem wordAt_line {word : List Char} (inWord : ∀ c ∈ word, isWordChar c = true) (rest : List Char) :
    wordAt (word ++ '\n' :: rest) = (word, '\n' :: rest) := by
  have taken : (word ++ '\n' :: rest).takeWhile isWordChar = word := by
    rw [List.takeWhile_append_of_pos inWord, List.takeWhile_cons_of_neg (by decide), List.append_nil]
  simp only [wordAt, taken, List.drop_left]
  rfl

/-- A word at the end of a line is read as a value. -/
theorem valueAt_word {c : Char} {cs : List Char} (inWord : ∀ d ∈ c :: cs, isWordChar d = true) {v : Value}
    (value : wordValue (Text.ofChars (c :: cs)) = some v) (fuel : Nat) (item : Bool)
    (context : List Text) (name : Text) (f : Filling) (rest : List Char) :
    valueAt (fuel + 1) item context name f (c :: cs ++ '\n' :: rest) = some ⟨v, f, '\n' :: rest⟩ := by
  have first := inWord c List.mem_cons_self
  have quote : (c = '"' || c = '\'') = false := by
    rw [Bool.or_eq_false_iff, decide_eq_false_iff_not, decide_eq_false_iff_not]
    constructor <;> rintro rfl <;> exact absurd first (by decide)
  have bracket : ¬ c = '[' := by rintro rfl; exact absurd first (by decide)
  have brace : ¬ c = '\x7b' := by rintro rfl; exact absurd first (by decide)
  have word := wordAt_line inWord rest
  rw [List.cons_append] at word ⊢
  simp only [valueAt, quote, bracket, brace, Bool.false_eq_true, if_false, word, value, Option.map_some]

theorem exists_of_standFor {c : Char} {ds : List Char} (stands : standFor c ds = true) :
    ∃ x xs, ds = x :: xs ∧ x ≠ '"' := by
  unfold standFor at stands
  split at stands
  · next x =>
    simp only [Bool.and_eq_true, decide_eq_true_eq] at stands
    exact ⟨x, [], rfl, stands.1.1.2⟩
  · next x y =>
    simp only [Bool.and_eq_true, decide_eq_true_eq] at stands
    exact ⟨x, [y], rfl, by rw [stands.1.1.1]; decide⟩
  · next x y digits _ =>
    simp only [Bool.and_eq_true, decide_eq_true_eq] at stands
    exact ⟨x, y :: digits, rfl, by rw [stands.1.1.1]; decide⟩
  · cases stands

/-- A text in quotes is not taken for one that goes over lines. -/
theorem textAt_quoted (cs rest : List Char) :
    textAt ('"' :: (cs.flatMap quotedChar ++ '"' :: '\n' :: rest)) = some (cs, '\n' :: rest) := by
  have short : ('"' :: (cs.flatMap quotedChar ++ '"' :: '\n' :: rest)).take 3 ≠ ['"', '"', '"'] := by
    cases cs with
    | nil => simp
    | cons c cs =>
      obtain ⟨x, xs, eq, ne⟩ := exists_of_standFor (quotedChar_spec c).1
      rw [List.flatMap_cons, eq]
      simp [ne]
  have read := basicFrom_quoted (show Before.other ≠ .join from nofun) cs ('\n' :: rest)
  rw [textAt, if_neg short, if_neg (by simp)]
  exact read

/-- A text in quotes at the end of a line is read as a value. -/
theorem valueAt_quoted (cs : List Char) (fuel : Nat) (item : Bool) (context : List Text) (name : Text)
    (f : Filling) (rest : List Char) :
    valueAt (fuel + 1) item context name f ('"' :: cs.flatMap quotedChar ++ ['"'] ++ '\n' :: rest) =
      some ⟨.text (Text.ofChars cs), f, '\n' :: rest⟩ := by
  have read := textAt_quoted cs rest
  simp only [List.cons_append, List.append_assoc, List.nil_append] at read ⊢
  simp only [valueAt, decide_true, Bool.true_or, if_true, read, Option.map_some]

end Toml

/-! ## Documents -/

/-- **A document that can be written**: its texts are valid, its numbers fit into 64 bits, and no
name stands twice in a table. -/
inductive Document.IsProper : Document → Prop
  | text {t : Text} (valid : t.isValid = true) : IsProper (.text t)
  | flag (b : Bool) : IsProper (.flag b)
  | number {n : Int} (fits : Word.fits n = true) : IsProper (.number n)
  | table {fields : List (Text × Document)} (apart : (fields.map (·.1)).Nodup)
    (valid : ∀ field ∈ fields, field.1.isValid = true)
    (proper : ∀ field ∈ fields, IsProper field.2) : IsProper (.table fields)

namespace Toml

/-- The value of a document that is no table. -/
def Value.ofScalar? : Document → Option Value
  | .text t => some (.text t)
  | .flag b => some (.flag b)
  | .number n => some (.whole n)
  | .table _ => none

/-- **A value is read back** at the end of a line. -/
theorem exists_written_value {doc : Document} (proper : doc.IsProper) {t : Text}
    (scalar : value? doc = some t) :
    ∃ c cs v, Written t (c :: cs) ∧ Value.ofScalar? doc = some v ∧ isBlank c = false ∧
      ∀ fuel item context name f rest,
        valueAt (fuel + 1) item context name f (c :: cs ++ '\n' :: rest) = some ⟨v, f, '\n' :: rest⟩ := by
  cases proper with
  | text valid =>
    obtain ⟨cs, rfl⟩ := Text.exists_ofChars valid
    cases scalar
    exact ⟨'"', _, _, written_quoted cs, rfl, rfl, valueAt_quoted cs⟩
  | flag b =>
    cases scalar
    cases b with
    | false =>
      have word : "false".toList.all isWordChar = true := by decide
      exact ⟨'f', ['a', 'l', 's', 'e'], _, .literal (s := "false") (by decide), rfl, rfl,
        valueAt_word (List.all_eq_true.mp word) rfl⟩
    | true =>
      have word : "true".toList.all isWordChar = true := by decide
      exact ⟨'t', ['r', 'u', 'e'], _, .literal (s := "true") (by decide), rfl, rfl,
        valueAt_word (List.all_eq_true.mp word) rfl⟩
  | @number n fits =>
    cases scalar
    have written := written_ofInt n
    have inWord : ∀ c ∈ numberChars n, isWordChar c = true := by
      intro c mem
      rcases mem_numberChars mem with digit | rfl
      · rw [isWordChar, Char.isAlphanum, digit, Bool.or_true, Bool.true_or]
      · decide
    have value := wordValue_ofInt fits
    rw [written.eq] at value
    obtain ⟨c, cs, eq⟩ := List.exists_cons_of_ne_nil (numberChars_ne_nil n)
    rw [eq] at written inWord value
    refine ⟨c, cs, _, written, rfl, ?_, valueAt_word inWord value⟩
    rw [← Bool.not_eq_true]
    intro blank
    simp only [isBlank, Bool.or_eq_true, decide_eq_true_eq] at blank
    rcases blank with rfl | rfl <;> exact absurd (inWord _ List.mem_cons_self) (by decide)
  | table apart valid proper => cases scalar

end Toml

end TealAudit
