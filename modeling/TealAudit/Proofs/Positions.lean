import TealAudit.Proofs.Scanning

/-!
# Reading a line by position

The scanner of a line goes over its bytes from the left and keeps the ones of the field at hand
(`Fields.State`). Here the same line is read **by position**: two positions, one where the field at
hand starts and one that moves on, a look back and a look ahead from there, and stretches cut out
between two positions. Every one of these reads is checked, and `none` is the answer of a read that is
not inside the line.

**The law** (`Fields.split?_eq`) is that there is always an answer, and that it is the fields of the
line. The invariant is `Fields.Stands`: what lies between the two positions is what the state of the
scanner has taken. It says at once that the look back has a byte to look at, since a string is at
least its opening quote long. Each of the three things that a byte can do is one step
(`walk?_of_divides`, `walk?_of_comments`, `walk?_of_push`), and the run is `Stands.walk?_eq`.
-/

namespace TealAudit.Fields

open State

/-! ## Reads and cuts -/

/-- The byte in front of a position. -/
def before? (text : Text) : Nat → Option UInt8
  | 0 => none
  | i + 1 => text[i]?

/-- The bytes from `start` up to `stop`, two positions of the line in this order. -/
def slice? (text : Text) (start stop : Nat) : Option Text :=
  if start ≤ stop ∧ stop ≤ text.length then some ((text.take stop).drop start) else none

/-- The first position from `i` on that has no gap at it. -/
def skip? (text : Text) (i : Nat) : Option {j : Nat // i ≤ j} :=
  if i < text.length then do
    let b ← text[i]?
    if isGap b then
      let j ← skip? text (i + 1)
      return ⟨j.1, Nat.le_of_succ_le j.2⟩
    else return ⟨i, Nat.le_refl i⟩
  else return ⟨i, Nat.le_refl i⟩
termination_by text.length - i

/-- Whether a comment starts at position `i`, where `b` stands. -/
def comments? (text : Text) (i : Nat) (b : UInt8) (inString inCode : Bool) : Option Bool :=
  if b = Text.byte '/' ∧ i + 1 < text.length then
    text[i + 1]?.map fun x => x = Text.byte '/' && !inCode && !inString
  else some false

/-- Whether the string goes on behind position `i`, where `b` stands. -/
def quoted? (text : Text) (i start : Nat) (b : UInt8) (inString : Bool) : Option Bool :=
  if b = Text.byte '"' then
    if inString then (before? text i).map fun x => x = Text.byte '\\' else some (i = start)
  else some inString

/-- Whether the text at hand is coded behind position `i`, where `b` stands. -/
def coded? (text : Text) (i start : Nat) (b : UInt8) (inCode : Bool) : Option Bool :=
  if b = Text.byte '(' then (slice? text start i).map fun word => inCode || announcesCode word
  else some (if b = Text.byte ')' then false else inCode)

/-- The fields from position `i` on, in a field that starts at `start`. -/
def walk? (text : Text) (i start : Nat) (inString inCode : Bool) : Option Fields :=
  if i < text.length then do
    let b ← text[i]?
    if isGap b then
      if inString then walk? text (i + 1) start true inCode
      else
        let word ← slice? text start i
        let next ← skip? text (i + 1)
        let f ← walk? text next next false (announcesCode word)
        return { f with words := word :: f.words }
    else if ← comments? text i b inString inCode then
      let word ← slice? text start i
      let rest ← slice? text i text.length
      return ⟨if start = i then [] else [word], rest.trim⟩
    else
      let inString ← quoted? text i start b inString
      let inCode ← coded? text i start b inCode
      walk? text (i + 1) start inString inCode
  else do
    let word ← slice? text start i
    return ⟨if start = i then [] else [word], []⟩
termination_by text.length - i
decreasing_by
  · omega
  · have := next.2
    omega
  · omega

/-- **The fields of a line, read by position.** -/
def split? (text : Text) : Option Fields := do
  let start ← skip? text 0
  walk? text start start false false

/-! ### What is read -/

variable {text : Text} {i start : Nat} {st : State}

/-- What stands at a position of the line, and behind it. -/
theorem exists_at (lt : i < text.length) : ∃ b, text[i]? = some b ∧ text.drop i = b :: text.drop (i + 1) :=
  ⟨text[i], List.getElem?_eq_getElem lt, List.drop_eq_getElem_cons lt⟩

/-- **Skipping gaps** ends in the line, at no gap, and leaves the fields as they are. -/
theorem skip?_spec (le : i ≤ text.length) : ∃ j, skip? text i = some j ∧ j.1 ≤ text.length ∧
    (∀ x ∈ (text.drop j).head?, isGap x = false) ∧
    ∀ inCode, (State.start inCode).scan (text.drop j) = (State.start inCode).scan (text.drop i) := by
  induction left : text.length - i generalizing i with
  | zero =>
    refine ⟨⟨i, Nat.le_refl i⟩, ?_, le, ?_, fun _ => rfl⟩
    · rw [skip?, if_neg (by omega)]
      rfl
    · have none : text.drop i = [] := List.drop_eq_nil_of_le (by omega)
      rw [none]
      exact nofun
  | succ k ih =>
    have lt : i < text.length := by omega
    obtain ⟨b, here, drop⟩ := exists_at lt
    rw [skip?, if_pos lt, here]
    by_cases gap : isGap b = true
    · obtain ⟨j, found, inside, ends, same⟩ := ih lt (by omega)
      refine ⟨⟨j, Nat.le_of_succ_le j.2⟩, by simp [gap, found], inside, ends, fun inCode => ?_⟩
      rw [same, drop, scan_of_divides ⟨gap, rfl⟩]
      rfl
    · refine ⟨⟨i, Nat.le_refl i⟩, by simp [gap], le, ?_, fun _ => rfl⟩
      rw [drop]
      simpa using gap

/-- The byte at a position goes to the field at hand. -/
theorem slice_succ {word : Text} {b : UInt8} (le : start ≤ i) (here : text[i]? = some b)
    (field : (text.take i).drop start = word.reverse) :
    (text.take (i + 1)).drop start = (b :: word).reverse := by
  have lt := (List.getElem?_eq_some_iff.mp here).1
  rw [List.take_add_one, here, Option.toList_some, List.drop_append_of_le_length, field, List.reverse_cons]
  rw [List.length_take]
  omega

/-- **A position and a state**: the state has the bytes from `start` up to the position in hand, and
at the head of a field no gap follows. -/
structure Stands (text : Text) (start i : Nat) (st : State) : Prop where
  le : start ≤ i
  inside : i ≤ text.length
  field : (text.take i).drop start = st.taken.reverse
  head : st.taken = [] → st.inString = false ∧ ∀ x ∈ (text.drop i).head?, isGap x = false

theorem State.inString_push_of_gap {b : UInt8} (st : State) (gap : isGap b = true) :
    (st.push b).inString = st.inString := by
  refine if_neg ?_
  rintro rfl
  exact absurd gap (by decide)

theorem State.inCode_push_of_gap {b : UInt8} (st : State) (gap : isGap b = true) :
    (st.push b).inCode = st.inCode := by
  refine coded_of_ne ?_ ?_ <;> (rintro rfl; exact absurd gap (by decide))

namespace Stands

theorem slice?_eq (h : Stands text start i st) : slice? text start i = some st.taken.reverse := by
  rw [slice?, if_pos ⟨h.le, h.inside⟩, h.field]

theorem taken_eq_nil_iff (h : Stands text start i st) : st.taken = [] ↔ start = i := by
  have length := congrArg List.length h.field
  rw [List.length_drop, List.length_take, List.length_reverse, Nat.min_eq_left h.inside] at length
  rw [← List.length_eq_zero_iff, ← length]
  have := h.le
  omega

theorem push {b : UInt8} (h : Stands text start i st) (here : text[i]? = some b) :
    Stands text start (i + 1) (st.push b) where
  le := Nat.le_succ_of_le h.le
  inside := (List.getElem?_eq_some_iff.mp here).1
  field := slice_succ h.le here h.field
  head := nofun

/-- The look ahead stays in the line. -/
theorem comments?_eq (text : Text) (i : Nat) (st : State) (b : UInt8) : ∃ found,
    comments? text i b st.inString st.inCode = some found ∧
      (found = true ↔ st.Comments b (text.drop (i + 1))) := by
  unfold comments? State.Comments
  rw [List.head?_drop]
  by_cases slash : b = Text.byte '/'
  · by_cases lt : i + 1 < text.length
    · simp [slash, lt, and_assoc]
    · simp [slash, lt]
  · simp [slash]

/-- The look back stays in the field. -/
theorem before?_eq (h : Stands text start i st) (some : st.taken ≠ []) :
    before? text i = st.taken.head? := by
  have later : start ≠ i := fun same => some (h.taken_eq_nil_iff.mpr same)
  obtain ⟨j, rfl⟩ : ∃ j, i = j + 1 := ⟨i - 1, by have := h.le; omega⟩
  have last := congrArg List.getLast? h.field
  have inside := h.inside
  have le := h.le
  rw [List.getLast?_reverse, List.getLast?_drop, List.length_take, if_neg (by omega),
    List.getLast?_take] at last
  rw [before?, ← last]
  simp [List.getElem?_eq_getElem (show j < text.length by omega)]

theorem quoted?_eq (h : Stands text start i st) (b : UInt8) :
    quoted? text i start b st.inString = some (st.push b).inString := by
  unfold quoted?
  simp only [State.push, quoted]
  split
  · split
    · next inside =>
      have some : st.taken ≠ [] := fun empty => by simp [(h.head empty).1] at inside
      rw [h.before?_eq some]
      cases taken : st.taken with
      | nil => exact absurd taken some
      | cons x more => simp
    · rw [Option.some.injEq, Bool.eq_iff_iff, decide_eq_true_iff, List.isEmpty_iff,
        h.taken_eq_nil_iff, eq_comm]
  · rfl

theorem coded?_eq (h : Stands text start i st) (b : UInt8) :
    coded? text i start b st.inCode = some (st.push b).inCode := by
  unfold coded?
  simp only [State.push, coded, h.slice?_eq]
  split <;> rfl

/-- A word of the fields, if the position is not the start of it. -/
theorem words_eq (h : Stands text start i st) (comment : Text) :
    (⟨if start = i then [] else [st.taken.reverse], comment⟩ : Fields) =
      addWord st.taken ⟨[], comment⟩ := by
  unfold addWord
  by_cases empty : st.taken = []
  · simp [h.taken_eq_nil_iff.mp empty, empty]
  · simp [mt h.taken_eq_nil_iff.mpr empty, empty]

theorem start_of (inside : i ≤ text.length) (ends : ∀ x ∈ (text.drop i).head?, isGap x = false)
    (inCode : Bool) : Stands text i i (State.start inCode) where
  le := Nat.le_refl i
  inside := inside
  field := List.drop_eq_nil_of_le (List.length_take_le _ _)
  head _ := ⟨rfl, ends⟩

theorem walk?_of_divides {b : UInt8} (h : Stands text start i st) (here : text[i]? = some b)
    (divides : st.Divides b) : ∃ j : {j : Nat // i + 1 ≤ j}, j.1 ≤ text.length ∧
      (∀ x ∈ (text.drop j).head?, isGap x = false) ∧
      st.scan (b :: text.drop (i + 1)) =
        addWord st.taken ((State.start (announcesCode st.taken.reverse)).scan (text.drop j)) ∧
      walk? text i start st.inString st.inCode =
        (walk? text j j false (announcesCode st.taken.reverse)).map (addWord st.taken) := by
  obtain ⟨lt, rfl⟩ := List.getElem?_eq_some_iff.mp here
  have some : st.taken ≠ [] := fun empty => by
    have open_head := (h.head empty).2 text[i] (by rw [List.head?_drop]; exact here)
    rw [divides.1] at open_head
    cases open_head
  obtain ⟨j, skipped, within, ends, same⟩ := skip?_spec lt
  refine ⟨j, within, ends, ?_, ?_⟩
  · rw [scan_of_divides divides, State.pass, if_neg some, same]
  · have put : addWord st.taken = fun f => ⟨st.taken.reverse :: f.words, f.comment⟩ := by
      funext f
      simp [addWord, some]
    rw [walk?, h.slice?_eq, if_pos lt, here, put, Option.map_eq_bind]
    simp only [divides.1, divides.2, skipped, if_true, Bool.false_eq_true, if_false, bind, Option.bind,
      pure]
    rfl

theorem walk?_of_comments {b : UInt8} (h : Stands text start i st) (here : text[i]? = some b)
    (comment : st.Comments b (text.drop (i + 1))) :
    walk? text i start st.inString st.inCode = some (addWord st.taken ⟨[], Text.trim (text.drop i)⟩) := by
  obtain ⟨lt, rfl⟩ := List.getElem?_eq_some_iff.mp here
  obtain ⟨found, looked, iff⟩ := comments?_eq text i st text[i]
  have gap : ¬ isGap text[i] = true := by
    rw [comment.1]
    exact not_isGap_slash
  have whole : slice? text i text.length = some (text.drop i) := by
    rw [slice?, if_pos ⟨h.inside, Nat.le_refl _⟩, List.take_length]
  rw [walk?, h.slice?_eq, if_pos lt, here, ← h.words_eq]
  simp [gap, looked, iff.mpr comment, whole]

theorem walk?_of_push {b : UInt8} (h : Stands text start i st) (here : text[i]? = some b)
    (field : ¬ st.Divides b) (code : ¬ st.Comments b (text.drop (i + 1))) :
    walk? text i start st.inString st.inCode =
      walk? text (i + 1) start (st.push b).inString (st.push b).inCode := by
  obtain ⟨lt, rfl⟩ := List.getElem?_eq_some_iff.mp here
  rw [walk?, if_pos lt, here]
  by_cases gap : isGap text[i] = true
  · have inside : st.inString = true := by simpa [State.Divides, gap] using field
    rw [st.inString_push_of_gap gap, st.inCode_push_of_gap gap, inside]
    simp [gap]
  · obtain ⟨found, looked, iff⟩ := comments?_eq text i st text[i]
    have unfound : found = false := by simpa using mt iff.mp code
    simp [gap, looked, unfound, h.quoted?_eq, h.coded?_eq]

/-- **Reading by position reads inside the line** and gives the fields of the scanner. -/
theorem walk?_eq (h : Stands text start i st) :
    walk? text i start st.inString st.inCode = some (st.scan (text.drop i)) := by
  induction left : text.length - i using Nat.strong_induction_on generalizing start i st with
  | _ k ih =>
    by_cases lt : i < text.length
    · obtain ⟨b, here, drop⟩ := exists_at lt
      by_cases divides : st.Divides b
      · obtain ⟨j, within, ends, scanned, walked⟩ := h.walk?_of_divides here divides
        have later := j.2
        have rest := ih (text.length - j) (by omega) (start_of within ends (announcesCode st.taken.reverse)) rfl
        rw [walked, drop, scanned]
        exact congrArg (Option.map (addWord st.taken)) rest
      · by_cases comment : st.Comments b (text.drop (i + 1))
        · rw [h.walk?_of_comments here comment, drop, scan_of_comments comment]
        · rw [h.walk?_of_push here divides comment, drop, scan_of_push divides comment]
          exact ih _ (by omega) (h.push here) rfl
    · have none : text.drop i = [] := List.drop_eq_nil_of_le (by omega)
      rw [walk?, if_neg lt, none, scan_nil, h.slice?_eq, ← h.words_eq]
      rfl

end Stands

theorem split?_eq (text : Text) : split? text = some (split text) := by
  obtain ⟨j, skipped, within, ends, same⟩ := skip?_spec (Nat.zero_le text.length)
  have read := (Stands.start_of within ends false).walk?_eq
  rw [same] at read
  rw [split?, skipped]
  exact read

end TealAudit.Fields
