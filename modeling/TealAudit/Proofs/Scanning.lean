import TealAudit.Fields
import TealAudit.Proofs.Points

/-!
# How a line is cut into fields

The scanner of a line is a machine over bytes (`Fields.State`). A byte does one of three things: it
divides fields, it starts the comment, or it goes to the field at hand. Everything about the fields
of a line follows from these three (`scan_of_divides`, `scan_of_comments`, `scan_of_push`).

**At the head of a field** all that the scanner remembers of what came before is one bit: whether
the field in front announced coded data. Hence a field can be told by itself from that bit
(`State.Holds`), and fields that follow each other in this way are a **chain** (`Chain`).

* The fields of every line are a chain (`Cut.chain`).
* A chain written with one space between its fields is cut into the same fields again
  (`scan_join`), whatever stood between and behind them where they come from.
* What stands in a comment has no part in the fields (`scan_comment_eq`).
-/

namespace TealAudit.Fields

/-! ## The machine -/

/-- **Where the scanner stands**: whether it is in a string, whether what it reads is coded, and the
bytes of the field at hand, the last one first. -/
structure State where
  inString : Bool
  inCode : Bool
  taken : Text
deriving DecidableEq, Repr

namespace State

/-- The state at the head of a field. -/
def start (inCode : Bool) : State := ⟨false, inCode, []⟩

/-- The fields of what is left of a line. -/
def scan (st : State) (t : Text) : Fields := Fields.scan st.inString st.inCode st.taken t

/-- Whether a byte divides fields. -/
def Divides (st : State) (b : UInt8) : Prop := isGap b = true ∧ st.inString = false

/-- Whether the comment starts at a byte that has `rest` behind it. -/
def Comments (st : State) (b : UInt8) (rest : Text) : Prop :=
  b = Text.byte '/' ∧ rest.head? = some (Text.byte '/') ∧ st.inCode = false ∧ st.inString = false

/-- The state behind a byte of the field at hand. -/
def push (st : State) (b : UInt8) : State where
  inString := if b = Text.byte '"' then quoted st.inString st.taken else st.inString
  inCode := coded st.inCode st.taken b
  taken := b :: st.taken

/-- The state behind a byte that divides. -/
def pass (st : State) : State :=
  start (if st.taken = [] then st.inCode else announcesCode st.taken.reverse)

instance (st : State) (b : UInt8) : Decidable (st.Divides b) := inferInstanceAs (Decidable (_ ∧ _))

instance (st : State) (b : UInt8) (rest : Text) : Decidable (st.Comments b rest) :=
  inferInstanceAs (Decidable (_ ∧ _))

variable {st : State} {b : UInt8} {rest w : Text}

theorem not_isGap_slash : ¬ isGap (Text.byte '/') = true := by decide

theorem scan_nil (st : State) : st.scan [] = addWord st.taken ⟨[], []⟩ := rfl

theorem scan_of_divides (h : st.Divides b) :
    st.scan (b :: rest) = addWord st.taken (st.pass.scan rest) := by
  obtain ⟨gap, outside⟩ := h
  simp only [scan, Fields.scan, if_pos gap, outside]
  by_cases empty : st.taken = []
  · simp [empty, pass, start, addWord]
  · simp [empty, pass, start]

theorem scan_of_comments (h : st.Comments b rest) :
    st.scan (b :: rest) = addWord st.taken ⟨[], Text.trim (b :: rest)⟩ := by
  obtain ⟨rfl, head, plain, outside⟩ := h
  simp [scan, Fields.scan, not_isGap_slash, head, plain, outside]

theorem coded_of_ne {inCode : Bool} {taken : Text} (opens : b ≠ Text.byte '(')
    (closes : b ≠ Text.byte ')') : coded inCode taken b = inCode := by
  rw [coded, if_neg opens, if_neg closes]

theorem scan_of_push (field : ¬ st.Divides b) (code : ¬ st.Comments b rest) :
    st.scan (b :: rest) = (st.push b).scan rest := by
  simp only [Divides, Comments] at field code
  simp only [scan, Fields.scan, push]
  split
  · next gap =>
    have inside : st.inString = true := by simpa [gap] using field
    have other : b ≠ Text.byte '"' ∧ b ≠ Text.byte '(' ∧ b ≠ Text.byte ')' := by
      refine ⟨?_, ?_, ?_⟩ <;> (rintro rfl; exact absurd gap (by decide))
    rw [if_pos inside, if_neg other.1, coded_of_ne other.2.1 other.2.2, inside]
  · rw [if_neg (by simpa [and_assoc] using code)]
    split
    · next quote => rw [coded_of_ne] <;> (rw [quote]; decide)
    · rfl

/-! ## Stretches of one field -/

/-- **A stretch of bytes that stays in the field at hand** when `rest` stands behind it: none of them
divides fields, and the comment does not start at any of them. -/
def Holds : State → Text → Text → Prop
  | _, [], _ => True
  | st, b :: w, rest => ¬ st.Divides b ∧ ¬ st.Comments b (w ++ rest) ∧ (st.push b).Holds w rest

/-- The state behind a stretch. -/
def run (st : State) (w : Text) : State := w.foldl push st

theorem scan_append (h : st.Holds w rest) : st.scan (w ++ rest) = (st.run w).scan rest := by
  induction w generalizing st with
  | nil => rfl
  | cons b w ih =>
    obtain ⟨field, code, more⟩ := h
    rw [List.cons_append, scan_of_push field code, ih more]
    rfl

theorem taken_run (st : State) (w : Text) : (st.run w).taken = w.reverse ++ st.taken := by
  induction w generalizing st with
  | nil => rfl
  | cons b w ih =>
    change ((st.push b).run w).taken = _
    rw [ih, List.reverse_cons, List.append_assoc]
    rfl

theorem taken_run_start (inCode : Bool) (w : Text) : ((start inCode).run w).taken = w.reverse := by
  rw [taken_run]
  exact List.append_nil _

/-- What stands behind a stretch matters only if it starts with a slash. -/
theorem Holds.of_behind {rest' : Text} (h : st.Holds w rest)
    (other : rest'.head? ≠ some (Text.byte '/')) : st.Holds w rest' := by
  induction w generalizing st with
  | nil => trivial
  | cons b w ih =>
    obtain ⟨field, code, more⟩ := h
    refine ⟨field, ?_, ih more⟩
    cases w with
    | nil => exact fun comment => other comment.2.1
    | cons x w => exact code

/-- **The field at hand is the first of what is left of a line**: its bytes so far, and those that
follow up to where it ends. -/
theorem exists_first_word (some : st.taken ≠ []) (t : Text) : ∃ more words, more <+: t ∧
    (st.scan t).words = (st.taken.reverse ++ more) :: words := by
  have ended (st : State) (some : st.taken ≠ []) (f : Fields) :
      (addWord st.taken f).words = (st.taken.reverse ++ []) :: f.words := by
    simp [addWord, some]
  induction t generalizing st with
  | nil => exact ⟨[], _, List.nil_prefix, ended st some _⟩
  | cons b t ih =>
    by_cases divides : st.Divides b
    · rw [scan_of_divides divides]
      exact ⟨[], _, List.nil_prefix, ended st some _⟩
    · by_cases comment : st.Comments b t
      · rw [scan_of_comments comment]
        exact ⟨[], _, List.nil_prefix, ended st some _⟩
      · have begun : (st.push b).taken ≠ [] := List.cons_ne_nil _ _
        obtain ⟨more, words, front, eq⟩ := ih begun
        rw [scan_of_push divides comment, eq]
        exact ⟨b :: more, words, List.cons_prefix_cons.mpr ⟨rfl, front⟩, by simp [State.push]⟩

/-- A byte that goes to the field at hand is in the first of what is left. -/
theorem exists_word_push (st : State) (b : UInt8) (t : Text) : ∃ more words,
    ((st.push b).scan t).words = (st.taken.reverse ++ b :: more) :: words := by
  have begun : (st.push b).taken ≠ [] := List.cons_ne_nil _ _
  obtain ⟨more, words, -, eq⟩ := exists_first_word begun t
  refine ⟨more, words, eq.trans ?_⟩
  rw [State.push, List.reverse_cons, List.append_assoc]
  rfl

/-- **A line from a state on**: a stretch of the field at hand, and behind it nothing, the comment,
or a byte that divides. -/
theorem exists_stretch (st : State) (t : Text) : ∃ w rest, t = w ++ rest ∧ st.Holds w rest ∧
    (rest = [] ∨ (∃ b more, rest = b :: more ∧ (st.run w).Comments b more) ∨
      ∃ b more, rest = b :: more ∧ (st.run w).Divides b) := by
  induction t generalizing st with
  | nil => exact ⟨[], [], rfl, trivial, .inl rfl⟩
  | cons b t ih =>
    by_cases divides : st.Divides b
    · exact ⟨[], b :: t, rfl, trivial, .inr (.inr ⟨b, t, rfl, divides⟩)⟩
    · by_cases comment : st.Comments b t
      · exact ⟨[], b :: t, rfl, trivial, .inr (.inl ⟨b, t, rfl, comment⟩)⟩
      · obtain ⟨w, rest, rfl, holds, behind⟩ := ih (st.push b)
        exact ⟨b :: w, rest, rfl, ⟨divides, comment, holds⟩, behind⟩

end State

open State

/-! ## Fields of a line -/

/-- **A line cut into fields**, from the head of a field on. The stretch `w` is empty where a line
starts with a gap, where there are several, and in front of a comment that has one before it. -/
inductive Cut : Bool → Text → Fields → Prop
  | done {inCode : Bool} {w : Text} : (start inCode).Holds w [] →
      Cut inCode w (addWord w.reverse ⟨[], []⟩)
  | comment {inCode : Bool} {w rest : Text} {b : UInt8} : (start inCode).Holds w (b :: rest) →
      ((start inCode).run w).Comments b rest →
      Cut inCode (w ++ b :: rest) (addWord w.reverse ⟨[], Text.trim (b :: rest)⟩)
  | gap {inCode : Bool} {w rest : Text} {b : UInt8} {f : Fields} :
      (start inCode).Holds w (b :: rest) → ((start inCode).run w).Divides b →
      Cut (if w = [] then inCode else announcesCode w) rest f →
      Cut inCode (w ++ b :: rest) (addWord w.reverse f)

theorem cut_scan (inCode : Bool) (t : Text) : Cut inCode t ((start inCode).scan t) := by
  induction length : t.length using Nat.strong_induction_on generalizing inCode t with
  | _ k ih =>
    obtain ⟨w, rest, rfl, holds, behind⟩ := exists_stretch (start inCode) t
    rw [scan_append holds]
    rcases behind with rfl | ⟨b, more, rfl, comment⟩ | ⟨b, more, rfl, divides⟩
    · rw [scan_nil, taken_run_start, List.append_nil]
      exact .done holds
    · rw [scan_of_comments comment, taken_run_start]
      exact .comment holds comment
    · have next : ((start inCode).run w).pass =
          start (if w = [] then inCode else announcesCode w) := by
        rw [State.pass, taken_run_start, List.reverse_reverse]
        by_cases empty : w = []
        · subst empty; rfl
        · rw [if_neg (by simpa using empty), if_neg empty]
      rw [scan_of_divides divides, taken_run_start, next]
      refine .gap holds divides (ih more.length ?_ _ more rfl)
      rw [← length, List.length_append, List.length_cons]
      omega

/-- **A chain of fields**: each is told from the head on by whether the one in front of it announces
coded data, and only the last may be a string that is not closed. -/
inductive Chain : Bool → List Text → Prop
  | nil {inCode : Bool} : Chain inCode []
  | cons {inCode : Bool} {w : Text} {ws : List Text} : w ≠ [] → (start inCode).Holds w [] →
      (((start inCode).run w).inString = true → ws = []) → Chain (announcesCode w) ws →
      Chain inCode (w :: ws)

theorem words_addWord {w : Text} (h : w ≠ []) (f : Fields) :
    (addWord w.reverse f).words = w :: f.words := by
  simp [addWord, h]

/-- **The fields of a line are a chain.** -/
theorem Cut.chain {inCode : Bool} {t : Text} {f : Fields} (cut : Cut inCode t f) :
    Chain inCode f.words := by
  induction cut with
  | @done inCode w holds =>
    by_cases empty : w = []
    · subst empty; exact .nil
    · rw [words_addWord empty]
      exact .cons empty holds (fun _ => rfl) .nil
  | @comment inCode w rest b holds _ =>
    by_cases empty : w = []
    · subst empty; exact .nil
    · rw [words_addWord empty]
      exact .cons empty (holds.of_behind nofun) (fun _ => rfl) .nil
  | @gap inCode w rest b f holds divides _ ih =>
    by_cases empty : w = []
    · subst empty; exact ih
    · rw [if_neg empty] at ih
      rw [words_addWord empty]
      refine .cons empty (holds.of_behind nofun) (fun inside => ?_) ih
      rw [divides.2] at inside
      cases inside

/-- **A chain is read back** from its fields with one space between them. -/
theorem scan_join {inCode : Bool} {ws : List Text} (chain : Chain inCode ws) :
    (start inCode).scan (Text.join (Text.ofString " ") ws) = ⟨ws, []⟩ := by
  induction chain with
  | nil => rfl
  | @cons inCode w ws nonempty holds closed _ ih =>
    have word (f : Fields) : addWord ((start inCode).run w).taken f =
        { f with words := w :: f.words } := by
      rw [taken_run_start]
      simp [addWord, nonempty]
    cases ws with
    | nil =>
      have whole : (start inCode).scan (w ++ []) = _ := scan_append holds
      rw [List.append_nil] at whole
      rw [Text.join, whole, scan_nil, word]
    | cons v vs =>
      have outside : ((start inCode).run w).inString = false := by
        by_contra inside
        cases closed (Bool.not_eq_false _ ▸ inside)
      have gap : ((start inCode).run w).Divides (Text.byte ' ') := ⟨by decide, outside⟩
      have next : ((start inCode).run w).pass = start (announcesCode w) := by
        rw [State.pass, taken_run_start, if_neg (by simpa using nonempty), List.reverse_reverse]
      have space : Text.ofString " " = [Text.byte ' '] := by decide
      rw [Text.join, List.append_assoc, space, List.singleton_append,
        scan_append (holds.of_behind (by simp; decide)), scan_of_divides gap, next, ← space, ih, word]

theorem mem_words_addWord {v w : Text} {f : Fields} (mem : v ∈ (addWord w.reverse f).words) :
    v = w ∨ v ∈ f.words := by
  by_cases empty : w = []
  · subst empty; exact .inr mem
  · rw [words_addWord empty] at mem
    exact List.mem_cons.mp mem

theorem Cut.mem {inCode : Bool} {t v : Text} {f : Fields} (cut : Cut inCode t f)
    (field : v ∈ f.words) : ∀ x ∈ v, x ∈ t := by
  intro x mem
  induction cut with
  | done _ =>
    rcases mem_words_addWord field with rfl | more
    · exact mem
    · cases more
  | comment _ _ =>
    rcases mem_words_addWord field with rfl | more
    · exact List.mem_append_left _ mem
    · cases more
  | gap _ _ _ ih =>
    rcases mem_words_addWord field with rfl | more
    · exact List.mem_append_left _ mem
    · exact List.mem_append_right _ (List.mem_cons_of_mem _ (ih more))

theorem not_isTail_of_isGap {b : UInt8} (gap : isGap b = true) : ¬ Point.IsTail b := by
  rcases Bool.or_eq_true_iff.mp gap with eq | eq
  · rw [of_decide_eq_true eq]; decide
  · rw [of_decide_eq_true eq]; decide

/-- The first field of a line stands at its start, unless the line starts with a gap. -/
theorem Cut.first {inCode : Bool} {t v : Text} {vs : List Text} {f : Fields} (cut : Cut inCode t f)
    (tight : ∀ b ∈ t.head?, ¬ isGap b = true) (words : f.words = v :: vs) :
    ∃ rest, t = v ++ rest ∧ rest.Boundary := by
  cases cut with
  | done _ =>
    by_cases empty : t = []
    · subst empty; cases words
    · rw [words_addWord empty] at words
      cases words
      exact ⟨[], (List.append_nil _).symm, Text.boundary_nil⟩
  | @comment _ w rest b _ comment =>
    by_cases empty : w = []
    · subst empty; cases words
    · rw [words_addWord empty] at words
      cases words
      refine ⟨_, rfl, Text.boundary_cons ?_ _⟩
      rw [comment.1]
      decide
  | @gap _ w rest b f _ divides _ =>
    by_cases empty : w = []
    · subst empty
      exact absurd divides.1 (tight b rfl)
    · rw [words_addWord empty] at words
      cases words
      exact ⟨_, rfl, Text.boundary_cons (not_isTail_of_isGap divides.1) _⟩

end TealAudit.Fields

/-! ## Comments -/

namespace TealAudit.Text

theorem points_slash (r : Text) : points (byte '/' :: r) = .scalar '/' :: points r :=
  points_encode '/' r

theorem trim_append_slash (t r : Text) :
    trim (t ++ byte '/' :: r) = trimStart t ++ trim (byte '/' :: r) :=
  trim_append (boundary_cons (by decide) r) (points_slash r) (by decide) t

theorem trim_slash (r : Text) : ∃ r', trim (byte '/' :: r) = byte '/' :: r' := by
  have front : (points (byte '/' :: r)).dropWhile Point.isBlank = .scalar '/' :: points r := by
    rw [points_slash, List.dropWhile_cons_of_neg (by decide)]
  have kept : (Point.scalar '/' :: points r).rdropWhile Point.isBlank ≠ [] := by
    rw [ne_eq, List.rdropWhile_eq_nil_iff]
    exact fun blank => absurd (blank _ List.mem_cons_self) (by decide)
  obtain ⟨q, qs, eq⟩ := List.exists_cons_of_ne_nil kept
  have first : q = .scalar '/' := by
    have start := List.rdropWhile_prefix Point.isBlank (l := .scalar '/' :: points r)
    rw [eq, List.cons_prefix_cons] at start
    exact start.1
  refine ⟨ofPoints qs, ?_⟩
  change ofPoints (((points (byte '/' :: r)).dropWhile Point.isBlank).rdropWhile Point.isBlank) = _
  rw [front, eq, first]
  rfl

theorem trimStart_slash (t : Text) : trimStart (byte '/' :: t) = byte '/' :: t := by
  rw [trimStart, points_slash, List.dropWhile_cons_of_neg (by decide), ← points_slash,
    ofPoints_points]

theorem trim_slash_slash (r : Text) :
    ∃ r', trim (byte '/' :: byte '/' :: r) = byte '/' :: byte '/' :: r' := by
  obtain ⟨r', eq⟩ := trim_slash r
  have both := trim_append_slash [byte '/'] r
  rw [trimStart_slash, eq] at both
  exact ⟨r', both⟩

/-- A text that starts with a slash is trimmed to something else than what stands behind it. -/
theorem trim_slash_append_ne (t r : Text) :
    trim (byte '/' :: t ++ byte '/' :: r) ≠ trim (byte '/' :: r) := by
  intro eq
  rw [trim_append_slash, trimStart_slash] at eq
  have length := congrArg List.length eq
  rw [List.length_append, List.length_cons] at length
  omega

end TealAudit.Text

namespace TealAudit.Fields

open State

theorem comment_addWord (taken : Text) (f : Fields) : (addWord taken f).comment = f.comment := by
  unfold addWord
  split <;> rfl

theorem addWord_mk (taken : Text) (f : Fields) (comment : Text) :
    addWord taken ⟨f.words, comment⟩ = ⟨(addWord taken f).words, comment⟩ := by
  unfold addWord
  split <;> rfl

theorem comment_scan (st : State) (t : Text) : (st.scan t).comment = [] ∨
    ∃ front rest, t = front ++ Text.byte '/' :: rest ∧
      (st.scan t).comment = Text.trim (Text.byte '/' :: rest) := by
  induction t generalizing st with
  | nil =>
    rw [scan_nil, comment_addWord]
    exact .inl rfl
  | cons b t ih =>
    by_cases divides : st.Divides b
    · rw [scan_of_divides divides, comment_addWord]
      rcases ih st.pass with none | ⟨front, rest, rfl, eq⟩
      · exact .inl none
      · exact .inr ⟨b :: front, rest, rfl, eq⟩
    · by_cases comment : st.Comments b t
      · rw [scan_of_comments comment, comment_addWord, comment.1]
        dsimp only
        exact .inr ⟨[], t, rfl, rfl⟩
      · rw [scan_of_push divides comment]
        rcases ih (st.push b) with none | ⟨front, rest, rfl, eq⟩
        · exact .inl none
        · exact .inr ⟨b :: front, rest, rfl, eq⟩

/-- **The text of a comment has no part in the fields**: where the comment of a line starts behind
`code`, it starts there whatever it says, and the fields in front of it are the same. -/
theorem scan_comment_eq (st : State) (code : Text) {r : Text}
    (starts : (st.scan (code ++ Text.byte '/' :: Text.byte '/' :: r)).comment =
      Text.trim (Text.byte '/' :: Text.byte '/' :: r)) (r' : Text) :
    st.scan (code ++ Text.byte '/' :: Text.byte '/' :: r') =
      ⟨(st.scan (code ++ Text.byte '/' :: Text.byte '/' :: r)).words,
        Text.trim (Text.byte '/' :: Text.byte '/' :: r')⟩ := by
  -- The two lines are read in step; only the first knows where its comment starts.
  induction code generalizing st with
  | nil =>
    rw [List.nil_append] at starts ⊢
    by_cases comment : st.Comments (Text.byte '/') (Text.byte '/' :: r)
    · have comment' : st.Comments (Text.byte '/') (Text.byte '/' :: r') := comment
      rw [List.nil_append, scan_of_comments comment, scan_of_comments comment', ← addWord_mk]
    · rw [scan_of_push (fun h => not_isGap_slash h.1) comment] at starts
      rcases comment_scan (st.push (Text.byte '/')) (Text.byte '/' :: r) with none |
        ⟨front, rest, eq, later⟩
      · obtain ⟨text, eq⟩ := Text.trim_slash (Text.byte '/' :: r)
        rw [none, eq] at starts
        cases starts
      · rw [later, eq] at starts
        exact absurd starts.symm (Text.trim_slash_append_ne front rest)
  | cons b code ih =>
    rw [List.cons_append] at starts
    rw [List.cons_append, List.cons_append]
    by_cases divides : st.Divides b
    · rw [scan_of_divides divides, comment_addWord] at starts
      rw [scan_of_divides divides, scan_of_divides divides, ih _ starts, addWord_mk]
    · by_cases comment : st.Comments b (code ++ Text.byte '/' :: Text.byte '/' :: r)
      · rw [scan_of_comments comment, comment_addWord, comment.1, ← List.cons_append] at starts
        dsimp only at starts
        exact absurd starts (Text.trim_slash_append_ne code _)
      · have comment' : ¬ st.Comments b (code ++ Text.byte '/' :: Text.byte '/' :: r') := by
          intro h
          apply comment
          cases code <;> exact h
        rw [scan_of_push divides comment] at starts
        rw [scan_of_push divides comment, scan_of_push divides comment', ih _ starts]

end TealAudit.Fields
