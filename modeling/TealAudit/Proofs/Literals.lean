import TealAudit.Proofs.LineGrammar

/-!
# Words and strings

What a line is written from: plain words and **strings**. A string is a double quote, then bytes that
stand for themselves and escapes, then a double quote (`Fields.IsString`). An escape is a backslash and
the byte behind it, so whether a backslash starts an escape depends on all the backslashes in front of
it. The scanner looks at one byte only: a quote behind a backslash goes on with the string, and a
string that ends in an escaped backslash is not ended by its quote.

**The law** (`Fields.split_tokens_iff`) is that words and strings with a space between them and a
comment behind them are cut into these words and strings, and into this comment, if and only if no
string among them ends in an escaped backslash. What makes it hold is that the bytes of a body never
end the string (`Body.holds`), so that all depends on the byte in front of the last quote.
-/

namespace TealAudit.Fields

open State

/-! ## Tokens -/

/-- **What stands between the quotes of a string**: bytes other than a double quote, a backslash and a
line feed, and escapes, which are a backslash and any byte but a line feed. -/
inductive Body : Text → Prop
  | nil : Body []
  | letter {b : UInt8} {t : Text} : b ≠ Text.byte '"' → b ≠ Text.byte '\\' → b ≠ Text.byte '\n' →
      Body t → Body (b :: t)
  | escape {b : UInt8} {t : Text} : b ≠ Text.byte '\n' → Body t → Body (Text.byte '\\' :: b :: t)

/-- **A string**: a body between two double quotes. -/
inductive IsString : Text → Prop
  | mk {body : Text} : Body body → IsString (Text.byte '"' :: body ++ [Text.byte '"'])

/-- **A plain word**: one that has no gap and no mark of a comment in it, starts no string and does
not announce coded data. -/
structure IsWord (w : Text) : Prop where
  nonempty : w ≠ []
  unbroken : ∀ b ∈ w, ¬ isGap b = true
  noString : w.head? ≠ some (Text.byte '"')
  noComment : ¬ SourceLine.commentMark <:+: w
  noCode : announcesCode w = false

/-- A string whose last quote has a backslash in front of it: the last escape of the string is that of
a backslash. -/
def EndsEscaped (w : Text) : Prop := Text.ofString "\\\"" <:+ w

/-! ## Words -/

variable {w rest : Text} {st : State}

/-- Bytes without gaps and comments stay in the field at hand, and out of a string. -/
theorem State.holds_of_unbroken (outside : st.inString = false)
    (noString : st.taken = [] → w.head? ≠ some (Text.byte '"')) (unbroken : ∀ b ∈ w, ¬ isGap b = true)
    (noComment : ¬ SourceLine.commentMark <:+: w) (other : rest.head? ≠ some (Text.byte '/')) :
    st.Holds w rest ∧ (st.run w).inString = false := by
  induction w generalizing st with
  | nil => exact ⟨trivial, outside⟩
  | cons b w ih =>
    obtain ⟨here, unbroken⟩ := List.forall_mem_cons.mp unbroken
    have still : (st.push b).inString = false := by
      simp only [push, quoted, outside]
      split
      · next quote =>
        have some : st.taken ≠ [] := fun empty => noString empty (congrArg some quote)
        simpa using some
      · rfl
    have later : ¬ SourceLine.commentMark <:+: w := fun inside =>
      noComment (inside.trans (List.infix_cons (List.infix_refl w)))
    obtain ⟨holds, ended⟩ := ih still (fun empty => absurd empty (List.cons_ne_nil _ _)) unbroken later
    refine ⟨⟨fun divides => here divides.1, fun comment => ?_, holds⟩, ended⟩
    obtain ⟨rfl, next, _⟩ := comment
    cases w with
    | nil => exact other next
    | cons c w =>
      cases Option.some.inj next
      rw [SourceLine.commentMark_eq] at noComment
      exact noComment ⟨[], w, rfl⟩

/-! ## Strings -/

/-- In a string nothing divides fields or starts a comment. -/
theorem State.holds_cons_of_inside {b : UInt8} (inside : st.inString = true)
    (more : (st.push b).Holds w rest) : st.Holds (b :: w) rest := by
  refine ⟨fun divides => ?_, fun comment => ?_, more⟩
  · rw [divides.2] at inside
    cases inside
  · rw [comment.2.2.2] at inside
    cases inside

theorem State.inString_push_of_ne {b : UInt8} (other : b ≠ Text.byte '"') :
    (st.push b).inString = st.inString :=
  if_neg other

/-- **The body of a string does not end it.** -/
theorem Body.holds {body : Text} (h : Body body) (inside : st.inString = true) (rest : Text) :
    st.Holds body rest ∧ (st.run body).inString = true := by
  induction h generalizing st with
  | nil => exact ⟨trivial, inside⟩
  | @letter b t quote _ _ _ ih =>
    have inside' : (st.push b).inString = true := (inString_push_of_ne quote).trans inside
    obtain ⟨holds, still⟩ := ih inside'
    exact ⟨holds_cons_of_inside inside holds, still⟩
  | @escape b t _ _ ih =>
    have after : (st.push (Text.byte '\\')).inString = true :=
      (inString_push_of_ne (by decide)).trans inside
    -- If the escaped byte is a quote, the backslash in front of it keeps the string open.
    have escaped : ((st.push (Text.byte '\\')).push b).inString = true := by
      by_cases quote : b = Text.byte '"'
      · rw [State.push, if_pos quote, quoted, if_pos after]
        rfl
      · rw [inString_push_of_ne quote, after]
    obtain ⟨holds, still⟩ := ih escaped
    exact ⟨holds_cons_of_inside inside (holds_cons_of_inside after holds), still⟩

theorem State.Holds.append {v : Text} (first : st.Holds w (v ++ rest)) (later : (st.run w).Holds v rest) :
    st.Holds (w ++ v) rest := by
  induction w generalizing st with
  | nil => exact later
  | cons b w ih =>
    obtain ⟨field, code, more⟩ := first
    rw [← List.append_assoc] at code
    exact ⟨field, code, ih more later⟩

theorem endsEscaped_iff (t : Text) :
    EndsEscaped (t ++ [Text.byte '"']) ↔ t.reverse.head? = some (Text.byte '\\') := by
  have mark : Text.ofString "\\\"" = [Text.byte '\\', Text.byte '"'] := by decide
  rw [EndsEscaped, mark, ← List.reverse_prefix, List.reverse_append, List.reverse_singleton,
    List.singleton_append]
  cases t.reverse with
  | nil => simp
  | cons b t => simp [eq_comm]

/-- **A string is one stretch of a field**, and its last quote ends it unless a backslash is in front
of it. -/
theorem IsString.holds (h : IsString w) (inCode : Bool) (rest : Text) :
    (State.start inCode).Holds w rest ∧
      (((State.start inCode).run w).inString = true ↔ EndsEscaped w) := by
  cases h with
  | @mk body inner =>
    have opened : ((State.start inCode).push (Text.byte '"')).inString = true := rfl
    obtain ⟨holds, still⟩ := inner.holds opened ([Text.byte '"'] ++ rest)
    refine ⟨⟨?_, ?_, holds.append (holds_cons_of_inside still trivial)⟩, ?_⟩
    · exact fun divides => absurd divides.1 (by decide)
    · exact fun comment => absurd comment.1 (by decide)
    · have closed : (State.start inCode).run (Text.byte '"' :: body ++ [Text.byte '"']) =
          (((State.start inCode).push (Text.byte '"')).run body).push (Text.byte '"') := by
        simp [State.run]
      rw [closed, endsEscaped_iff, State.push, if_pos rfl, quoted, if_pos still, taken_run,
        decide_eq_true_iff, List.reverse_cons]
      rfl

/-! ## Lines of tokens -/

/-- **A field that ends at a space.** -/
theorem scan_word (nonempty : w ≠ []) (noCode : announcesCode w = false)
    (holds : (State.start false).Holds w (Text.byte ' ' :: rest))
    (ended : ((State.start false).run w).inString = false) :
    (State.start false).scan (w ++ Text.byte ' ' :: rest) =
      ⟨w :: ((State.start false).scan rest).words, ((State.start false).scan rest).comment⟩ := by
  have gap : ((State.start false).run w).Divides (Text.byte ' ') := ⟨by decide, ended⟩
  rw [scan_append holds, scan_of_divides gap, State.pass, taken_run_start, if_neg (by simpa using nonempty),
    List.reverse_reverse, noCode]
  simp [addWord, nonempty]

/-- **A string that goes on at a space** makes a longer field. -/
theorem scan_ne_of_inside {ws : List Text} {comment : Text}
    (holds : (State.start false).Holds w (Text.byte ' ' :: rest))
    (inside : ((State.start false).run w).inString = true) :
    (State.start false).scan (w ++ Text.byte ' ' :: rest) ≠ ⟨w :: ws, comment⟩ := by
  have field : ¬ ((State.start false).run w).Divides (Text.byte ' ') := fun divides => by
    rw [divides.2] at inside
    cases inside
  have code : ¬ ((State.start false).run w).Comments (Text.byte ' ') rest := fun comment =>
    absurd comment.1 (by decide)
  obtain ⟨more, words, longer⟩ := exists_word_push ((State.start false).run w) (Text.byte ' ') rest
  intro same
  rw [scan_append holds, scan_of_push field code] at same
  rw [same, taken_run_start, List.reverse_reverse] at longer
  have length := congrArg List.length (List.cons.inj longer).1
  rw [List.length_append, List.length_cons] at length
  omega

/-- **A token**: a plain word or a string. -/
inductive IsToken (w : Text) : Prop
  | word : IsWord w → IsToken w
  | string : IsString w → IsToken w

theorem IsString.head?_eq (h : IsString w) : w.head? = some (Text.byte '"') := by
  cases h
  rfl

namespace IsToken

theorem nonempty (h : IsToken w) : w ≠ [] := by
  cases h with
  | word word => exact word.nonempty
  | string string =>
    rintro rfl
    cases string.head?_eq

theorem noCode (h : IsToken w) : announcesCode w = false := by
  cases h with
  | word word => exact word.noCode
  | string string =>
    have other {v : Text} (first : v.head? ≠ some (Text.byte '"')) : w ≠ v := by
      rintro rfl
      exact first string.head?_eq
    simp [announcesCode, other (v := Text.ofString "base64") (by decide),
      other (v := Text.ofString "b64") (by decide)]

/-- **A token in front of a space** stays in one field, and the space ends it unless it is a string
that ends in an escaped backslash. -/
theorem holds (h : IsToken w) (rest : Text) :
    (State.start false).Holds w (Text.byte ' ' :: rest) ∧
      (((State.start false).run w).inString = true ↔ IsString w ∧ EndsEscaped w) := by
  cases h with
  | word word =>
    have space : (Text.byte ' ' :: rest).head? ≠ some (Text.byte '/') := by simp; decide
    have outside : (State.start false).inString = false := rfl
    obtain ⟨holds, ended⟩ := holds_of_unbroken outside (fun _ => word.noString) word.unbroken
      word.noComment space
    refine ⟨holds, ?_⟩
    rw [ended]
    exact ⟨nofun, fun both => absurd both.1.head?_eq word.noString⟩
  | string string =>
    obtain ⟨holds, ended⟩ := string.holds false (Text.byte ' ' :: rest)
    exact ⟨holds, ended.trans (and_iff_right string).symm⟩

end IsToken

/-- Tokens with a space behind each. -/
def spaced (tokens : List Text) : Text := tokens.flatMap fun t => t ++ [Text.byte ' ']

theorem join_append_space (t : Text) (tokens : List Text) (rest : Text) :
    Text.join (Text.ofString " ") (t :: tokens) ++ Text.byte ' ' :: rest =
      spaced (t :: tokens) ++ rest := by
  have space : Text.ofString " " = [Text.byte ' '] := by decide
  induction tokens generalizing t with
  | nil => simp [Text.join, spaced]
  | cons u tokens ih =>
    rw [Text.join, List.append_assoc, ih, space]
    simp [spaced]

/-- **Tokens are the fields of their line** if and only if none of them ends in an escaped backslash:
the first that does takes in the space behind it. -/
theorem scan_spaced_iff {tokens : List Text} (all : ∀ t ∈ tokens, IsToken t) {comment : Text}
    (behind : (State.start false).scan rest = ⟨[], comment⟩) :
    (State.start false).scan (spaced tokens ++ rest) = ⟨tokens, comment⟩ ↔
      ∀ t ∈ tokens, IsString t → ¬ EndsEscaped t := by
  induction tokens with
  | nil => simpa [spaced] using behind
  | cons t tokens ih =>
    obtain ⟨token, all⟩ := List.forall_mem_cons.mp all
    have line : spaced (t :: tokens) ++ rest = t ++ Text.byte ' ' :: (spaced tokens ++ rest) := by
      simp [spaced]
    obtain ⟨holds, goes_on⟩ := token.holds (spaced tokens ++ rest)
    rw [line, List.forall_mem_cons, ← ih all, ← not_and, ← goes_on]
    by_cases inside : ((State.start false).run t).inString = true
    · exact iff_of_false (scan_ne_of_inside holds inside) fun both => both.1 inside
    · rw [scan_word token.nonempty token.noCode holds (by simpa using inside), and_iff_right inside]
      cases (State.start false).scan (spaced tokens ++ rest)
      simp

/-- **Words and strings are one field each**, and what follows them behind `//` is the comment, if and
only if no string among them ends in an escaped backslash. -/
theorem split_tokens_iff {tokens : List Text} (all : ∀ t ∈ tokens, IsToken t) (c : Text) :
    split (Text.join (Text.ofString " ") tokens ++ Text.ofString " //" ++ c) =
        ⟨tokens, Text.trim (Text.ofString "//" ++ c)⟩ ↔
      ∀ t ∈ tokens, IsString t → ¬ EndsEscaped t := by
  have mark : Text.ofString " //" = Text.byte ' ' :: Text.ofString "//" := by decide
  have behind : (State.start false).scan (Text.ofString "//" ++ c) =
      ⟨[], Text.trim (Text.ofString "//" ++ c)⟩ := rfl
  rw [← scan_spaced_iff all behind, List.append_assoc, mark, List.cons_append]
  cases tokens with
  | nil => exact Iff.rfl
  | cons t tokens =>
    rw [join_append_space]
    exact Iff.rfl

theorem isWord_byte : IsWord (Text.ofString "byte") where
  nonempty := by decide
  unbroken b mem := by
    have all : (Text.ofString "byte").all (!isGap ·) = true := by decide
    simpa using List.all_eq_true.mp all b mem
  noString := by decide
  noComment := by decide
  noCode := by decide

/-- A string with an escaped quote, a space and what would be a comment elsewhere. -/
theorem split_tokens_iff_escaped_quote :
    (∀ t ∈ [Text.ofString "byte", Text.ofString "\"\\\" //\""], IsToken t) ∧
      split (Text.ofString "byte \"\\\" //\" //nolint") =
        ⟨[Text.ofString "byte", Text.ofString "\"\\\" //\""], Text.ofString "//nolint"⟩ := by
  have inner : Body (Text.ofString "\\\" //") :=
    .escape (by decide) (.letter (by decide) (by decide) (by decide)
      (.letter (by decide) (by decide) (by decide)
        (.letter (by decide) (by decide) (by decide) .nil)))
  have all : ∀ t ∈ [Text.ofString "byte", Text.ofString "\"\\\" //\""], IsToken t :=
    List.forall_mem_cons.mpr ⟨.word isWord_byte, List.forall_mem_singleton.mpr (.string (.mk inner))⟩
  have cut := (split_tokens_iff all (Text.ofString "nolint")).mpr (by
    refine List.forall_mem_cons.mpr ⟨fun _ => ?_, List.forall_mem_singleton.mpr fun _ => ?_⟩
    · unfold EndsEscaped; decide
    · unfold EndsEscaped; decide)
  have comment : Text.trim (Text.ofString "//" ++ Text.ofString "nolint") = Text.ofString "//nolint" := by
    decide +kernel
  rw [comment] at cut
  exact ⟨all, cut⟩

/-- A string that ends in an escaped backslash takes in the comment behind it. -/
theorem string_takes_comment :
    let tokens := [Text.ofString "byte", Text.ofString "\"a\\\\\""]
    let line := Text.join (Text.ofString " ") tokens ++ Text.ofString " //" ++ Text.ofString " c"
    (∀ t ∈ tokens, IsToken t) ∧
      split line = ⟨[Text.ofString "byte", Text.ofString "\"a\\\\\" // c"], []⟩ ∧
      split line ≠ ⟨tokens, Text.trim (Text.ofString "//" ++ Text.ofString " c")⟩ := by
  intro tokens line
  have inner : Body (Text.ofString "a\\\\") :=
    .letter (by decide) (by decide) (by decide) (.escape (by decide) .nil)
  have cut : split line = ⟨[Text.ofString "byte", Text.ofString "\"a\\\\\" // c"], []⟩ := by decide
  refine ⟨List.forall_mem_cons.mpr ⟨.word isWord_byte,
    List.forall_mem_singleton.mpr (.string (.mk inner))⟩, cut, fun same => ?_⟩
  rw [cut] at same
  exact absurd (congrArg Fields.words same) (by decide)

end TealAudit.Fields
