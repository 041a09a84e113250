import TealAudit.Proofs.Layout
import TealAudit.Proofs.RoundTrip
import TealAudit.Proofs.Writing

/-!
# Comments at the end of a line

A comment that is put at the end of a line, behind a space, is read as one if the line **takes** it
(`SourceLine.TakesComment`). A line does when it has a comment already, when it is a hint to the
assembler, and otherwise when nothing but tabs and spaces follows its last field and that field does
not announce coded data. What keeps a line from taking a comment is thus one of two things:

* behind `base64` or `b64` a `//` is data;
* white space of another kind is trimmed at the end of a line only, and is part of a field elsewhere.

The reading of a line is taken apart at its end (`State.exists_open_word`): what was read before leaves
some fields and a state within the last field, and what stands between that field and the comment
decides on the rest (`State.words_scan_comment_iff`).

**The law** (`Listing.parse_appendTo_iff`) is that a comment leaves the listing of a program as it is
if and only if the line takes it.
-/

namespace TealAudit

/-! ## White space at the end -/

theorem Text.not_isVisible_of_isTail {b : UInt8} (tail : Point.IsTail b) : ¬ IsVisible b := by
  intro visible
  have least := UInt8.le_iff_toNat_le.mp tail.1
  have most := visible.2
  simp only [UInt8.reduceToNat] at least
  omega

/-- No byte of white space is a visible character. -/
theorem Text.not_isVisible_of_mem {w : Text} (blank : isBlank w = true) : ∀ b ∈ w, ¬ IsVisible b := by
  induction w using pointwise with
  | nil => exact fun _ mem => (List.not_mem_nil mem).elim
  | scalar c w ih =>
    obtain ⟨first, tail, eq, spells⟩ := Point.exists_spells c
    have behind := ih (isBlank_encode.mp blank).2
    rw [eq] at blank ⊢
    intro b mem
    rcases List.mem_append.mp mem with mem | mem
    · rcases List.mem_cons.mp mem with rfl | mem
      · exact not_isVisible_of_isBlank blank
      · exact not_isVisible_of_isTail (spells.follows b mem)
    · exact behind b mem
  | stray b w none _ => exact absurd blank (not_isBlank_stray none)

namespace Fields

theorem isBlank_of_isGap {gaps : Text} (gap : ∀ b ∈ gaps, isGap b = true) :
    Text.isBlank gaps = true := by
  induction gaps with
  | nil => rfl
  | cons b gaps ih =>
    obtain ⟨first, gap⟩ := List.forall_mem_cons.mp gap
    rcases Bool.or_eq_true_iff.mp first with space | tab
    · rw [of_decide_eq_true space]
      exact Text.isBlank_encode (c := ' ').mpr ⟨by decide, ih gap⟩
    · rw [of_decide_eq_true tab]
      exact Text.isBlank_encode (c := '\t').mpr ⟨by decide, ih gap⟩

/-- A trimmed text does not end in a gap. -/
theorem not_isGap_of_getLast?_trim (t : Text) : ∀ b ∈ t.trim.getLast?, ¬ isGap b = true := by
  intro b last gap
  obtain ⟨front, eq⟩ := List.getLast?_eq_some_iff.mp last
  have blank : Text.isBlank [b] = true := isBlank_of_isGap (by simpa using gap)
  have some := Text.points_ne_nil (List.cons_ne_nil b [])
  have dark := Text.getLast?_points_trim t
  rw [eq, Text.points_append _ (Text.boundary_of_isBlank blank),
    List.getLast?_append_of_ne_nil _ some, List.getLast?_eq_some_getLast some] at dark
  have white := List.all_eq_true.mp blank _ (List.getLast_mem some)
  rw [dark _ rfl] at white
  cases white

/-! ## Reading a line in two parts -/

variable {st : State} {t : Text}

theorem words_addWord_append (taken : Text) (f : Fields) :
    (addWord taken f).words = (addWord taken ⟨[], []⟩).words ++ f.words := by
  unfold addWord
  split <;> rfl

/-- A comment takes in whatever follows it. -/
theorem State.words_scan_append (some : (st.scan t).comment ≠ []) (u : Text) :
    (st.scan (t ++ u)).words = (st.scan t).words := by
  induction t generalizing st with
  | nil =>
    rw [scan_nil, comment_addWord] at some
    exact absurd rfl some
  | cons b t ih =>
    rw [List.cons_append]
    by_cases divides : st.Divides b
    · rw [scan_of_divides divides, comment_addWord] at some
      rw [scan_of_divides divides, scan_of_divides divides, words_addWord_append, ih some,
        ← words_addWord_append]
    · by_cases comment : st.Comments b t
      · have later : st.Comments b (t ++ u) := by
          obtain ⟨first, second, modes⟩ := comment
          obtain ⟨rest, rfl⟩ := List.head?_eq_some_iff.mp second
          exact ⟨first, rfl, modes⟩
        rw [scan_of_comments comment, scan_of_comments later, words_addWord_append,
          words_addWord_append _ ⟨[], Text.trim (b :: t)⟩]
      · rw [scan_of_push divides comment] at some
        have still : ¬ st.Comments b (t ++ u) := by
          cases t with
          | nil =>
            rw [scan_nil, comment_addWord] at some
            exact absurd rfl some
          | cons x t => exact comment
        rw [scan_of_push divides comment, scan_of_push divides still, ih some]

/-- **The last field of a line is open to what follows it.** What is read of a line that has no comment
and does not end in a gap leaves some fields and a state within the last one, from which the reading
goes on. -/
theorem State.exists_open_word (outside : st.inString = false) (plain : Text.byte '"' ∉ t)
    (none : (st.scan t).comment = []) (some : t ≠ []) (last : ∀ b ∈ t.getLast?, ¬ isGap b = true) :
    ∃ (words : List Text) (st' : State), st'.taken ≠ [] ∧ st'.inString = false ∧
      ∀ u : Text, u.head? ≠ Option.some (Text.byte '/') →
        (st.scan (t ++ u)).words = words ++ (st'.scan u).words := by
  induction t generalizing st with
  | nil => exact absurd rfl some
  | cons b t ih =>
    have plain' := List.not_mem_of_not_mem_cons plain
    have last' (more : t ≠ []) : ∀ b ∈ t.getLast?, ¬ isGap b = true := by
      rwa [List.getLast?_cons_of_ne_nil more] at last
    by_cases divides : st.Divides b
    · have more : t ≠ [] := by
        rintro rfl
        exact last b rfl divides.1
      rw [scan_of_divides divides, comment_addWord] at none
      obtain ⟨words, st', taken, outside', reads⟩ := ih rfl plain' none more (last' more)
      refine ⟨(addWord st.taken ⟨[], []⟩).words ++ words, st', taken, outside', fun u head => ?_⟩
      rw [List.cons_append, scan_of_divides divides, words_addWord_append, reads u head,
        List.append_assoc]
    · by_cases comment : st.Comments b t
      · rw [scan_of_comments comment, comment_addWord, comment.1] at none
        obtain ⟨text, eq⟩ := Text.trim_slash t
        exact absurd (eq.symm.trans none) (List.cons_ne_nil _ _)
      · rw [scan_of_push divides comment] at none
        have outside' : (st.push b).inString = false :=
          (if_neg (List.ne_of_not_mem_cons plain).symm).trans outside
        by_cases more : t = []
        · subst more
          refine ⟨[], st.push b, List.cons_ne_nil _ _, outside', fun u head => ?_⟩
          have still : ¬ st.Comments b u := fun comment => head comment.2.1
          rw [List.singleton_append, scan_of_push divides still, List.nil_append]
        · obtain ⟨words, st', taken, outside', reads⟩ := ih outside' plain' none more (last' more)
          refine ⟨words, st', taken, outside', fun u head => ?_⟩
          have still : ¬ st.Comments b (t ++ u) := by
            intro later
            rw [State.Comments, List.head?_append_of_ne_nil _ more] at later
            exact comment later
          rw [List.cons_append, scan_of_push divides still, reads u head]

theorem State.scan_of_dark {b : UInt8} (dark : ¬ Text.IsVisible b) (field : ¬ isGap b = true)
    (rest : Text) : st.scan (b :: rest) = (st.push b).scan rest := by
  refine scan_of_push (fun divides => field divides.1) fun comment => dark ?_
  rw [comment.1]
  decide

/-- At the head of a field, there are no more fields in front of a comment if and only if only gaps stand
there and what follows is not coded. -/
theorem words_scan_start_iff {gaps : Text} (dark : ∀ b ∈ gaps, ¬ Text.IsVisible b) (inCode : Bool)
    (r : Text) : ((State.start inCode).scan (gaps ++ Text.byte '/' :: Text.byte '/' :: r)).words = [] ↔
      (∀ b ∈ gaps, isGap b = true) ∧ inCode = false := by
  have begun (b : UInt8) (rest : Text) : (((State.start inCode).push b).scan rest).words ≠ [] := by
    obtain ⟨more, words, eq⟩ := State.exists_word_push (State.start inCode) b rest
    rw [eq]
    exact List.cons_ne_nil _ _
  induction gaps with
  | nil =>
    rw [List.nil_append]
    cases inCode with
    | false => exact iff_of_true rfl ⟨fun _ mem => (List.not_mem_nil mem).elim, rfl⟩
    | true =>
      refine iff_of_false ?_ (fun both => Bool.noConfusion both.2)
      rw [State.scan_of_push (fun h => State.not_isGap_slash h.1) fun h => Bool.noConfusion h.2.2.1]
      exact begun _ _
  | cons b gaps ih =>
    obtain ⟨first, dark⟩ := List.forall_mem_cons.mp dark
    rw [List.forall_mem_cons, List.cons_append]
    by_cases gap : isGap b = true
    · rw [State.scan_of_divides ⟨gap, rfl⟩, and_iff_right gap]
      exact ih dark
    · refine iff_of_false ?_ fun both => gap both.1.1
      rw [State.scan_of_dark first gap]
      exact begun _ _

/-- **A field ends in front of a comment** if and only if only gaps stand between the two and the field
does not announce coded data. -/
theorem State.words_scan_comment_iff (outside : st.inString = false) (begun : st.taken ≠ [])
    {gaps : Text} (some : gaps ≠ []) (dark : ∀ b ∈ gaps, ¬ Text.IsVisible b) (r : Text) :
    (st.scan (gaps ++ Text.byte '/' :: Text.byte '/' :: r)).words = [st.taken.reverse] ↔
      (∀ b ∈ gaps, isGap b = true) ∧ announcesCode st.taken.reverse = false := by
  cases gaps with
  | nil => exact absurd rfl some
  | cons b gaps =>
    obtain ⟨first, dark⟩ := List.forall_mem_cons.mp dark
    rw [List.forall_mem_cons, List.cons_append]
    by_cases gap : isGap b = true
    · have word (f : Fields) : (addWord st.taken f).words = st.taken.reverse :: f.words := by
        simp [addWord, begun]
      rw [scan_of_divides ⟨gap, outside⟩, word, State.pass, if_neg begun, and_iff_right gap,
        ← words_scan_start_iff dark _ r]
      exact List.cons_eq_cons.trans (and_iff_right rfl)
    · refine iff_of_false ?_ fun both => gap both.1.1
      rw [scan_of_dark first gap]
      obtain ⟨more, words, eq⟩ := exists_word_push st b (gaps ++ Text.byte '/' :: Text.byte '/' :: r)
      rw [eq]
      intro same
      -- The field has taken one byte more.
      have length := congrArg List.length (List.cons.inj same).1
      rw [List.length_append, List.length_cons] at length
      omega

end Fields

/-! ## Lines -/

/-- A line with a comment put at its end, behind a space. -/
def Text.withComment (line c : Text) : Text := line ++ ofString " //" ++ c

namespace SourceLine

/-- **A line and the white space at its two ends.** -/
structure Padded (line front back : Text) : Prop where
  whole : line = front ++ line.trim ++ back
  before : front.isBlank = true
  behind : back.isBlank = true

/-- **The lines that take a comment at their end.** -/
inductive TakesComment (line : Text) : Prop
  /-- One that has a comment. -/
  | commented : (Fields.split line.trim).comment ≠ [] → TakesComment line
  /-- A pragma that is a hint to the assembler. -/
  | hint {mark name : Text} {rest : List Text} : IsPragma line → words line = mark :: name :: rest →
      name ≠ Text.ofString "version" → TakesComment line
  /-- One that ends in gaps, or in none, behind a field that does not announce coded data. -/
  | ended {front back : Text} : Padded line front back → (∀ b ∈ back, Fields.isGap b = true) →
      (∀ w ∈ (words line).getLast?, Fields.announcesCode w = false) → TakesComment line

/-- **A line of fields only**: it is not blank and has neither a comment nor a quote. -/
structure IsBare (line : Text) : Prop where
  some : line.trim ≠ []
  noComment : (Fields.split line.trim).comment = []
  noQuote : Text.byte '"' ∉ line

variable {line front back : Text}

theorem exists_padded (line : Text) : ∃ front back, Padded line front back := by
  obtain ⟨front, back, before, behind, whole⟩ := Text.exists_trim line
  exact ⟨front, back, whole, before, behind⟩

theorem withComment_eq (line c : Text) :
    line.withComment c = line ++ [Text.byte ' '] ++ commentMark ++ c := by
  have mark : Text.ofString " //" = [Text.byte ' '] ++ commentMark := by decide
  rw [Text.withComment, mark, ← List.append_assoc line]

theorem Padded.isBlank (padded : Padded line front back) (nothing : line.trim = []) :
    line.isBlank = true := by
  rw [padded.whole, nothing, List.append_nil, Text.isBlank_append padded.before, padded.behind]

/-- A blank line becomes a comment. -/
theorem read_withComment_of_blank (blank : line.isBlank = true) (nothing : line.trim = [])
    (c : Text) : read (line.withComment c) = read line := by
  obtain ⟨r, comment⟩ := Text.trim_slash_slash c
  have space : Text.trimStart [Text.byte ' '] = [] := by decide
  have trimmed := trim_code blank [Text.byte ' '] c
  rw [← withComment_eq, space, List.nil_append, comment] at trimmed
  simp only [read, trimmed, nothing]
  rfl

/-- What stands between a line and a comment that is put at its end: the white space behind the line,
and a space. -/
def gapBehind (back : Text) : Text := back ++ [Text.byte ' ']

theorem gapBehind_ne_nil (back : Text) : gapBehind back ≠ [] :=
  List.append_ne_nil_of_right_ne_nil back (List.cons_ne_nil _ _)

namespace Padded

theorem isBlank_gapBehind (padded : Padded line front back) : (gapBehind back).isBlank = true := by
  rw [gapBehind, Text.isBlank_append padded.behind]
  decide

theorem dark (padded : Padded line front back) : ∀ b ∈ gapBehind back, ¬ Text.IsVisible b :=
  Text.not_isVisible_of_mem padded.isBlank_gapBehind

/-- What follows a line does not start with a visible character. -/
theorem dark_head (padded : Padded line front back) (rest : Text) :
    ∀ b ∈ (gapBehind back ++ rest).head?, ¬ Text.IsVisible b := by
  intro b first
  rw [List.head?_append_of_ne_nil _ (gapBehind_ne_nil back)] at first
  exact padded.dark b (List.mem_of_head? first)

/-- What is read of a line with a comment: the line as it was, the white space that was trimmed from its
end, and the comment. -/
theorem trim_withComment (padded : Padded line front back) (some : line.trim ≠ []) (c : Text) :
    ∃ r, (line.withComment c).trim =
      line.trim ++ (gapBehind back ++ Text.byte '/' :: Text.byte '/' :: r) := by
  obtain ⟨r, comment⟩ := Text.trim_slash_slash c
  have apart : line ++ [Text.byte ' '] = front ++ (line.trim ++ gapBehind back) := by
    rw [gapBehind, ← List.append_assoc line.trim, ← List.append_assoc front, ← List.append_assoc front,
      ← padded.whole]
  refine ⟨r, ?_⟩
  rw [withComment_eq, apart, trim_code padded.before, comment,
    Text.trimStart_append (Text.points_ne_nil some) (Text.head?_points_trim line)
      (Text.boundary_of_isBlank padded.isBlank_gapBehind), List.append_assoc]

/-- A comment makes no pragma of a line, nor something else of a pragma. -/
theorem isPragma_withComment (padded : Padded line front back) (some : line.trim ≠ []) (c : Text) :
    IsPragma (line.withComment c) ↔ IsPragma line := by
  obtain ⟨r, trimmed⟩ := padded.trim_withComment some c
  have visible : (pragmaMark.all fun b => Text.IsVisible b) = true := by decide
  rw [IsPragma, trimmed]
  refine isPrefix_append_iff fun b first mem => padded.dark_head _ b first ?_
  exact of_decide_eq_true (List.all_eq_true.mp visible b mem)

end Padded

/-- **The last field of a line without a comment** is open to what follows the line. -/
theorem IsBare.exists_last_word (bare : IsBare line) :
    ∃ (ws : List Text) (st : Fields.State), st.taken ≠ [] ∧ st.inString = false ∧
      words line = ws ++ [st.taken.reverse] ∧
      ∀ u : Text, (∀ b ∈ u.head?, ¬ Text.IsVisible b) →
        (Fields.split (line.trim ++ u)).words = ws ++ (st.scan u).words := by
  have noQuote : Text.byte '"' ∉ line.trim := fun mem => bare.noQuote (Text.mem_of_mem_trim mem)
  have outside : (Fields.State.start false).inString = false := rfl
  obtain ⟨ws, st, begun, outside, reads⟩ := Fields.State.exists_open_word outside noQuote
    bare.noComment bare.some (Fields.not_isGap_of_getLast?_trim line)
  have alone := reads [] nofun
  rw [List.append_nil, Fields.State.scan_nil] at alone
  refine ⟨ws, st, begun, outside, alone.trans ?_, fun u dark => reads u ?_⟩
  · simp [Fields.addWord, begun]
  · intro slash
    exact dark _ slash (by decide)

/-- **What a comment does to the words of a line.** It may add to the last word and behind it, and what
it adds to the last word does not start with a visible character. -/
theorem IsBare.exists_words_withComment (bare : IsBare line) (c : Text) :
    ∃ ws w more vs, words line = ws ++ [w] ∧
      words (line.withComment c) = ws ++ (w ++ more) :: vs ∧
      ∀ b ∈ more.head?, ¬ Text.IsVisible b := by
  obtain ⟨front, back, padded⟩ := exists_padded line
  obtain ⟨r, trimmed⟩ := padded.trim_withComment bare.some c
  obtain ⟨ws, st, begun, -, eq, reads⟩ := bare.exists_last_word
  obtain ⟨more, vs, part, first⟩ := Fields.State.exists_first_word begun
    (gapBehind back ++ Text.byte '/' :: Text.byte '/' :: r)
  refine ⟨ws, _, more, vs, eq, ?_, fun b head => ?_⟩
  · rw [words, trimmed, reads _ (padded.dark_head _), first]
  · obtain ⟨rest, eq⟩ := part
    apply padded.dark_head (Text.byte '/' :: Text.byte '/' :: r) b
    rw [← eq, List.head?_append, head]
    rfl

/-- **A line that has no comment keeps its words** in front of one if and only if it ends in gaps only,
behind a field that does not announce coded data. -/
theorem IsBare.words_withComment_iff (bare : IsBare line) (padded : Padded line front back) (c : Text) :
    words (line.withComment c) = words line ↔
      (∀ b ∈ back, Fields.isGap b = true) ∧
        ∀ w ∈ (words line).getLast?, Fields.announcesCode w = false := by
  obtain ⟨r, trimmed⟩ := padded.trim_withComment bare.some c
  obtain ⟨ws, st, begun, outside, eq, reads⟩ := bare.exists_last_word
  have space : Fields.isGap (Text.byte ' ') = true := by decide
  rw [eq, words, trimmed, reads _ (padded.dark_head _), List.append_cancel_left_eq,
    Fields.State.words_scan_comment_iff outside begun (gapBehind_ne_nil back) padded.dark]
  simp [gapBehind, space, or_imp, forall_and]

/-- A hint to the assembler stays one. -/
theorem IsBare.read_hint (bare : IsBare line) {mark name : Text} {rest : List Text}
    (pragma : IsPragma line) (eq : words line = mark :: name :: rest)
    (other : name ≠ Text.ofString "version") (c : Text) :
    read (line.withComment c) = .ok .idle := by
  classical
  obtain ⟨front, back, padded⟩ := exists_padded line
  obtain ⟨ws, w, more, vs, eq', later, dark⟩ := bare.exists_words_withComment c
  rw [read_eq, if_pos ((padded.isPragma_withComment bare.some c).mpr pragma), later]
  rw [eq] at eq'
  match ws with
  | [] => cases eq'
  | [_] =>
    obtain ⟨rfl, rfl⟩ : name = w ∧ rest = [] := List.cons.inj (List.cons.inj eq').2
    refine ofPragma_hint vs fun version => other ?_
    cases more with
    | nil => rwa [List.append_nil] at version
    | cons b more =>
      -- The name of the pragma that counts has visible characters only.
      have visible : ((Text.ofString "version").all fun b => Text.IsVisible b) = true := by decide
      have mem : b ∈ Text.ofString "version" := by simp [← version]
      exact absurd (of_decide_eq_true (List.all_eq_true.mp visible b mem)) (dark b rfl)
  | _ :: second :: ws =>
    have same : name = second := (List.cons.inj (List.cons.inj eq').2).1
    exact ofPragma_hint _ (same ▸ other)

/-- **A comment does not count where the line takes it.** -/
theorem TakesComment.read_eq (h : TakesComment line) (plain : Text.byte '"' ∉ line) (c : Text) :
    read (line.withComment c) = read line := by
  classical
  obtain ⟨front, back, padded⟩ := exists_padded line
  by_cases nothing : line.trim = []
  · exact read_withComment_of_blank (padded.isBlank nothing) nothing c
  have pragma := padded.isPragma_withComment nothing c
  by_cases none : (Fields.split line.trim).comment = []
  · have bare : IsBare line := ⟨nothing, none, plain⟩
    cases h with
    | commented some => exact absurd none some
    | hint is_pragma eq other =>
      rw [bare.read_hint is_pragma eq other, SourceLine.read_eq, if_pos is_pragma, eq,
        ofPragma_hint _ other]
    | ended padded' gaps noCode =>
      exact read_congr pragma ((bare.words_withComment_iff padded' c).mpr ⟨gaps, noCode⟩)
  · obtain ⟨r, trimmed⟩ := padded.trim_withComment nothing c
    refine read_congr pragma ?_
    rw [words, trimmed]
    have some : ((Fields.State.start false).scan line.trim).comment ≠ [] := none
    exact Fields.State.words_scan_append some _

/-! ## What a line that takes no comment becomes -/

theorem takesComment_of_blank (nothing : line.trim = []) : TakesComment line := by
  obtain ⟨front, back, padded⟩ := exists_padded line
  have blank : Padded line line [] := by
    refine ⟨?_, padded.isBlank nothing, rfl⟩
    rw [nothing, List.append_nil, List.append_nil]
  refine .ended blank (fun _ mem => (List.not_mem_nil mem).elim) ?_
  rw [words, nothing]
  intro w last
  cases last

theorem IsBare.takesComment_of_words (bare : IsBare line) {c : Text}
    (same : words (line.withComment c) = words line) : TakesComment line := by
  obtain ⟨front, back, padded⟩ := exists_padded line
  obtain ⟨gaps, noCode⟩ := (bare.words_withComment_iff padded c).mp same
  exact .ended padded gaps noCode

theorem Labelled.words_eq {ws ws' body : List Text} {label : Option Text} (h : Labelled ws label body)
    (h' : Labelled ws' label body) : ws = ws' := by
  cases h with
  | label _ => cases h'; rfl
  | bare _ => cases h'; rfl

/-- An instruction spells out its words. -/
theorem Spells.body_eq {body body' : List Text} {i i' : Option (Opcode × List Text)} {n : Nat}
    (h : Spells body i) (h' : Spells body' i')
    (same : i.map (Instruction.ofOperation n) = i'.map (Instruction.ofOperation n)) : body = body' := by
  cases h with
  | nothing =>
    cases h' with
    | nothing => rfl
    | operation _ _ => cases same
  | operation found _ =>
    cases h' with
    | nothing => cases same
    | operation found' _ =>
      obtain ⟨name, -, operands, -⟩ := Instruction.mk.inj (Option.some.inj same)
      rw [← (Opcode.eq_of_find? found).2, ← (Opcode.eq_of_find? found').2]
      exact List.cons_eq_cons.mpr ⟨name, operands⟩

theorem Reads.exists_code {e : LineEntry} (reads : Reads line e) (code : ¬ IsPragma line) :
    ∃ body, Labelled (words line) e.label body ∧ Spells body e.instruction := by
  cases reads with
  | idle none =>
    rw [none]
    exact ⟨[], .bare fun _ _ => nofun, .nothing⟩
  | hint pragma _ _ => exact absurd pragma code
  | version pragma _ _ => exact absurd pragma code
  | code _ labelled spells => exact ⟨_, labelled, spells⟩

/-- A version pragma that is still one behind a comment has kept its words. -/
theorem IsBare.words_version (bare : IsBare line) {mark value c : Text} {e : LineEntry}
    (pragma : IsPragma line) (eq : words line = [mark, Text.ofString "version", value])
    (reads : Reads (line.withComment c) e) :
    words (line.withComment c) = words line := by
  obtain ⟨front, back, padded⟩ := exists_padded line
  have pragma' := (padded.isPragma_withComment bare.some c).mpr pragma
  obtain ⟨ws, w, more, vs, eq', later, dark⟩ := bare.exists_words_withComment c
  rw [eq] at eq'
  have front : ws = [mark, Text.ofString "version"] ∧ value = w := by
    have split := List.append_inj' (show [mark, Text.ofString "version"] ++ [value] = _ from eq') rfl
    exact ⟨split.1.symm, (List.cons.inj split.2).1⟩
  obtain ⟨rfl, rfl⟩ := front
  cases reads with
  | idle none => exact absurd none (words_of_pragma pragma')
  | hint _ eq'' other =>
    rw [later] at eq''
    exact absurd (List.cons.inj (List.cons.inj eq'').2).1.symm other
  | version _ eq'' version =>
    rw [later] at eq''
    obtain ⟨number, rest⟩ := List.cons.inj (List.cons.inj (List.cons.inj eq'').2).2
    rw [later, eq, rest]
    cases more with
    | nil => rw [List.append_nil]; rfl
    | cons b more =>
      have digit := version.2.1 b (by simp [← number])
      exact absurd (isVisible_of_isDigit digit) (dark b rfl)
  | code plain _ _ => exact absurd pragma' plain

/-- **A line takes a comment if its entry is the same with one.** -/
theorem takesComment_of_reads (plain : Text.byte '"' ∉ line) {c : Text} {e e' : LineEntry} {n : Nat}
    (reads : Reads line e) (reads' : Reads (line.withComment c) e')
    (label : e.label = e'.label)
    (instruction : e.instruction.map (Instruction.ofOperation n) =
      e'.instruction.map (Instruction.ofOperation n)) : TakesComment line := by
  by_cases nothing : line.trim = []
  · exact takesComment_of_blank nothing
  by_cases none : (Fields.split line.trim).comment = []
  swap
  · exact .commented none
  have bare : IsBare line := ⟨nothing, none, plain⟩
  by_cases code : IsPragma line
  · cases reads with
    | idle none => exact absurd none (words_of_pragma code)
    | hint pragma eq other => exact .hint pragma eq other
    | version pragma eq _ =>
      have same := bare.words_version pragma eq reads'
      exact bare.takesComment_of_words same
    | code plain _ _ => exact absurd code plain
  · obtain ⟨front, back, padded⟩ := exists_padded line
    have code' : ¬ IsPragma (line.withComment c) := fun pragma =>
      code ((padded.isPragma_withComment nothing c).mp pragma)
    obtain ⟨body, labelled, spells⟩ := reads.exists_code code
    obtain ⟨body', labelled', spells'⟩ := reads'.exists_code code'
    obtain rfl : body = body' := spells.body_eq spells' instruction
    rw [← label] at labelled'
    exact bare.takesComment_of_words (labelled'.words_eq labelled)

end SourceLine

/-! ## Sources -/

namespace Text

/-- A piece with more at its end, in front of its carriage return. -/
def insertBeforeReturn (more piece : Text) : Text :=
  dropReturn piece ++ more ++ piece.drop (dropReturn piece).length

/-- **A text with more at the end of its line `n`**, which counts from nought, in front of what ends the
line. -/
def appendTo (source : Text) (n : Nat) (more : Text) : Text :=
  join [byte '\n'] ((splitOn (byte '\n') source).modify n (insertBeforeReturn more))

theorem not_mem_insertBeforeReturn {b : UInt8} {more piece : Text} (new : b ∉ more) (old : b ∉ piece) :
    b ∉ insertBeforeReturn more piece := by
  intro mem
  rcases List.mem_append.mp mem with mem | mem
  · rcases List.mem_append.mp mem with mem | mem
    · exact old ((isPrefix_dropReturn piece).subset mem)
    · exact new mem
  · exact old (List.mem_of_mem_drop mem)

theorem dropReturn_append {t : Text} (other : t.getLast? ≠ some (byte '\r')) (u : Text) :
    dropReturn (t ++ u) = t ++ dropReturn u := by
  rcases List.eq_nil_or_concat u with rfl | ⟨front, b, rfl⟩
  · rw [List.append_nil, dropReturn, if_neg other]
    exact (List.append_nil t).symm
  · rw [List.concat_eq_append, ← List.append_assoc, dropReturn, dropReturn, List.getLast?_concat,
      List.getLast?_concat, List.dropLast_concat, List.dropLast_concat]
    split
    · rfl
    · exact List.append_assoc _ _ _

theorem dropEmptyLast_concat (pieces : List Text) (last : Text) :
    dropEmptyLast (pieces ++ [last]) = if last = [] then pieces else pieces ++ [last] := by
  simp only [dropEmptyLast, List.getLast?_concat, Option.some.injEq, List.dropLast_concat]

/-- A piece that is kept may be replaced by any that is not empty: the others are kept as before. -/
theorem exists_dropEmptyLast {before rest : List Text} {piece new : Text}
    (kept : before.length < (dropEmptyLast (before ++ piece :: rest)).length) (some : new ≠ []) :
    ∃ after, dropEmptyLast (before ++ piece :: rest) = before ++ piece :: after ∧
      dropEmptyLast (before ++ new :: rest) = before ++ new :: after := by
  rcases List.eq_nil_or_concat rest with rfl | ⟨front, last, rfl⟩
  · rw [dropEmptyLast_concat] at kept
    have held : piece ≠ [] := by
      intro empty
      rw [if_pos empty] at kept
      omega
    refine ⟨[], ?_, ?_⟩
    · rw [dropEmptyLast_concat, if_neg held]
    · rw [dropEmptyLast_concat, if_neg some]
  · have apart (piece : Text) : dropEmptyLast (before ++ piece :: front.concat last) =
        before ++ piece :: if last = [] then front else front ++ [last] := by
      rw [List.concat_eq_append, ← List.cons_append, ← List.append_assoc, dropEmptyLast_concat]
      split <;> simp
    exact ⟨_, apart piece, apart new⟩

theorem ofString_comment : ofString " //" = [byte ' ', byte '/', byte '/'] := by decide

/-- A carriage return at the end of a comment is taken for a part of the line's end. -/
theorem exists_dropReturn_comment (c piece : Text) : ∃ r,
    dropReturn (insertBeforeReturn (ofString " //" ++ c) piece) =
      (dropReturn piece).withComment r := by
  have last : (dropReturn piece ++ ofString " //").getLast? ≠ some (byte '\r') := by
    rw [ofString_comment, List.getLast?_append_of_ne_nil _ (List.cons_ne_nil _ _)]
    decide
  refine ⟨dropReturn (c ++ piece.drop (dropReturn piece).length), ?_⟩
  rw [insertBeforeReturn, ← List.append_assoc, List.append_assoc, dropReturn_append last, withComment]

/-- **The lines of a text with a comment put at the end of one.** -/
theorem lines_appendTo {source line c : Text} {n : Nat} (found : source.lines[n]? = some line)
    (single : byte '\n' ∉ c) : ∃ before after r, source.lines = before ++ line :: after ∧
      (source.appendTo n (ofString " //" ++ c)).lines = before ++ line.withComment r :: after := by
  have inside : n < (dropEmptyLast (splitOn (byte '\n') source)).length := by
    obtain ⟨lt, -⟩ := List.getElem?_eq_some_iff.mp found
    rwa [lines, List.length_map] at lt
  obtain ⟨before, piece, rest, pieces, rfl, modified⟩ := List.exists_of_modify
    (insertBeforeReturn (ofString " //" ++ c)) (inside.trans_le (isPrefix_dropEmptyLast _).length_le)
  have some : insertBeforeReturn (ofString " //" ++ c) piece ≠ [] := by
    simp [insertBeforeReturn, ofString_comment]
  rw [pieces] at inside
  obtain ⟨after, kept, replaced⟩ := exists_dropEmptyLast inside some
  have first : source.lines = before.map dropReturn ++ dropReturn piece :: after.map dropReturn := by
    rw [lines, pieces, kept, List.map_append, List.map_cons]
  obtain rfl : dropReturn piece = line := by
    rw [first, List.getElem?_append_right (List.length_map _).le, List.length_map, Nat.sub_self] at found
    exact Option.some.inj found
  -- The pieces are those of the text again, since none of them has a line feed in it.
  have unbroken : ∀ x ∈ before ++ insertBeforeReturn (ofString " //" ++ c) piece :: rest,
      byte '\n' ∉ x := by
    have whole : ∀ x ∈ before ++ piece :: rest, byte '\n' ∉ x := fun x mem =>
      not_mem_of_mem_splitOn source (pieces ▸ mem)
    have comment : byte '\n' ∉ ofString " //" ++ c := by
      rw [ofString_comment, List.mem_append]
      exact not_or.mpr ⟨by decide, single⟩
    simp only [List.forall_mem_append, List.forall_mem_cons] at whole ⊢
    exact ⟨whole.1, not_mem_insertBeforeReturn comment whole.2.1, whole.2.2⟩
  obtain ⟨r, line⟩ := exists_dropReturn_comment c piece
  refine ⟨before.map dropReturn, after.map dropReturn, r, first, ?_⟩
  have pieces_ne_nil := List.append_ne_nil_of_right_ne_nil before
    (List.cons_ne_nil (insertBeforeReturn (ofString " //" ++ c) piece) rest)
  rw [lines, appendTo, modified, splitOn_join pieces_ne_nil unbroken, replaced, List.map_append,
    List.map_cons, line]

end Text

namespace Listing

open SourceLine

/-- The label and the instruction of an entry can be told from the listing that it is a part of. -/
theorem entry_of_extendAll {l : Listing} {n : Nat} {e e' : LineEntry} {after : List LineEntry}
    (same : l.extendAll n (e :: after) = l.extendAll n (e' :: after)) : e.label = e'.label ∧
      e.instruction.map (Instruction.ofOperation n) = e'.instruction.map (Instruction.ofOperation n) := by
  have single {α : Type} {o o' : Option α} (h : o.toList = o'.toList) : o = o' := by
    cases o <;> cases o' <;> simp_all
  have named (o : Option Text) (k : Nat) : (o.map (·, k)).toList.map (·.1) = o.toList := by
    cases o <;> rfl
  have labels := congrArg (fun l => l.labels.map (·.1)) same
  have instructions := congrArg (·.instructions) same
  simp only [extendAll, labels_extendAll, instructions_extendAll, extend, List.map_append, named,
    List.append_cancel_right_eq, List.append_cancel_left_eq] at labels instructions
  exact ⟨single labels, single instructions⟩

/-- **Programs that differ in one line and have one listing** have the same label and the same
instruction in that line. -/
theorem entries_of_parse {file source source' line line' : Text} {before after : List Text}
    {l : Listing} (lines : source.lines = before ++ line :: after)
    (lines' : source'.lines = before ++ line' :: after)
    (read : parse file source = .ok l) (read' : parse file source' = .ok l) :
    ∃ (e e' : LineEntry) (n : Nat), Reads line e ∧ Reads line' e' ∧ e.label = e'.label ∧
      e.instruction.map (Instruction.ofOperation n) = e'.instruction.map (Instruction.ofOperation n) := by
  obtain ⟨wellFormed, -⟩ := wellFormed_of_parse read
  obtain ⟨wellFormed', -⟩ := wellFormed_of_parse read'
  have valid := wellFormed.valid
  have valid' := wellFormed'.valid
  rw [lines, List.forall_mem_append, List.forall_mem_cons] at valid
  rw [lines', List.forall_mem_append, List.forall_mem_cons] at valid'
  obtain ⟨validBefore, ⟨e, reads⟩, validAfter⟩ := valid
  obtain ⟨-, ⟨e', reads'⟩, -⟩ := valid'
  obtain ⟨front, readsBefore⟩ := exists_entries validBefore
  obtain ⟨back, readsAfter⟩ := exists_entries validAfter
  have all : List.Forall₂ Reads source.lines (front ++ e :: back) := by
    rw [lines]
    exact List.rel_append readsBefore (.cons reads readsAfter)
  have all' : List.Forall₂ Reads source'.lines (front ++ e' :: back) := by
    rw [lines']
    exact List.rel_append readsBefore (.cons reads' readsAfter)
  rw [parse_eq_ok wellFormed all] at read
  rw [parse_eq_ok wellFormed' all', ← read, Except.ok.injEq, extendAll_append, extendAll_append] at read'
  obtain ⟨label, instruction⟩ := entry_of_extendAll read'
  exact ⟨e, e', _, reads, reads', label.symm, instruction.symm⟩

/-- **A comment at the end of a line leaves the listing of a program as it is** if and only if the line
takes it. -/
theorem parse_appendTo_iff {file source line c : Text} {l : Listing} {n : Nat}
    (read : parse file source = .ok l) (found : source.lines[n]? = some line)
    (plain : Text.byte '"' ∉ line) (single : Text.byte '\n' ∉ c) :
    parse file (source.appendTo n (Text.ofString " //" ++ c)) = .ok l ↔
      SourceLine.TakesComment line := by
  obtain ⟨before, after, r, lines, lines'⟩ := Text.lines_appendTo found single
  constructor
  · intro read'
    obtain ⟨e, e', k, reads, reads', label, instruction⟩ := entries_of_parse lines lines' read read'
    exact takesComment_of_reads plain reads reads' label instruction
  · intro takes
    have alone (ls : List Text) :
        List.Forall₂ (fun a b => SourceLine.read a = SourceLine.read b) ls ls :=
      List.forall₂_same.mpr fun _ _ => rfl
    rw [← read]
    apply parse_congr
    rw [lines, lines']
    exact List.rel_append (alone before) (.cons (takes.read_eq plain r) (alone after))

/-- A comment with a quote and the start of coded data in it, behind a tab and in front of a carriage
return. -/
theorem parse_appendTo_iff_tab :
    let source := Text.ofString "b x\t\r\nx: err"
    let line := Text.ofString "b x\t"
    let c := Text.ofString "\"b64("
    source.appendTo 0 (Text.ofString " //" ++ c) = Text.ofString "b x\t //\"b64(\r\nx: err" ∧
    source.lines[0]? = some line ∧ Text.byte '"' ∉ line ∧ Text.byte '\n' ∉ c ∧
    SourceLine.TakesComment line ∧ ∃ l, parse [] source = .ok l ∧
      parse [] (source.appendTo 0 (Text.ofString " //" ++ c)) = .ok l := by
  intro source line c
  have found : source.lines[0]? = some line := by decide +kernel
  have plain : Text.byte '"' ∉ line := by decide
  have single : Text.byte '\n' ∉ c := by decide
  have takes : SourceLine.TakesComment line := by
    have padded : SourceLine.Padded line [] [Text.byte '\t'] :=
      ⟨by decide +kernel, by decide +kernel, by decide +kernel⟩
    have words : SourceLine.words line = [Text.ofString "b", Text.ofString "x"] := by decide +kernel
    refine .ended padded (List.forall_mem_singleton.mpr (by decide)) ?_
    rw [words]
    rintro _ ⟨⟩
    decide
  obtain ⟨l, read, -⟩ := Program.exists_of_any (q := fun _ => true) (r := parse [] source)
    (by decide +kernel)
  exact ⟨by decide +kernel, found, plain, single, takes, l, read,
    (parse_appendTo_iff read found plain single).mpr takes⟩

/-- **Two lines that do not take a comment.** It becomes data behind `base64`, and it makes a form feed a
part of the field in front of it. -/
theorem comment_becomes_operand :
    let operands (source : Text) := (parse [] source).toOption.map fun l => l.instructions.map (·.operands)
    let comment := Text.ofString " //" ++ Text.ofString "c"
    let coded := Text.ofString "byte base64"
    let fed := Text.ofString "b x\x0c"
    Text.byte '"' ∉ coded ∧ Text.byte '"' ∉ fed ∧
    operands coded = some [[Text.ofString "base64"]] ∧
    operands (coded.appendTo 0 comment) = some [[Text.ofString "base64", Text.ofString "//c"]] ∧
    operands fed = some [[Text.ofString "x"]] ∧
    operands (fed.appendTo 0 comment) = some [[Text.ofString "x\x0c"]] := by
  decide +kernel

end Listing

end TealAudit
