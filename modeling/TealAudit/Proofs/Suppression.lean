import TealAudit.Suppression
import TealAudit.Proofs.Reading

/-!
# Which findings a program suppresses

Where a comment suppresses findings depends on where code stands around it, and on nothing else: on
whether its own line holds an instruction, on whether a line before it does, and on the next line
that does. `Suppression.Covers` says so for any set of lines with code, and
`Suppression.follows_comments` that the scopes computed from a program are these, with `CodeAt` for
the lines that hold an instruction by their words.

That an instruction stands on a line is also what reading a program finds out, by the grammar of
lines. The two agree on every program that is read (`Suppression.codeLines_eq`), so a comment and a
finding mean the same line.
-/

namespace TealAudit

open SourceLine

namespace SourceLine

/-- The comment of a line. -/
def comment (line : Text) : Text := (Fields.split line.trim).comment

/-- Whether the words of a line are an instruction: there are some, and not a label alone. -/
def HoldsCode (line : Text) : Prop :=
  words line ≠ [] ∧ ∀ name : Text, words line ≠ [name ++ Text.ofString ":"]

end SourceLine

namespace Suppression

/-! ## What comments cover -/

/-- The lines of a program are counted from one, and pragmas do not count as lines here. -/
def LineAt (source : Text) (k : Nat) (line : Text) : Prop :=
  ∃ i, k = i + 1 ∧ source.lines[i]? = some line ∧ ¬ IsPragma line

/-- Whether the line `k` holds an instruction. -/
def CodeAt (source : Text) (k : Nat) : Prop := ∃ line, LineAt source k line ∧ HoldsCode line

/-- Whether the comment of line `k` suppresses findings of a detector. -/
def Asks (source : Text) (k : Nat) (detector : Text) : Prop :=
  ∃ line detectors, LineAt source k line ∧ detectorsOf? (comment line) = some detectors ∧
    (detectors = [] ∨ detector ∈ detectors)

/-- The last line that a comment on a line of its own covers: the next one with code, or `k` itself
when none follows. -/
inductive EndsAt (code : Nat → Prop) (k : Nat) : Nat → Prop
  | next {m : Nat} : k < m → code m → (∀ j, k < j → j < m → ¬ code j) → EndsAt code k m
  | same : (∀ j, k < j → ¬ code j) → EndsAt code k k

/-- **The lines that a comment on line `k` covers**, when the lines with code are `code`. -/
inductive Covers (code : Nat → Prop) (k : Nat) : Nat → Prop
  /-- Behind an instruction: its line. -/
  | own : code k → Covers code k k
  /-- In front of the first instruction: every line. -/
  | whole {n : Nat} : ¬ code k → (∀ j < k, ¬ code j) → Covers code k n
  /-- Elsewhere: up to the next instruction. -/
  | onward {j m n : Nat} : ¬ code k → j < k → code j → EndsAt code k m → k ≤ n → n ≤ m →
      Covers code k n

/-- Whether a finding is about a line: a block of it starts there, or an instruction stands there. -/
def StartsAt (f : Finding) (n : Nat) : Prop :=
  (∃ b ∈ f.blocks, b.entry.line = n) ∨ ∃ i ∈ f.instructions, i.line = n

/-- Whether a finding stays: it is about no line, or about one that is not suppressed. -/
def Retains (s : Suppression) (f : Finding) : Prop :=
  (∀ n, ¬ StartsAt f n) ∨ ∃ n, StartsAt f n ∧ s.covers n f.detector = false

/-! ## Remarks -/

theorem holdCode_iff (line : Text) : holdCode (words line) = true ↔ HoldsCode line := by
  unfold HoldsCode
  match words line with
  | [] => simp [holdCode]
  | [word] =>
    have colon : word.endsWith (Text.ofString ":") = true ↔ ∃ name, name ++ Text.ofString ":" = word :=
      List.isSuffixOf_iff_suffix
    rw [show holdCode [word] = !word.endsWith (Text.ofString ":") from rfl, Bool.not_eq_true',
      ← Bool.not_eq_true, colon]
    constructor
    · intro plain
      exact ⟨List.cons_ne_nil _ _, fun name eq => plain ⟨name, (List.head_eq_of_cons_eq eq).symm⟩⟩
    · rintro ⟨_, plain⟩ ⟨name, rfl⟩
      exact plain name rfl
  | _ :: _ :: _ => simp [holdCode]

/-- What remains of a line under its number. -/
def remark (n : Nat) (line : Text) : Remark := ⟨n, holdCode (words line), comment line⟩

theorem remarksFrom_cons (n : Nat) (line : Text) (rest : List Text) [Decidable (IsPragma line)] :
    remarksFrom n (line :: rest) =
      if IsPragma line then remarksFrom (n + 1) rest
      else remark n line :: remarksFrom (n + 1) rest := by
  have same : line.trim.startsWith pragmaMark = true ↔ IsPragma line := List.isPrefixOf_iff_prefix
  simp only [remarksFrom, same]
  rfl

theorem mem_remarksFrom {r : Remark} (lines : List Text) : ∀ {n : Nat}, r ∈ remarksFrom n lines ↔
    ∃ i line, lines[i]? = some line ∧ ¬ IsPragma line ∧ r = remark (n + i) line := by
  classical
  induction lines with
  | nil => simp [remarksFrom]
  | cons line rest ih =>
    intro n
    have later : (∃ i other, (line :: rest)[i]? = some other ∧ ¬ IsPragma other ∧
        r = remark (n + i) other) ↔ (¬ IsPragma line ∧ r = remark n line) ∨
          ∃ i other, rest[i]? = some other ∧ ¬ IsPragma other ∧ r = remark (n + 1 + i) other := by
      constructor
      · rintro ⟨i, other, at_i, plain, rfl⟩
        cases i with
        | zero =>
          cases at_i
          exact .inl ⟨plain, rfl⟩
        | succ i => exact .inr ⟨i, other, at_i, plain, by rw [Nat.add_right_comm, Nat.add_assoc]⟩
      · rintro (⟨plain, rfl⟩ | ⟨i, other, at_i, plain, rfl⟩)
        · exact ⟨0, line, rfl, plain, rfl⟩
        · exact ⟨i + 1, other, at_i, plain, by rw [Nat.add_right_comm, Nat.add_assoc]⟩
    rw [remarksFrom_cons, later, ← ih]
    split
    · next pragma => simp [pragma]
    · next plain => simp [plain]

/-- Remarks stand in the order of their lines. -/
theorem pairwise_remarksFrom (lines : List Text) : ∀ n,
    (remarksFrom n lines).Pairwise fun a b => a.line < b.line := by
  classical
  induction lines with
  | nil => exact fun _ => .nil
  | cons line rest ih =>
    intro n
    rw [remarksFrom_cons]
    split
    · exact ih (n + 1)
    · refine List.pairwise_cons.mpr ⟨fun r mem => ?_, ih (n + 1)⟩
      obtain ⟨i, other, _, _, rfl⟩ := (mem_remarksFrom rest).mp mem
      exact Nat.lt_of_lt_of_le (Nat.lt_succ_self n) (Nat.le_add_right _ _)

/-! ## Scopes -/

/-- **Each suppressing comment gives one scope**, by what stands before and behind it. -/
theorem mem_scopesFrom {s : Scope} (rs : List Remark) : ∀ {afterCode : Bool},
    s ∈ scopesFrom afterCode rs ↔ ∃ before r rest detectors, rs = before ++ r :: rest ∧
      detectorsOf? r.comment = some detectors ∧
      s = scope (afterCode || before.any (·.hasCode)) detectors r rest := by
  induction rs with
  | nil => simp [scopesFrom]
  | cons first rs ih =>
    intro afterCode
    rw [scopesFrom, List.mem_append, ih]
    constructor
    · rintro (mem | ⟨before, r, rest, detectors, rfl, accepted, rfl⟩)
      · obtain ⟨detectors, accepted, rfl⟩ := by simpa using mem
        exact ⟨[], first, rs, detectors, rfl, accepted, by simp⟩
      · exact ⟨first :: before, r, rest, detectors, rfl, accepted, by simp [Bool.or_assoc]⟩
    · rintro ⟨before, r, rest, detectors, eq, accepted, rfl⟩
      cases before with
      | nil =>
        cases eq
        exact .inl (by simp [accepted])
      | cons _ before =>
        cases eq
        exact .inr ⟨before, r, rest, detectors, rfl, accepted, by simp [Bool.or_assoc]⟩

/-- The lines of remarks that hold code. -/
def MarksCode (rs : List Remark) (k : Nat) : Prop := ∃ r ∈ rs, r.line = k ∧ r.hasCode = true

theorem marksCode_append {before rest : List Remark} {r : Remark} {j : Nat} :
    MarksCode (before ++ r :: rest) j ↔
      MarksCode before j ∨ (r.line = j ∧ r.hasCode = true) ∨ MarksCode rest j := by
  simp only [MarksCode, List.mem_append, List.mem_cons, or_and_right, exists_or, exists_eq_left]

section Split

variable {before rest : List Remark} {r : Remark}
  (ascending : (before ++ r :: rest).Pairwise fun a b => a.line < b.line)

include ascending

theorem lines_apart : (∀ a ∈ before, a.line < r.line) ∧ ∀ a ∈ rest, r.line < a.line := by
  obtain ⟨_, behind, between⟩ := List.pairwise_append.mp ascending
  exact ⟨fun a mem => between a mem r List.mem_cons_self, (List.pairwise_cons.mp behind).1⟩

theorem marksCode_line : MarksCode (before ++ r :: rest) r.line ↔ r.hasCode = true := by
  obtain ⟨less, more⟩ := lines_apart ascending
  rw [marksCode_append]
  constructor
  · rintro (⟨a, mem, eq, _⟩ | ⟨_, code⟩ | ⟨a, mem, eq, _⟩)
    · exact absurd eq (less a mem).ne
    · exact code
    · exact absurd eq (more a mem).ne'
  · exact fun code => .inr (.inl ⟨rfl, code⟩)

theorem marksCode_before {j : Nat} (lt : j < r.line) :
    MarksCode (before ++ r :: rest) j ↔ MarksCode before j := by
  obtain ⟨_, more⟩ := lines_apart ascending
  rw [marksCode_append]
  constructor
  · rintro (front | ⟨rfl, _⟩ | ⟨a, mem, rfl, _⟩)
    · exact front
    · exact absurd lt (Nat.lt_irrefl _)
    · exact absurd lt (more a mem).not_gt
  · exact .inl

theorem marksCode_behind {j : Nat} (lt : r.line < j) :
    MarksCode (before ++ r :: rest) j ↔ MarksCode rest j := by
  obtain ⟨less, _⟩ := lines_apart ascending
  rw [marksCode_append]
  constructor
  · rintro (⟨a, mem, rfl, _⟩ | ⟨rfl, _⟩ | back)
    · exact absurd lt (less a mem).not_gt
    · exact absurd lt (Nat.lt_irrefl _)
    · exact back
  · exact fun back => .inr (.inr back)

/-- Code stands before a line when a remark in front of it has some. -/
theorem exists_marksCode_before : (∃ j < r.line, MarksCode (before ++ r :: rest) j) ↔
    before.any (·.hasCode) = true := by
  obtain ⟨less, _⟩ := lines_apart ascending
  rw [List.any_eq_true]
  constructor
  · rintro ⟨j, lt, code⟩
    obtain ⟨a, mem, _, code⟩ := (marksCode_before ascending lt).mp code
    exact ⟨a, mem, code⟩
  · rintro ⟨a, mem, code⟩
    have lt := less a mem
    exact ⟨a.line, lt, (marksCode_before ascending lt).mpr ⟨a, mem, rfl, code⟩⟩

/-- The next remark with code is on the next line with code. -/
theorem endsAt_nextCode :
    EndsAt (MarksCode (before ++ r :: rest)) r.line ((nextCode? rest).getD r.line) := by
  cases found : rest.find? (·.hasCode) with
  | none =>
    rw [nextCode?, found]
    refine .same fun j lt code => ?_
    obtain ⟨a, mem, _, code⟩ := (marksCode_behind ascending lt).mp code
    exact List.find?_eq_none.mp found a mem code
  | some next =>
    rw [nextCode?, found]
    obtain ⟨code, front, back, rfl, none⟩ := List.find?_eq_some_iff_append.mp found
    have lt := (lines_apart ascending).2 next (by simp)
    refine .next lt ((marksCode_behind ascending lt).mpr ⟨next, by simp, rfl, code⟩) ?_
    intro j beyond short again
    obtain ⟨a, mem, rfl, coded⟩ := (marksCode_behind ascending beyond).mp again
    have ascending' : (front ++ next :: back).Pairwise fun a b => a.line < b.line :=
      (List.pairwise_cons.mp (List.pairwise_append.mp ascending).2.1).2
    -- Of the remarks behind the comment, those up to the first with code have none.
    rcases List.mem_append.mp mem with mem | mem
    · exact absurd coded (by simpa using none a mem)
    · rcases List.mem_cons.mp mem with rfl | mem
      · exact Nat.lt_irrefl _ short
      · exact short.not_gt ((lines_apart ascending').2 a mem)

end Split

/-- A comment ends at one line. -/
theorem EndsAt.unique {code : Nat → Prop} {k m m' : Nat} (h : EndsAt code k m)
    (h' : EndsAt code k m') : m = m' := by
  cases h with
  | next lt here none =>
    cases h' with
    | next lt' here' none' =>
      rcases Nat.lt_trichotomy m m' with less | eq | more
      · exact absurd here (none' m lt less)
      · exact eq
      · exact absurd here' (none m' lt' more)
    | same none' => exact absurd here (none' m lt)
  | same none =>
    cases h' with
    | next lt' here' _ => exact absurd here' (none m' lt')
    | same _ => rfl

/-- **A scope covers the lines that its comment covers**, for the detectors that it names. -/
theorem covers_scope {before rest : List Remark} {r : Remark}
    (ascending : (before ++ r :: rest).Pairwise fun a b => a.line < b.line) {n : Nat}
    (positive : 1 ≤ n) (detectors : List Text) (d : Text) :
    (scope (before.any (·.hasCode)) detectors r rest).covers n d = true ↔
      Covers (MarksCode (before ++ r :: rest)) r.line n ∧ (detectors = [] ∨ d ∈ detectors) := by
  have here := marksCode_line ascending
  have earlier := exists_marksCode_before ascending
  have ends := endsAt_nextCode ascending
  have lines (first : Nat) (last : Option Nat) : (Scope.mk detectors first last).covers n d = true ↔
      (first ≤ n ∧ ∀ m ∈ last, n ≤ m) ∧ (detectors = [] ∨ d ∈ detectors) := by
    cases last <;> simp [Scope.covers]
  rw [scope]
  split
  · next code =>
    rw [lines]
    refine and_congr_left fun _ => ⟨fun ⟨least, most⟩ => ?_, fun covers => ?_⟩
    · rw [Nat.le_antisymm (most _ rfl) least]
      exact .own (here.mpr code)
    · cases covers with
      | own _ => simp
      | whole plain _ => exact absurd (here.mpr code) plain
      | onward plain _ _ _ _ _ => exact absurd (here.mpr code) plain
  · next plain =>
    split
    · next first =>
      rw [lines]
      refine and_congr_left fun _ => ⟨fun _ => ?_, fun _ => ⟨positive, nofun⟩⟩
      refine .whole (fun code => plain (here.mp code)) fun j lt code => ?_
      simp [earlier.mp ⟨j, lt, code⟩] at first
    · next later =>
      rw [lines]
      refine and_congr_left fun _ => ⟨fun ⟨least, most⟩ => ?_, fun covers => ?_⟩
      · obtain ⟨j, lt, code⟩ := earlier.mpr (by simpa using later)
        exact .onward (fun code => plain (here.mp code)) lt code ends least (most _ rfl)
      · cases covers with
        | own code => exact absurd (here.mp code) plain
        | whole _ none =>
          obtain ⟨j, lt, code⟩ := earlier.mpr (by simpa using later)
          exact absurd code (none j lt)
        | onward _ _ _ ends' least most =>
          rw [ends.unique ends']
          exact ⟨least, by simpa using most⟩

/-! ## Programs -/

variable {source : Text}

theorem mem_remarks {r : Remark} : r ∈ remarksFrom 1 source.lines ↔
    ∃ line, LineAt source r.line line ∧ r = remark r.line line := by
  rw [mem_remarksFrom]
  constructor
  · rintro ⟨i, line, at_i, plain, rfl⟩
    exact ⟨line, ⟨i, Nat.add_comm 1 i, at_i, plain⟩, rfl⟩
  · rintro ⟨line, ⟨i, number, at_i, plain⟩, eq⟩
    exact ⟨i, line, at_i, plain, by rw [Nat.add_comm, ← number, ← eq]⟩

/-- The remarks that have code are those on the lines that hold an instruction. -/
theorem marksCode_eq : MarksCode (remarksFrom 1 source.lines) = CodeAt source := by
  funext k
  apply propext
  constructor
  · rintro ⟨r, mem, rfl, code⟩
    obtain ⟨line, here, eq⟩ := mem_remarks.mp mem
    rw [eq] at code
    exact ⟨line, here, (holdCode_iff line).mp code⟩
  · rintro ⟨line, here, code⟩
    exact ⟨remark k line, mem_remarks.mpr ⟨line, here, rfl⟩, rfl, (holdCode_iff line).mpr code⟩

theorem covers_iff {n : Nat} (positive : 1 ≤ n) (d : Text) : (ofSource source).covers n d = true ↔
    ∃ k, Asks source k d ∧ Covers (CodeAt source) k n := by
  have ascending := pairwise_remarksFrom source.lines 1
  rw [← marksCode_eq]
  simp only [covers, ofSource, List.any_eq_true, mem_scopesFrom, Bool.false_or]
  constructor
  · rintro ⟨_, ⟨before, r, rest, detectors, split, accepted, rfl⟩, covered⟩
    obtain ⟨line, here, eq⟩ := mem_remarks.mp (split ▸ List.mem_append_right before List.mem_cons_self)
    rw [split] at ascending ⊢
    obtain ⟨covers, named⟩ := (covers_scope ascending positive detectors d).mp covered
    rw [eq] at accepted
    exact ⟨r.line, ⟨line, detectors, here, accepted, named⟩, covers⟩
  · rintro ⟨k, ⟨line, detectors, here, accepted, named⟩, covers⟩
    obtain ⟨before, rest, split⟩ :=
      List.append_of_mem (mem_remarks.mpr ⟨line, here, rfl⟩ : remark k line ∈ _)
    rw [split] at ascending covers
    exact ⟨_, ⟨before, remark k line, rest, detectors, split, accepted, rfl⟩,
      (covers_scope ascending positive detectors d).mpr ⟨covers, named⟩⟩

theorem mem_anchors {f : Finding} {n : Nat} : n ∈ f.anchors ↔ StartsAt f n := by
  simp [Finding.anchors, StartsAt]

theorem not_suppresses_iff (s : Suppression) (f : Finding) :
    (!s.suppresses f) = true ↔ s.Retains f := by
  have none : f.anchors = [] ↔ ∀ n, ¬ StartsAt f n := by
    simp only [List.eq_nil_iff_forall_not_mem, mem_anchors]
  have some : (f.anchors.all fun line => s.covers line f.detector) = false ↔
      ∃ n, StartsAt f n ∧ s.covers n f.detector = false := by
    simp only [List.all_eq_false, Bool.not_eq_true, mem_anchors]
  rw [suppresses, Bool.not_and, Bool.or_eq_true, Bool.not_not, List.isEmpty_iff, none,
    Bool.not_eq_true', some]
  rfl

/-- **Suppression is what the comments of a program ask for.** A line is suppressed for a detector
when a comment that names the detector, or none, covers it: its own line if an instruction stands
there, every line if no instruction stands before it, and otherwise the lines up to the next
instruction. The findings that stay are those that start at no line or at one that is not
suppressed, in their order. -/
theorem follows_comments (source : Text) [DecidablePred (ofSource source).Retains] :
    (∀ n d, 1 ≤ n → ((ofSource source).covers n d = true ↔
      ∃ k, Asks source k d ∧ Covers (CodeAt source) k n)) ∧
    ∀ fs : List Finding, (ofSource source).filter fs = fs.filter (ofSource source).Retains := by
  refine ⟨fun n d positive => covers_iff positive d, fun fs => ?_⟩
  refine List.filter_congr fun f _ => ?_
  rw [Bool.eq_iff_iff, not_suppresses_iff, decide_eq_true_eq]

/-- A comment of its own behind the first instruction covers the label behind it and the next
instruction, and not what follows that. -/
theorem follows_comments_onward : let source := Text.ofString "int 1\n//nolint\nx:\nerr\nerr"
    (∃ k, Asks source k (Text.ofString "dead-code") ∧ Covers (CodeAt source) k 4) ∧
    ¬ ∃ k, Asks source k (Text.ofString "dead-code") ∧ Covers (CodeAt source) k 5 := by
  classical
  intro source
  obtain ⟨covers, _⟩ := follows_comments source
  rw [← covers 4 _ (by decide), ← covers 5 _ (by decide)]
  decide +kernel

/-! ## Code and instructions -/

/-- The numbers of the lines with code, in ascending order. -/
def codeLines (source : Text) : List Nat :=
  ((remarksFrom 1 source.lines).filter (·.hasCode)).map (·.line)

/-- A line of code holds an instruction in the one sense when it does in the other. -/
theorem holdsCode_iff {line : Text} {e : LineEntry} (plain : ¬ IsPragma line) (reads : Reads line e) :
    HoldsCode line ↔ e.instruction.isSome = true := by
  cases reads with
  | idle none => simp [HoldsCode, none]
  | hint pragma _ _ => exact absurd pragma plain
  | version pragma _ _ => exact absurd pragma plain
  | code _ labelled spells =>
    generalize eq : words line = ws at labelled
    rw [HoldsCode, eq]
    cases labelled with
    | label _ =>
      cases spells with
      | nothing => simp
      | operation _ _ => simp
    | bare _ =>
      cases spells with
      | nothing => simp
      | operation found _ =>
        -- A word that is not a label but ends in a colon is the colon alone, which is no operation.
        obtain ⟨known, named⟩ := Opcode.eq_of_find? found
        refine iff_of_true ⟨List.cons_ne_nil _ _, fun label alone => ?_⟩ rfl
        exact (Opcode.isName known).ne_label label (named.trans (List.head_eq_of_cons_eq alone))

theorem instruction_of_pragma {line : Text} {e : LineEntry} (pragma : IsPragma line)
    (reads : Reads line e) : e.instruction = none := by
  cases reads with
  | idle _ => rfl
  | hint _ _ _ => rfl
  | version _ _ _ => rfl
  | code plain _ _ => exact absurd pragma plain

theorem codeLines_remarksFrom {lines : List Text} {entries : List LineEntry}
    (reads : List.Forall₂ Reads lines entries) : ∀ n : Nat,
    ((remarksFrom n lines).filter (·.hasCode)).map (·.line) = ((entries.zipIdx n).filterMap fun e =>
      e.1.instruction.map (Instruction.ofOperation e.2)).map (·.line) := by
  classical
  induction reads with
  | nil => exact fun _ => rfl
  | @cons line e lines entries head _ ih =>
    intro n
    rw [remarksFrom_cons, List.zipIdx_cons, List.filterMap_cons]
    by_cases pragma : IsPragma line
    · rw [if_pos pragma, instruction_of_pragma pragma head]
      exact ih (n + 1)
    · have code : (remark n line).hasCode = true ↔ e.instruction.isSome = true :=
        (holdCode_iff line).trans (holdsCode_iff pragma head)
      rw [if_neg pragma, List.filter_cons]
      cases instruction : e.instruction with
      | none =>
        rw [instruction] at code
        rw [if_neg (fun yes => nomatch code.mp yes)]
        exact ih (n + 1)
      | some operation =>
        rw [instruction] at code
        rw [if_pos (code.mpr rfl), List.map_cons, ih (n + 1)]
        rfl

/-- **Comments and instructions agree on the lines with code**: of a program that is read, the lines
that count as code for suppression are those of the instructions, one for one and in order. -/
theorem codeLines_eq {file source : Text} {l : Listing} (h : Listing.parse file source = .ok l) :
    codeLines source = l.instructions.map (·.line) := by
  obtain ⟨_, entries, reads, rfl⟩ := Listing.wellFormed_of_parse h
  rw [Listing.instructions_extendAll, codeLines, codeLines_remarksFrom reads]
  rfl

/-- Of a pragma, a comment, an instruction behind its label, an empty line, a label alone and an
instruction with a comment, the lines of the two instructions count. -/
theorem codeLines_eq_labelled :
    codeLines (Text.ofString "#pragma version 8\n//nolint\na: bz b\n\nb:\nb a // c") = [3, 6] := by
  have ok : Listing.parse (Text.ofString "a.teal")
      (Text.ofString "#pragma version 8\n//nolint\na: bz b\n\nb:\nb a // c") =
        .ok ⟨[⟨Text.ofString "bz", .conditional, [Text.ofString "b"], 3⟩,
          ⟨Text.ofString "b", .branch, [Text.ofString "a"], 6⟩],
          [(Text.ofString "a", 0), (Text.ofString "b", 1)], 8⟩ := by decide +kernel
  exact codeLines_eq ok

end Suppression

end TealAudit
