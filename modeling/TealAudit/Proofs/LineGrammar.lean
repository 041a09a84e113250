import Mathlib.Data.List.Induction
import Mathlib.Data.Nat.Digits.Defs
import TealAudit.Listing
import TealAudit.Proofs.Scanning

/-!
# The grammar of a line

What a line of a program may be, stated as a grammar over its words, and what may be wrong with it,
stated as a list of violations. Both are relations that say nothing of how a line is read:

* `SourceLine.Reads line entry` holds when the line is well formed and adds `entry` to a listing;
* `SourceLine.Violates taken line fault` holds when it is not, or when it defines a label that is
  `taken`, and `fault` is what is reported. The rules exclude each other, so they also fix which of
  several mistakes counts: a label that is taken before a wrong instruction, an unknown operation
  before a wrong number of operands.

**The law** is that reading a line onto a listing does one of the two (`reads_or_violates`) and that
its outcome is the one the relation names (`Reads.add_eq`, `Violates.add_eq`).
-/

namespace TealAudit

/-! ## What a line holds -/

/-- **What a line adds to a listing**: a label, an operation with its operands, a version. -/
structure LineEntry where
  label : Option Text := none
  instruction : Option (Opcode × List Text) := none
  version : Option Nat := none
deriving DecidableEq, Repr

/-- The instruction that an operation with operands makes on the line `n`. -/
def Instruction.ofOperation (n : Nat) (operation : Opcode × List Text) : Instruction :=
  ⟨operation.1.name, operation.1.flow, operation.2, n⟩

/-- A listing with an entry of line `n` added. A label points behind the instructions so far. -/
def Listing.extend (l : Listing) (n : Nat) (e : LineEntry) : Listing where
  instructions := l.instructions ++ (e.instruction.map (Instruction.ofOperation n)).toList
  labels := l.labels ++ (e.label.map (·, l.instructions.length)).toList
  version := e.version.getD l.version

/-- Whether a number of operands is within the bounds. -/
def Arity.Admits (a : Arity) (n : Nat) : Prop := a.least ≤ n ∧ ∀ m ∈ a.most, n ≤ m

theorem Arity.accepts_iff {a : Arity} {n : Nat} : a.accepts n = true ↔ a.Admits n := by
  unfold Arity.accepts Arity.Admits
  cases a.most <;> simp

namespace SourceLine

/-- The words of a line, without the white space at its ends. -/
def words (line : Text) : List Text := (Fields.split line.trim).words

/-- Whether a line is a pragma. -/
def IsPragma (line : Text) : Prop := pragmaMark <+: line.trim

/-- The number that decimal digits write, the last one counting once. -/
def decimal (digits : Text) : Nat := Nat.ofDigits 10 (digits.reverse.map fun b => b.toNat - 48)

/-- Whether a word is a version: decimal digits of a number below `2 ^ 64`. -/
def IsVersion (value : Text) : Prop :=
  value ≠ [] ∧ (∀ b ∈ value, Text.isDigit b = true) ∧ decimal value < 2 ^ 64

/-- **The label in front of words**: the first word less its colon, if a colon ends it and is not
all of it. The words behind the label are the body. -/
inductive Labelled : List Text → Option Text → List Text → Prop
  | label {name : Text} {body : List Text} : name ≠ [] →
      Labelled ((name ++ Text.ofString ":") :: body) (some name) body
  | bare {body : List Text} : (∀ name ≠ [], body.head? ≠ some (name ++ Text.ofString ":")) →
      Labelled body none body

/-- **The instruction that words spell**: a known operation with as many operands as it takes, or
nothing. -/
inductive Spells : List Text → Option (Opcode × List Text) → Prop
  | nothing : Spells [] none
  | operation {name : Text} {op : Opcode} {operands : List Text} : Opcode.find? name = some op →
      op.arity.Admits operands.length → Spells (name :: operands) (some (op, operands))

/-- **A well-formed line and its entry.** -/
inductive Reads (line : Text) : LineEntry → Prop
  /-- Nothing, or a comment only. -/
  | idle : words line = [] → Reads line {}
  /-- A pragma that is a hint to the assembler. -/
  | hint {mark name : Text} {rest : List Text} : IsPragma line → words line = mark :: name :: rest →
      name ≠ Text.ofString "version" → Reads line {}
  /-- A version pragma. -/
  | version {mark value : Text} : IsPragma line →
      words line = [mark, Text.ofString "version", value] → IsVersion value →
      Reads line { version := some (decimal value) }
  /-- A label, an instruction, or both. -/
  | code {label : Option Text} {body : List Text} {instruction : Option (Opcode × List Text)} :
      ¬ IsPragma line → Labelled (words line) label body → Spells body instruction →
      Reads line { label, instruction }

/-- Whether a line defines a label; its instruction need not be right. -/
def Defines (line label : Text) : Prop :=
  ¬ IsPragma line ∧ ∃ body, Labelled (words line) (some label) body

/-- The flows whose one operand is a label: a wrong number of operands is a missing label there. -/
def needsLabel : List Flow := [.branch, .conditional, .call]

/-- **What is wrong with a line** when the labels `taken` are defined before it. -/
inductive Violates (taken : Text → Prop) (line : Text) : Fault → Prop
  | noName : IsPragma line → (words line).length < 2 →
      Violates taken line (.invalidPragma .noName)
  | noSingleValue {mark : Text} {values : List Text} : IsPragma line →
      words line = mark :: Text.ofString "version" :: values → values.length ≠ 1 →
      Violates taken line (.invalidPragma .noSingleValue)
  | badVersion {mark value : Text} : IsPragma line →
      words line = [mark, Text.ofString "version", value] → ¬ IsVersion value →
      Violates taken line (.invalidPragma (.badVersion value))
  | duplicateLabel {label : Text} : Defines line label → taken label →
      Violates taken line (.duplicateLabel label)
  | unknownOpcode {label : Option Text} {name : Text} {operands : List Text} : ¬ IsPragma line →
      Labelled (words line) label (name :: operands) → (∀ x ∈ label, ¬ taken x) →
      Opcode.find? name = none → Violates taken line (.unknownOpcode name)
  | missingLabel {label : Option Text} {name : Text} {operands : List Text} {op : Opcode} :
      ¬ IsPragma line → Labelled (words line) label (name :: operands) → (∀ x ∈ label, ¬ taken x) →
      Opcode.find? name = some op → ¬ op.arity.Admits operands.length → op.flow ∈ needsLabel →
      Violates taken line (.missingLabel op.name)
  | operandCount {label : Option Text} {name : Text} {operands : List Text} {op : Opcode} :
      ¬ IsPragma line → Labelled (words line) label (name :: operands) → (∀ x ∈ label, ¬ taken x) →
      Opcode.find? name = some op → ¬ op.arity.Admits operands.length → op.flow ∉ needsLabel →
      Violates taken line (.operandCount op operands.length)

end SourceLine

/-! ## Operations -/

namespace Opcode

theorem eq_of_find? {name : Text} {op : Opcode} (h : find? name = some op) :
    op ∈ table ∧ op.name = name :=
  ⟨List.mem_of_find?_eq_some h, by simpa using List.find?_some h⟩

/-- What the name of an operation is like: visible characters, of which the first starts no pragma
and the last ends no label. -/
structure IsName (name : Text) : Prop where
  nonempty : name ≠ []
  visible : ∀ b ∈ name, Text.IsVisible b
  noMark : name.head? ≠ some (Text.byte '#')
  noColon : ¬ Text.ofString ":" <:+ name

theorem isName {op : Opcode} (mem : op ∈ table) : IsName op.name := by
  -- The names are evaluated once, for all that is asked of them.
  have all : ∀ op ∈ table, op.name ≠ [] ∧ (op.name.all fun b => Text.IsVisible b) = true ∧
      op.name.head? ≠ some (Text.byte '#') ∧ ¬ Text.ofString ":" <:+ op.name := by decide +kernel
  obtain ⟨nonempty, visible, noMark, noColon⟩ := all op mem
  refine ⟨nonempty, fun b inside => ?_, noMark, noColon⟩
  exact of_decide_eq_true (List.all_eq_true.mp visible b inside)

theorem IsName.ne_label {name : Text} (h : IsName name) (label : Text) :
    name ≠ label ++ Text.ofString ":" := by
  rintro rfl
  exact h.noColon (List.suffix_append _ _)

end Opcode

/-! ## Words -/

namespace SourceLine

theorem commentMark_eq : commentMark = [Text.byte '/', Text.byte '/'] := by decide

theorem pragmaMark_eq : pragmaMark = Text.byte '#' :: Text.ofString "pragma" := by decide

/-- A comment has no words. -/
theorem words_of_comment {text : Text} (h : commentMark <+: text) :
    (Fields.split text).words = [] := by
  obtain ⟨rest, rfl⟩ := h
  rfl

theorem words_of_pragma {line : Text} (h : IsPragma line) : words line ≠ [] := by
  obtain ⟨rest, eq⟩ := h
  have first (text : Text) : Fields.scan false false [] (Text.byte '#' :: text) =
      Fields.scan false false [Text.byte '#'] text := rfl
  rw [words, ← eq, pragmaMark_eq, List.cons_append, Fields.split, first]
  have begun : (⟨false, false, [Text.byte '#']⟩ : Fields.State).taken ≠ [] := List.cons_ne_nil _ _
  obtain ⟨more, rest, -, fields⟩ := Fields.State.exists_first_word begun (Text.ofString "pragma" ++ rest)
  exact fields.trans_ne (List.cons_ne_nil _ _)

/-- A pragma is neither blank nor a comment. -/
theorem not_comment_of_pragma {text : Text} (h : pragmaMark <+: text) : ¬ commentMark <+: text := by
  obtain ⟨rest, rfl⟩ := h
  rw [pragmaMark_eq, commentMark_eq, List.cons_append, List.cons_prefix_cons]
  exact fun ⟨eq, _⟩ => absurd eq (by decide)

/-- **A line is read by its words**, those of a pragma and those of code in their own ways. -/
theorem read_eq (line : Text) [Decidable (IsPragma line)] :
    read line = if IsPragma line then ofPragma (words line) else .ok (ofWords (words line)) := by
  simp only [read]
  by_cases pragma : IsPragma line
  · have nonempty : line.trim ≠ [] := by
      intro nil
      have mark : pragmaMark <+: line.trim := pragma
      rw [nil, pragmaMark_eq] at mark
      exact absurd (List.prefix_nil.mp mark) (List.cons_ne_nil _ _)
    have comment := not_comment_of_pragma pragma
    rw [if_pos pragma, if_neg, if_pos]
    · rfl
    · exact List.isPrefixOf_iff_prefix.mpr pragma
    · simpa [Text.startsWith, nonempty] using comment
  · rw [if_neg pragma]
    split
    · next quiet =>
      have none : words line = [] := by
        rcases Bool.or_eq_true_iff.mp quiet with nil | comment
        · rw [words, List.isEmpty_iff.mp nil]
          rfl
        · exact words_of_comment (List.isPrefixOf_iff_prefix.mp comment)
      rw [none, ofWords]
    · rw [if_neg]
      · rfl
      · exact fun mark => pragma (List.isPrefixOf_iff_prefix.mp mark)

/-! ## Labels, instructions and versions -/

theorem ofString_colon : Text.ofString ":" = [Text.byte ':'] := by decide

theorem labelOf?_eq_some_iff {word name : Text} :
    labelOf? word = some name ↔ name ≠ [] ∧ word = name ++ Text.ofString ":" := by
  have ends : word.endsWith (Text.ofString ":") = true ↔
      ∃ front, front ++ [Text.byte ':'] = word := by
    rw [Text.endsWith, ofString_colon, List.isSuffixOf_iff_suffix]
    rfl
  unfold labelOf?
  rw [ofString_colon]
  constructor
  · intro h
    split at h
    · next both =>
      obtain ⟨long, colon⟩ := Bool.and_eq_true_iff.mp both
      obtain ⟨front, rfl⟩ := ends.mp (ofString_colon ▸ colon)
      cases h
      rw [List.dropLast_concat]
      refine ⟨?_, rfl⟩
      rintro rfl
      simp at long
    · cases h
  · rintro ⟨nonempty, rfl⟩
    have long : 2 ≤ (name ++ [Text.byte ':']).length := by
      have := List.length_pos_iff.mpr nonempty
      simp only [List.length_append, List.length_singleton]
      omega
    rw [if_pos, List.dropLast_concat]
    exact Bool.and_eq_true_iff.mpr ⟨decide_eq_true long, ofString_colon ▸ ends.mpr ⟨name, rfl⟩⟩

/-- Words have one label and one body. -/
theorem Labelled.unique {ws body body' : List Text} {label label' : Option Text}
    (h : Labelled ws label body) (h' : Labelled ws label' body') : label = label' ∧ body = body' := by
  cases h with
  | label nonempty =>
    generalize eq : (_ :: body : List Text) = ws at h'
    cases h' with
    | label nonempty' =>
      obtain ⟨word, rfl⟩ := List.cons.inj eq
      exact ⟨congrArg some (List.append_cancel_right word), rfl⟩
    | bare plain => exact absurd (by rw [← eq]; rfl) (plain _ nonempty)
  | bare plain =>
    cases h' with
    | label nonempty => exact absurd rfl (plain _ nonempty)
    | bare _ => exact ⟨rfl, rfl⟩

theorem exists_labelled (ws : List Text) : ∃ label body, Labelled ws label body := by
  by_cases h : ∃ name ≠ [], ws.head? = some (name ++ Text.ofString ":")
  · obtain ⟨name, nonempty, head⟩ := h
    obtain ⟨body, rfl⟩ := List.head?_eq_some_iff.mp head
    exact ⟨some name, body, .label nonempty⟩
  · refine ⟨none, ws, .bare fun name nonempty head => h ⟨name, nonempty, head⟩⟩

/-- Code adds to a listing what its label and its body add. -/
theorem add_ofWords (l : Listing) (n : Nat) {ws body : List Text} {label : Option Text}
    (h : Labelled ws label body) : l.add n (ofWords ws) = l.add n (.code label body) := by
  cases h with
  | label nonempty => rw [ofWords, labelOf?_eq_some_iff.mpr ⟨nonempty, rfl⟩]
  | bare plain =>
    cases ws with
    | nil => rfl
    | cons word rest =>
      have unlabelled : labelOf? word = none := by
        by_contra label
        obtain ⟨name, eq⟩ := Option.ne_none_iff_exists'.mp label
        obtain ⟨nonempty, rfl⟩ := labelOf?_eq_some_iff.mp eq
        exact plain name nonempty rfl
      rw [ofWords, unlabelled]

theorem foldl_digits (digits : Text) :
    digits.foldl (fun n b => n * 10 + (b.toNat - 48)) 0 = decimal digits := by
  induction digits using List.reverseRecOn with
  | nil => rfl
  | append_singleton front b ih =>
    rw [List.foldl_append, ih, decimal, decimal, List.reverse_append]
    simp only [List.foldl_cons, List.foldl_nil, List.reverse_cons, List.reverse_nil, List.nil_append,
      List.cons_append, List.map_cons, Nat.ofDigits_cons]
    omega

theorem toNat?_of_digits {value : Text} (nonempty : value ≠ [])
    (digits : ∀ b ∈ value, Text.isDigit b = true) : Text.toNat? value = some (decimal value) := by
  have all : value.all Text.isDigit = true := List.all_eq_true.mpr digits
  rw [Text.toNat?, if_neg (by simp [nonempty, all]), foldl_digits]

theorem toNat?_eq_none {value : Text}
    (h : ¬ (value ≠ [] ∧ ∀ b ∈ value, Text.isDigit b = true)) : Text.toNat? value = none := by
  rw [Text.toNat?, if_pos]
  by_cases nil : value = []
  · simp [nil]
  · have digits : ¬ ∀ b ∈ value, Text.isDigit b = true := fun digits => h ⟨nil, digits⟩
    rw [← List.all_eq_true, Bool.not_eq_true] at digits
    simp [digits]

/-! ## Reading a line onto a listing -/

theorem Spells.ofWords?_eq {body : List Text} {instruction : Option (Opcode × List Text)}
    (h : Spells body instruction) (n : Nat) :
    Instruction.ofWords? n body = .ok (instruction.map (Instruction.ofOperation n)) := by
  cases h with
  | nothing => rfl
  | operation found within =>
    simp only [Instruction.ofWords?, found, if_pos (Arity.accepts_iff.mpr within)]
    rfl

/-- A wrong number of operands is a missing label where the operand is one. -/
theorem ofWords?_outside {name : Text} {operands : List Text} {op : Opcode}
    (found : Opcode.find? name = some op) (outside : ¬ op.arity.Admits operands.length) (n : Nat) :
    Instruction.ofWords? n (name :: operands) =
      .error (if op.flow ∈ needsLabel then .missingLabel op.name
        else .operandCount op operands.length) := by
  have refused : ¬ op.arity.accepts operands.length = true := fun h => outside (Arity.accepts_iff.mp h)
  simp only [Instruction.ofWords?, found, if_neg refused]
  cases op.flow <;> rfl

theorem ofPragma_hint {mark name : Text} (rest : List Text) (other : name ≠ Text.ofString "version") :
    ofPragma (mark :: name :: rest) = .ok .idle :=
  if_pos other

theorem ofPragma_values {mark : Text} {values : List Text} (many : values.length ≠ 1) :
    ofPragma (mark :: Text.ofString "version" :: values) = .error (.invalidPragma .noSingleValue) := by
  match values with
  | [] => rfl
  | [_] => exact absurd rfl many
  | _ :: _ :: _ => rfl

theorem ofPragma_version (mark value : Text) [Decidable (IsVersion value)] :
    ofPragma [mark, Text.ofString "version", value] =
      if IsVersion value then .ok (.version (decimal value))
      else .error (.invalidPragma (.badVersion value)) := by
  simp only [ofPragma, ne_eq, not_true_eq_false, if_false]
  by_cases digits : value ≠ [] ∧ ∀ b ∈ value, Text.isDigit b = true
  · rw [toNat?_of_digits digits.1 digits.2]
    by_cases small : decimal value < 2 ^ 64
    · rw [if_pos ⟨digits.1, digits.2, small⟩]
      exact if_pos small
    · rw [if_neg fun version => small version.2.2]
      exact if_neg small
  · rw [toNat?_eq_none digits, if_neg fun version => digits ⟨version.1, version.2.1⟩]

variable {l : Listing} {n : Nat}

/-- A label that is new is added before the instruction is looked at. -/
theorem add_code {label : Option Text} (fresh : ∀ x ∈ label, ¬ l.defines x = true)
    (body : List Text) :
    l.add n (.code label body) =
      (Instruction.ofWords? n body).map
        ({ l with labels := l.labels ++ (label.map (·, l.instructions.length)).toList }).addInstruction := by
  have added : l.addLabel label =
      .ok { l with labels := l.labels ++ (label.map (·, l.instructions.length)).toList } := by
    cases label with
    | none => simp [Listing.addLabel]
    | some x => rw [Listing.addLabel, if_neg (fresh x rfl)]; rfl
  simp only [Listing.add, added, bind, Except.bind]
  cases Instruction.ofWords? n body <;> rfl

theorem addInstruction_map (l : Listing) (label : Option Text)
    (instruction : Option (Opcode × List Text)) :
    ({ l with labels := l.labels ++ (label.map (·, l.instructions.length)).toList }).addInstruction
      (instruction.map (Instruction.ofOperation n)) = l.extend n { label, instruction } := by
  cases instruction with
  | none => simp [Listing.addInstruction, Listing.extend]
  | some operation => simp [Listing.addInstruction, Listing.extend]

theorem extend_idle (l : Listing) (n : Nat) : l.extend n {} = l := by
  simp [Listing.extend]

/-- **A well-formed line whose label is new adds its entry.** -/
theorem Reads.add_eq {line : Text} {e : LineEntry} (h : Reads line e)
    (fresh : ∀ x ∈ e.label, ¬ l.defines x = true) :
    (read line >>= l.add n) = .ok (l.extend n e) := by
  classical
  rw [read_eq]
  cases h with
  | idle none =>
    rw [if_neg fun pragma => words_of_pragma pragma none, none, extend_idle]
    rfl
  | hint pragma eq other =>
    rw [if_pos pragma, eq, ofPragma_hint _ other, extend_idle]
    rfl
  | version pragma eq version =>
    rw [if_pos pragma, eq, ofPragma_version, if_pos version]
    simp [bind, Except.bind, Listing.add, Listing.extend]
  | code plain labelled spells =>
    rw [if_neg plain]
    change l.add n _ = _
    rw [add_ofWords l n labelled, add_code fresh, spells.ofWords?_eq, Except.map, addInstruction_map]

/-- **A violation is reported.** -/
theorem Violates.add_eq {line : Text} {fault : Fault}
    (h : Violates (fun x => l.defines x = true) line fault) :
    (read line >>= l.add n) = .error fault := by
  classical
  rw [read_eq]
  cases h with
  | noName pragma short =>
    rw [if_pos pragma]
    match eq : words line with
    | [] => rfl
    | [_] => rfl
    | _ :: _ :: _ =>
      simp only [eq, List.length_cons] at short
      omega
  | noSingleValue pragma eq many =>
    rw [if_pos pragma, eq, ofPragma_values many]
    rfl
  | badVersion pragma eq wrong =>
    rw [if_pos pragma, eq, ofPragma_version, if_neg wrong]
    rfl
  | duplicateLabel defined taken =>
    obtain ⟨code, body, labelled⟩ := defined
    rw [if_neg code]
    change l.add n _ = _
    rw [add_ofWords l n labelled, Listing.add, Listing.addLabel, if_pos taken]
    rfl
  | unknownOpcode code labelled fresh unknown =>
    rw [if_neg code]
    change l.add n _ = _
    rw [add_ofWords l n labelled, add_code fresh, Instruction.ofWords?, unknown]
    rfl
  | missingLabel code labelled fresh found outside label =>
    rw [if_neg code]
    change l.add n _ = _
    rw [add_ofWords l n labelled, add_code fresh, ofWords?_outside found outside, if_pos label]
    rfl
  | operandCount code labelled fresh found outside other =>
    rw [if_neg code]
    change l.add n _ = _
    rw [add_ofWords l n labelled, add_code fresh, ofWords?_outside found outside, if_neg other]
    rfl

/-- **A line is well formed with a new label, or it violates a rule.** -/
theorem reads_or_violates (taken : Text → Prop) (line : Text) :
    (∃ e, Reads line e ∧ ∀ x ∈ e.label, ¬ taken x) ∨ ∃ fault, Violates taken line fault := by
  by_cases pragma : IsPragma line
  · match eq : words line with
    | [] => exact .inl ⟨{}, .idle eq, fun _ h => by cases h⟩
    | [_] => exact .inr ⟨_, .noName pragma (by simp [eq])⟩
    | mark :: name :: values =>
      by_cases version : name = Text.ofString "version"
      · subst version
        by_cases one : values.length = 1
        · obtain ⟨value, rfl⟩ := List.length_eq_one_iff.mp one
          by_cases good : IsVersion value
          · exact .inl ⟨_, .version pragma eq good, fun _ h => by cases h⟩
          · exact .inr ⟨_, .badVersion pragma eq good⟩
        · exact .inr ⟨_, .noSingleValue pragma eq one⟩
      · exact .inl ⟨{}, .hint pragma eq version, fun _ h => by cases h⟩
  · obtain ⟨label, body, labelled⟩ := exists_labelled (words line)
    by_cases fresh : ∀ x ∈ label, ¬ taken x
    · match body, labelled with
      | [], labelled => exact .inl ⟨_, .code pragma labelled .nothing, fresh⟩
      | name :: operands, labelled =>
        cases found : Opcode.find? name with
        | none => exact .inr ⟨_, .unknownOpcode pragma labelled fresh found⟩
        | some op =>
          by_cases within : op.arity.Admits operands.length
          · exact .inl ⟨_, .code pragma labelled (.operation found within), fresh⟩
          · by_cases label : op.flow ∈ needsLabel
            · exact .inr ⟨_, .missingLabel pragma labelled fresh found within label⟩
            · exact .inr ⟨_, .operandCount pragma labelled fresh found within label⟩
    · simp only [Option.mem_def, not_forall, not_not] at fresh
      obtain ⟨x, rfl, taken⟩ := fresh
      exact .inr ⟨_, .duplicateLabel ⟨pragma, body, labelled⟩ taken⟩

/-! ## What a line means -/

/-- The label of an entry is the label that the line defines. -/
theorem Reads.label_eq_some_iff {line : Text} {e : LineEntry} (h : Reads line e) {x : Text} :
    e.label = some x ↔ Defines line x := by
  cases h with
  | idle none =>
    refine ⟨nofun, ?_⟩
    rintro ⟨_, body, labelled⟩
    rw [none] at labelled
    cases labelled
  | hint pragma _ _ => exact ⟨nofun, fun defined => absurd pragma defined.1⟩
  | version pragma _ _ => exact ⟨nofun, fun defined => absurd pragma defined.1⟩
  | @code label body _ plain labelled _ =>
    constructor
    · rintro rfl
      exact ⟨plain, body, labelled⟩
    · rintro ⟨_, body', labelled'⟩
      exact (labelled.unique labelled').1

theorem Spells.unique {body : List Text} {i j : Option (Opcode × List Text)} (h : Spells body i)
    (h' : Spells body j) : i = j := by
  cases h with
  | nothing => cases h'; rfl
  | operation found _ =>
    cases h' with
    | operation found' _ => rw [Option.some.inj (found.symm.trans found')]

/-- A line without words adds nothing. -/
theorem Reads.eq_idle {line : Text} {e : LineEntry} (h : Reads line e) (none : words line = []) :
    e = {} := by
  cases h with
  | idle _ => rfl
  | hint _ _ _ => rfl
  | version _ eq _ => rw [none] at eq; cases eq
  | code _ labelled spells =>
    rw [none] at labelled
    cases labelled
    cases spells
    rfl

/-- **A line has one entry.** -/
theorem Reads.unique {line : Text} {e e' : LineEntry} (h : Reads line e) (h' : Reads line e') :
    e = e' := by
  cases h with
  | idle none => exact (h'.eq_idle none).symm
  | hint pragma eq other =>
    cases h' with
    | idle _ => rfl
    | hint _ _ _ => rfl
    | version _ eq' _ =>
      rw [eq] at eq'
      cases eq'
      exact absurd rfl other
    | code plain _ _ => exact absurd pragma plain
  | version pragma eq _ =>
    cases h' with
    | idle none => rw [eq] at none; cases none
    | hint _ eq' other =>
      rw [eq] at eq'
      cases eq'
      exact absurd rfl other
    | version _ eq' _ =>
      rw [eq] at eq'
      cases eq'
      rfl
    | code plain _ _ => exact absurd pragma plain
  | code plain labelled spells =>
    cases h' with
    | idle none => exact (Reads.code plain labelled spells).eq_idle none
    | hint pragma _ _ => exact absurd pragma plain
    | version pragma _ _ => exact absurd pragma plain
    | code _ labelled' spells' =>
      obtain ⟨rfl, rfl⟩ := labelled.unique labelled'
      rw [spells.unique spells']

/-- The operation of an entry is known and takes its operands. -/
theorem Reads.operation_mem {line : Text} {e : LineEntry}
    (h : Reads line e) {operation : Opcode × List Text} (mem : e.instruction = some operation) :
    operation.1 ∈ Opcode.table ∧ operation.1.arity.Admits operation.2.length := by
  cases h with
  | idle _ => cases mem
  | hint _ _ _ => cases mem
  | version _ _ _ => cases mem
  | code _ _ spells =>
    cases mem
    cases spells with
    | operation found within => exact ⟨List.mem_of_find?_eq_some found, within⟩

end SourceLine

end TealAudit
