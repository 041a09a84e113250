import TealAudit.Json
import TealAudit.Proofs.Points

/-!
# The grammar of JSON

`Json.Spelled` says when a text is a JSON value written down, by rules of the format: there may be white
space around each value, and a character may be escaped by a letter or by its number. Nothing in it
speaks of lines and of how far they are indented. The printer chooses one spelling for each value, and
`spelled_render` says that it is a spelling of the value.

A text in JSON is a sequence of characters, so bytes that are part of no character cannot be written.
They are written as replacement characters: what a reader of the text gets is the value with
`Text.legible` applied to its texts, which leaves valid ones as they are.
-/

namespace TealAudit

/-! ## Legible texts -/

namespace Text

/-- **A text with a replacement character for each byte that belongs to none.** -/
def legible (t : Text) : Text := ofChars (t.points.map Point.char)

/-- Valid texts are legible. -/
theorem legible_of_isValid {t : Text} (valid : t.isValid = true) : t.legible = t := by
  have same : ∀ p ∈ t.points, String.utf8EncodeChar p.char = p.encode := by
    intro p mem
    have kind := List.all_eq_true.mp valid p mem
    cases p with
    | scalar c => rfl
    | stray b => cases kind
  calc t.legible = t.points.flatMap fun p => String.utf8EncodeChar p.char := List.flatMap_map ..
    _ = ofPoints t.points := List.flatMap_congr same
    _ = t := ofPoints_points t

end Text

namespace Json

mutual

/-- **A value with legible texts**, names of fields included. -/
def legible : Json → Json
  | null => null
  | text t => text t.legible
  | number n => number n
  | list items => list (legibleItems items)
  | object fields => object (legibleFields fields)

/-- Items with legible texts. -/
def legibleItems : List Json → List Json
  | [] => []
  | item :: items => item.legible :: legibleItems items

/-- Fields with legible texts. -/
def legibleFields : List (Text × Json) → List (Text × Json)
  | [] => []
  | (name, value) :: fields => (name.legible, value.legible) :: legibleFields fields

end

theorem legibleItems_eq (items : List Json) : legibleItems items = items.map legible := by
  induction items with
  | nil => rfl
  | cons item items ih => rw [legibleItems, ih, List.map_cons]

theorem legibleFields_eq (fields : List (Text × Json)) :
    legibleFields fields = fields.map fun f => (f.1.legible, f.2.legible) := by
  induction fields with
  | nil => rfl
  | cons f fields ih => rw [legibleFields, ih, List.map_cons]

/-! ## The grammar -/

/-- The characters that have an escape of one letter, with that letter. -/
def shortEscapes : List (Char × Char) :=
  [('"', '"'), ('\\', '\\'), ('/', '/'), ('\x08', 'b'), ('\x0c', 'f'), ('\n', 'n'), ('\r', 'r'),
    ('\t', 't')]

/-- **A character of a text in quotes**: it stands for itself, unless it is a quote, a backslash or a
control character, or it is escaped by a letter or by its number. -/
inductive Letter (c : Char) : Text → Prop
  | plain : 0x20 ≤ c.toNat → c ≠ '"' → c ≠ '\\' → Letter c (String.utf8EncodeChar c)
  | short (letter : Char) : (c, letter) ∈ shortEscapes →
      Letter c [Text.byte '\\', Text.byte letter]
  | numbered : c.toNat < 0x10000 → Letter c (Text.ofString "\\u" ++ Text.hex 4 c.toNat)

/-- Characters one after the other. -/
inductive Letters : List Char → Text → Prop
  | nil : Letters [] []
  | cons {c : Char} {cs : List Char} {t u : Text} : Letter c t → Letters cs u →
      Letters (c :: cs) (t ++ u)

/-- Whether a text is white space between tokens. -/
def isGap (t : Text) : Bool := t.all fun b => [' ', '\t', '\n', '\r'].any fun c => b = Text.byte c

/-- **Things with commas between them**, each as `Writes` says. -/
inductive Separated {α : Type} (Writes : α → Text → Prop) : List α → Text → Prop
  | nil : Separated Writes [] []
  | one {a : α} {t : Text} : Writes a t → Separated Writes [a] t
  | cons {a : α} {as : List α} {t u : Text} : Writes a t → as ≠ [] → Separated Writes as u →
      Separated Writes (a :: as) (t ++ Text.ofString "," ++ u)

mutual

/-- **A text is a JSON value written down.** -/
inductive Spelled : Json → Text → Prop
  | null : Spelled .null (Text.ofString "null")
  | text {cs : List Char} {t : Text} : Letters cs t →
      Spelled (.text (Text.ofChars cs)) (Text.ofString "\"" ++ t ++ Text.ofString "\"")
  | number (n : Int) : Spelled (.number n) (Text.ofInt n)
  | list {items : List Json} {t : Text} : Separated Spelled items t →
      Spelled (.list items) (Text.ofString "[" ++ t ++ Text.ofString "]")
  | object {fields : List (Text × Json)} {t : Text} : Separated SpelledField fields t →
      Spelled (.object fields) (Text.ofString "\x7b" ++ t ++ Text.ofString "\x7d")
  | spaced {j : Json} {front t back : Text} : isGap front = true → Spelled j t →
      isGap back = true → Spelled j (front ++ t ++ back)

/-- A text is a field of an object written down: its name, a colon and its value. -/
inductive SpelledField : Text × Json → Text → Prop
  | field {name : Text} {value : Json} {t u : Text} : Spelled (.text name) t → Spelled value u →
      SpelledField (name, value) (t ++ Text.ofString ":" ++ u)

end

/-! ## The printer keeps to it -/

/-- The printer writes each point of a text as the character it is read as. -/
theorem letter_escape (p : Point) : Letter p.char (escape p) := by
  cases p with
  | stray b => exact .numbered (c := Char.ofNat 0xFFFD) (by decide)
  | scalar c =>
    simp only [escape, Point.char]
    split_ifs with quote backslash newline carriage tab backspace feed numbered
    · exact .short '"' (by simp [quote, shortEscapes])
    · exact .short '\\' (by simp [backslash, shortEscapes])
    · exact .short 'n' (by simp [newline, shortEscapes])
    · exact .short 'r' (by simp [carriage, shortEscapes])
    · exact .short 't' (by simp [tab, shortEscapes])
    · exact .short 'b' (by simp [backspace, shortEscapes])
    · exact .short 'f' (by simp [feed, shortEscapes])
    · refine .numbered ?_
      simp only [List.contains_cons, List.contains_nil, Bool.or_false, Bool.or_eq_true,
        decide_eq_true_eq, beq_iff_eq] at numbered
      rcases numbered with ((control | marked) | line) | paragraph
      · omega
      · rcases marked with rfl | rfl | rfl <;> decide
      · omega
      · omega
    · refine .plain ?_ quote backslash
      simp at numbered
      exact numbered.1.1.1

theorem letters_escape (ps : List Point) : Letters (ps.map Point.char) (ps.flatMap escape) := by
  induction ps with
  | nil => exact .nil
  | cons p ps ih => exact .cons (letter_escape p) ih

theorem spelled_quoted (t : Text) : Spelled (.text t.legible) (quoted t) :=
  .text (letters_escape t.points)

theorem isGap_nil : isGap [] = true := rfl

/-- The start of a line. -/
theorem isGap_newline (n : Nat) : isGap (Text.ofString "\n" ++ Text.spaces n) = true := by
  rw [isGap, List.all_append, Bool.and_eq_true]
  refine ⟨by decide, List.all_eq_true.mpr fun b mem => ?_⟩
  rw [List.eq_of_mem_replicate mem]
  decide

/-- White space around a field is white space around its name and its value. -/
theorem SpelledField.spaced {f : Text × Json} {front t back : Text} (before : isGap front = true)
    (written : SpelledField f t) (behind : isGap back = true) : SpelledField f (front ++ t ++ back) := by
  cases written with
  | field name value =>
    simpa using SpelledField.field (name.spaced before isGap_nil) (value.spaced isGap_nil behind)

/-- **Lines of their own**: things that stand one on a line, with a comma at the end of each line but
the last one, are separated by commas. -/
theorem separated_lines {α : Type} {Writes : α → Text → Prop}
    (spaced : ∀ {a front t back}, isGap front = true → Writes a t → isGap back = true →
      Writes a (front ++ t ++ back))
    (width : Nat) {back : Text} (behind : isGap back = true) {as : List α} {lines : List Text}
    (each : List.Forall₂ Writes as lines) (some : as ≠ []) :
    Separated Writes as (Text.ofString "\n" ++
      Text.join ",\n" (lines.map (Text.spaces width ++ ·)) ++ back) := by
  induction each with
  | nil => exact absurd rfl some
  | @cons a line as lines first rest ih =>
    cases rest with
    | nil =>
      have line := spaced (isGap_newline width) first behind
      simpa [Text.join] using Separated.one line
    | cons second rest =>
      have line := spaced (isGap_newline width) first isGap_nil
      have lines := ih (by simp)
      have comma : Text.ofString ",\n" = Text.ofString "," ++ Text.ofString "\n" := by decide
      simpa [Text.join, comma] using Separated.cons line (by simp) lines

/-- **Brackets**: lines that are things written down, put between brackets, are the things separated
by commas between these brackets. -/
theorem exists_enclose {α : Type} {Writes : α → Text → Prop}
    (spaced : ∀ {a front t back}, isGap front = true → Writes a t → isGap back = true →
      Writes a (front ++ t ++ back))
    (depth : Nat) (opening closing : Text) {as : List α} {lines : List Text}
    (each : List.Forall₂ Writes as lines) :
    ∃ t, Separated Writes as t ∧ enclose depth opening closing lines = opening ++ t ++ closing := by
  cases each with
  | nil => exact ⟨[], .nil, by simp [enclose]⟩
  | cons first rest =>
    refine ⟨_, separated_lines spaced (2 * depth + 2) (isGap_newline (2 * depth)) (.cons first rest)
      (by simp), ?_⟩
    simp [enclose]

mutual

/-- **The printer spells each value**, at any depth. -/
theorem spelled_renderAt (depth : Nat) : ∀ j : Json, Spelled j.legible (renderAt depth j)
  | null => .null
  | text t => spelled_quoted t
  | number n => .number n
  | list items => by
    obtain ⟨t, separated, eq⟩ := exists_enclose .spaced depth "[" "]" (spelled_itemLines depth items)
    rw [renderAt, eq]
    exact .list separated
  | object fields => by
    obtain ⟨t, separated, eq⟩ :=
      exists_enclose .spaced depth "\x7b" "\x7d" (spelled_fieldLines depth fields)
    rw [renderAt, eq]
    exact .object separated

theorem spelled_itemLines (depth : Nat) : ∀ items : List Json,
    List.Forall₂ Spelled (legibleItems items) (itemLines depth items)
  | [] => .nil
  | item :: items => .cons (spelled_renderAt (depth + 1) item) (spelled_itemLines depth items)

theorem spelled_fieldLines (depth : Nat) : ∀ fields : List (Text × Json),
    List.Forall₂ SpelledField (legibleFields fields) (fieldLines depth fields)
  | [] => .nil
  | (name, value) :: fields => by
    have behind : SpelledField (name.legible, value.legible)
        (quoted name ++ Text.ofString ": " ++ renderAt (depth + 1) value) := by
      have blank : isGap (Text.ofString " ") = true := by decide
      have value := (spelled_renderAt (depth + 1) value).spaced blank isGap_nil
      have colon : Text.ofString ": " = Text.ofString ":" ++ Text.ofString " " := by decide
      simpa [colon] using SpelledField.field (spelled_quoted name) value
    exact .cons behind (spelled_fieldLines depth fields)

end

/-- **What is printed is the value**, with legible texts. -/
theorem spelled_render (j : Json) : Spelled j.legible j.render := spelled_renderAt 0 j

end Json

end TealAudit
