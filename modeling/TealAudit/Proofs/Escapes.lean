import TealAudit.Finding.Render
import TealAudit.Proofs.Cleaning
import TealAudit.Proofs.Snippets

/-!
# Styles and escape sequences

Findings are written with their styles shown or not, and the two texts differ by escape sequences
alone. `Piece.withoutEscapes` deletes the escape sequences of all styles from a text, from its start
on. What it makes of a piece with its style shown is the piece without it, whatever stands behind, as
long as the text of the piece is **clean**: it has no byte that an escape sequence could start with
(`Piece.withoutEscapes_render`). From there it is a matter of pieces.

A finding is made of pieces, and all that stands in them beside the texts of the finding, the lines of
the source and the paths of drawings is clean: words, numbers and spaces. Expanding tabs keeps a line
clean, and so does taking its indentation away (`Finding.isClean_pieces`).
-/

namespace TealAudit

/-! ## Clean texts -/

/-- The byte that escape sequences start with. -/
def Piece.escape : UInt8 := 0x1B

namespace Text

/-- **A clean text**: one in which no escape sequence starts. -/
def IsClean (t : Text) : Prop := Piece.escape ∉ t

instance (t : Text) : Decidable t.IsClean := inferInstanceAs (Decidable (_ ∉ _))

theorem isClean_append {t u : Text} : (t ++ u).IsClean ↔ t.IsClean ∧ u.IsClean := by
  rw [IsClean, List.mem_append, not_or]
  rfl

theorem isClean_cons {b : UInt8} {t : Text} : IsClean (b :: t) ↔ b ≠ Piece.escape ∧ t.IsClean := by
  rw [IsClean, List.mem_cons, not_or]
  exact and_congr_left fun _ => ne_comm

theorem isClean_spaces (n : Nat) : (spaces n).IsClean :=
  fun mem => absurd (List.eq_of_mem_replicate mem) (by decide)

theorem isClean_ofNat (n : Nat) : (ofNat n).IsClean :=
  fun mem => absurd (isDigit_of_mem_ofNat mem) (by decide)

theorem isClean_ofInt (n : Int) : (ofInt n).IsClean := by
  cases n with
  | ofNat n => exact isClean_ofNat n
  | negSucc n => exact isClean_cons.mpr ⟨by decide, isClean_ofNat (n + 1)⟩

theorem isClean_dropStart {t : Text} (clean : t.IsClean) (p : Text) : (dropStart p t).IsClean := by
  unfold dropStart
  split
  · exact fun mem => clean (List.mem_of_mem_drop mem)
  · exact clean

/-- What stands between separators stands in the text. -/
theorem isClean_of_mem_splitOn {sep : UInt8} {t piece : Text} (clean : t.IsClean)
    (mem : piece ∈ splitOn sep t) : piece.IsClean := by
  induction t generalizing piece with
  | nil =>
    rw [List.mem_singleton.mp mem]
    exact clean
  | cons b t ih =>
    obtain ⟨here, later⟩ := isClean_cons.mp clean
    obtain ⟨first, pieces, eq⟩ := List.exists_cons_of_ne_nil (splitOn_ne_nil sep t)
    rw [splitOn, eq] at mem
    rw [eq] at ih
    split at mem
    · rcases List.mem_cons.mp mem with rfl | mem
      · exact List.not_mem_nil
      · exact ih later mem
    · rcases List.mem_cons.mp mem with rfl | mem
      · exact isClean_cons.mpr ⟨here, ih later List.mem_cons_self⟩
      · exact ih later (List.mem_cons_of_mem _ mem)

end Text

theorem Snippet.isClean_expandTabs {line : Text} (clean : line.IsClean) : (expandTabs line).IsClean :=
  not_mem_expandFrom (by decide) (by decide) clean 0

/-- A rank is shown by a name of its scale or by its number. -/
theorem Rank.isClean_text {scale : Scale} (names : ∀ name ∈ scale.names, name.IsClean)
    (title : scale.title.IsClean) (r : Rank scale) : r.text.IsClean := by
  unfold text name?
  split
  · next name eq =>
    split at eq
    · cases eq
    · exact names name (List.mem_of_getElem? eq)
  · simp only [Text.isClean_append]
    exact ⟨⟨⟨title, by decide⟩, Text.isClean_ofInt _⟩, by decide⟩

/-! ## Deleting escape sequences -/

namespace Piece

/-- **The escape sequences of a report**: those that switch a style on, and the one that switches it
off. -/
def escapes : List Text :=
  closing :: [Style.error, .warning, .info, .detector, .file, .gutter, .message, .suggestion].map opening

/-- A text without its escape sequences, after its first `skip` bytes, which belong to a sequence. -/
def withoutEscapesFrom : (skip : Nat) → Text → Text
  | _, [] => []
  | skip + 1, _ :: rest => withoutEscapesFrom skip rest
  | 0, b :: rest =>
    match escapes.find? fun e => e.isPrefixOf (b :: rest) with
    | some e => withoutEscapesFrom (e.length - 1) rest
    | none => b :: withoutEscapesFrom 0 rest

/-- **A text without its escape sequences.** -/
def withoutEscapes (t : Text) : Text := withoutEscapesFrom 0 t

theorem opening_mem_escapes (s : Style) : opening s ∈ escapes := by
  cases s <;> decide

theorem head?_of_mem_escapes : ∀ e ∈ escapes, e.head? = some escape := by
  decide

/-- No escape sequence is the start of another one. -/
theorem eq_of_isPrefix_escapes {e e' : Text} (mem : e ∈ escapes) (mem' : e' ∈ escapes)
    (front : e <+: e') : e = e' := by
  have apart : ∀ e ∈ escapes, ∀ e' ∈ escapes, e <+: e' → e = e' := by decide
  exact apart e mem e' mem' front

theorem withoutEscapesFrom_eq (n : Nat) (t : Text) :
    withoutEscapesFrom n t = withoutEscapes (t.drop n) := by
  induction t generalizing n with
  | nil => cases n <;> rfl
  | cons b t ih =>
    cases n with
    | zero => rfl
    | succ n => exact ih n

/-- An escape sequence at the start of a text is deleted. -/
theorem withoutEscapes_escape {e : Text} (mem : e ∈ escapes) (t : Text) :
    withoutEscapes (e ++ t) = withoutEscapes t := by
  have found : escapes.find? (fun e' => e'.isPrefixOf (e ++ t)) = some e := by
    refine find?_eq_of_unique mem (List.isPrefixOf_iff_prefix.mpr (List.prefix_append e t)) ?_
    intro e' mem' front
    rcases List.prefix_or_prefix_of_prefix (List.isPrefixOf_iff_prefix.mp front)
      (List.prefix_append e t) with shorter | longer
    · exact eq_of_isPrefix_escapes mem' mem shorter
    · exact (eq_of_isPrefix_escapes mem mem' longer).symm
  obtain ⟨rest, rfl⟩ : ∃ rest, e = escape :: rest :=
    List.head?_eq_some_iff.mp (head?_of_mem_escapes _ mem)
  rw [List.cons_append] at found ⊢
  rw [withoutEscapes, withoutEscapesFrom, found]
  show withoutEscapesFrom rest.length (rest ++ t) = _
  rw [withoutEscapesFrom_eq, List.drop_left]

/-- A clean text stays as it is, whatever stands behind it. -/
theorem withoutEscapes_append {t : Text} (clean : t.IsClean) (u : Text) :
    withoutEscapes (t ++ u) = t ++ withoutEscapes u := by
  induction t with
  | nil => rfl
  | cons b t ih =>
    obtain ⟨here, later⟩ := Text.isClean_cons.mp clean
    have none : escapes.find? (fun e => e.isPrefixOf (b :: (t ++ u))) = none := by
      refine List.find?_eq_none.mpr fun e mem front => ?_
      obtain ⟨rest, rfl⟩ : ∃ rest, e = escape :: rest :=
        List.head?_eq_some_iff.mp (head?_of_mem_escapes _ mem)
      have same := (List.cons_prefix_cons.mp (List.isPrefixOf_iff_prefix.mp front)).1
      exact here same.symm
    rw [List.cons_append, withoutEscapes, withoutEscapesFrom, none]
    exact congrArg (b :: ·) (ih later)

/-- **A piece without its escape sequences** is the piece with its style not shown. -/
theorem withoutEscapes_render {p : Piece} (clean : p.text.IsClean) (t : Text) :
    withoutEscapes (p.render true ++ t) = p.render false ++ withoutEscapes t := by
  unfold render
  cases p.style with
  | none => exact withoutEscapes_append clean t
  | some s =>
    have off : closing ∈ escapes := List.mem_cons_self
    simp only [if_true, Bool.false_eq_true, if_false]
    rw [List.append_assoc, List.append_assoc, withoutEscapes_escape (opening_mem_escapes s),
      withoutEscapes_append clean, withoutEscapes_escape off]

theorem withoutEscapes_pieces {ps : List Piece} (clean : ∀ p ∈ ps, p.text.IsClean) :
    withoutEscapes (renderAll true ps) = renderAll false ps := by
  induction ps with
  | nil => rfl
  | cons p ps ih =>
    obtain ⟨first, rest⟩ := List.forall_mem_cons.mp clean
    show withoutEscapes (p.render true ++ renderAll true ps) = p.render false ++ renderAll false ps
    rw [withoutEscapes_render first, ih rest]

end Piece

/-! ## Findings -/

namespace Finding

/-- **A clean finding**: its texts are clean. -/
structure IsClean (f : Finding) : Prop where
  detector : f.detector.IsClean
  file : f.file.IsClean
  message : f.message.IsClean
  suggestion : f.suggestion.IsClean

variable {f : Finding} {source : List Text} {drawings : Dict Text}

theorem isClean_heading (clean : f.IsClean) : ∀ p ∈ f.heading, p.text.IsClean := by
  have severity : (severity f.impact).text.IsClean := by
    unfold severity
    split
    · decide
    · split <;> decide
  have impact : f.impact.text.IsClean := Rank.isClean_text (by decide) (by decide) f.impact
  have confidence : f.confidence.text.IsClean :=
    Rank.isClean_text (by decide) (by decide) f.confidence
  have place : Text.IsClean (if f.firstLine > 0 then
      f.file ++ ":" ++ Text.ofNat f.firstLine ++ "\n" else f.file ++ "\n") := by
    split
    · simp only [Text.isClean_append]
      exact ⟨⟨⟨clean.file, by decide⟩, Text.isClean_ofNat _⟩, by decide⟩
    · exact Text.isClean_append.mpr ⟨clean.file, by decide⟩
  simp only [heading, List.forall_mem_cons, Piece.styled, Piece.plain, Text.isClean_append]
  exact ⟨severity, clean.detector, ⟨⟨⟨⟨by decide, impact⟩, by decide⟩, confidence⟩, by decide⟩,
    ⟨Text.isClean_spaces _, by decide⟩, place, List.forall_mem_nil _⟩

theorem isClean_snippet (lines : ∀ line ∈ source, line.IsClean) (width : Nat)
    (ranges : List LineRange) : ∀ p ∈ Snippet.render width source ranges, p.text.IsClean := by
  intro p mem
  obtain ⟨⟨r, index⟩, -, mem⟩ := List.mem_flatMap.mp mem
  dsimp only at mem
  split at mem
  · rcases List.mem_cons.mp mem with rfl | mem
    · refine Text.isClean_append.mpr ⟨Text.isClean_spaces _, ?_⟩
      split <;> decide
    · obtain ⟨⟨n, line⟩, row, mem⟩ := List.mem_flatMap.mp mem
      have clean := lines line (List.mem_of_getElem? (Snippet.mem_rows.mp row).2)
      rcases List.mem_pair.mp mem with rfl | rfl
      · simp only [Piece.styled, Text.padStart, Text.isClean_append]
        exact ⟨⟨Text.isClean_spaces _, Text.isClean_ofNat n⟩, by decide⟩
      · exact Text.isClean_append.mpr
          ⟨Snippet.isClean_expandTabs (Text.isClean_dropStart clean _), by decide⟩
  · cases mem

theorem isClean_messageLine (clean : f.IsClean) : ∀ p ∈ f.messageLine, p.text.IsClean := by
  simp only [messageLine, List.forall_mem_cons, Piece.styled, Text.isClean_append]
  exact ⟨⟨Text.isClean_spaces _, by decide⟩, ⟨clean.message, by decide⟩, List.forall_mem_nil _⟩

theorem isClean_measureLine (f : Finding) : ∀ p ∈ f.measureLine, p.text.IsClean := by
  unfold measureLine
  split
  · split
    · nofun
    · next n _ =>
      simp only [List.forall_mem_cons, Piece.styled, Text.isClean_append]
      exact ⟨⟨Text.isClean_spaces _, by decide⟩, ⟨⟨by decide, Text.isClean_ofInt n⟩, by decide⟩,
        List.forall_mem_nil _⟩
  · nofun

theorem isClean_suggestionLines (clean : f.IsClean) : ∀ p ∈ f.suggestionLines, p.text.IsClean := by
  unfold suggestionLines
  split
  · nofun
  · simp only [List.forall_mem_cons]
    refine ⟨by decide, by decide, fun p mem => ?_⟩
    obtain ⟨line, part, mem⟩ := List.mem_flatMap.mp mem
    rcases List.mem_pair.mp mem with rfl | rfl
    · exact Text.isClean_append.mpr ⟨Text.isClean_spaces _, by decide⟩
    · exact Text.isClean_append.mpr ⟨Text.isClean_of_mem_splitOn clean.suggestion part, by decide⟩

theorem isClean_drawingNote {path : Option Text} (clean : ∀ t ∈ path, t.IsClean) :
    ∀ p ∈ drawingNote path, p.text.IsClean := by
  unfold drawingNote
  split
  · nofun
  · nofun
  · next t _ =>
    simp only [List.forall_mem_cons, Piece.styled, Text.isClean_append]
    exact ⟨by decide, by decide, ⟨⟨by decide, clean t rfl⟩, by decide⟩, nofun⟩

/-- **The pieces of a clean finding are clean**, over clean lines and with clean paths. -/
theorem isClean_pieces (clean : f.IsClean) (lines : ∀ line ∈ source, line.IsClean)
    (paths : ∀ e ∈ drawings.entries, e.2.IsClean) : ∀ p ∈ f.pieces source drawings, p.text.IsClean := by
  have path : ∀ t ∈ drawings.find? f.detector, t.IsClean :=
    fun t found => paths (f.detector, t) (Dict.mem_entries_iff.mpr found)
  have last : ∀ p ∈ [Piece.plain "\n"], p.text.IsClean := by decide
  simp only [pieces, List.forall_mem_append]
  exact ⟨⟨⟨⟨⟨⟨isClean_heading clean, isClean_snippet lines _ _⟩, isClean_messageLine clean⟩,
    isClean_measureLine f⟩, isClean_suggestionLines clean⟩, isClean_drawingNote path⟩, last⟩

/-- **Styles change the escape sequences of a report and nothing else.** -/
theorem withoutEscapes_renderAll (fs : List Finding) (source : List Text) (drawings : Dict Text)
    (findings : ∀ f ∈ fs, f.IsClean) (lines : ∀ line ∈ source, line.IsClean)
    (paths : ∀ e ∈ drawings.entries, e.2.IsClean) :
    Piece.withoutEscapes (renderAll true source drawings fs) = renderAll false source drawings fs := by
  refine Piece.withoutEscapes_pieces fun p mem => ?_
  obtain ⟨f, among, mem⟩ := List.mem_flatMap.mp mem
  exact isClean_pieces (findings f among) lines paths p mem

/-- A finding with a number that was measured, a suggestion of two lines, a drawing and a line of code
with tabs: in colour it has escapes, and without them it is as it is shown without colour. -/
theorem withoutEscapes_renderAll_measured :
    let f : Finding :=
      { detector := "highComplexity", file := "a.teal", impact := .medium, confidence := .high
        instructions := [⟨"err", .terminal, [], 2⟩], message := "high", suggestion := "split\n\tit"
        metrics := .ofList [("complexity", 12)] }
    let source : List Text := ["#pragma version 8", "\terr\t// fails"]
    let drawings : Dict Text := .ofList [("highComplexity", "a.teal.highComplexity.dot")]
    Piece.escape ∈ renderAll true source drawings [f] ∧
      Piece.withoutEscapes (renderAll true source drawings [f]) = renderAll false source drawings [f] := by
  intro f source drawings
  have clean : ∀ g ∈ [f], g.IsClean := by
    intro g mem
    rw [List.mem_singleton.mp mem]
    exact ⟨by decide, by decide, by decide, by decide⟩
  have coloured : Piece.escape ∈ renderAll true source drawings [f] := by decide +kernel
  exact ⟨coloured, withoutEscapes_renderAll _ _ _ clean (by decide) (by decide)⟩

end Finding

end TealAudit
