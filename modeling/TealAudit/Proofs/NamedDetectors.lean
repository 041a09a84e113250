import TealAudit.Proofs.Appending
import TealAudit.Proofs.Suppression

/-!
# The detectors that a comment names

A comment that suppresses findings may name detectors in a list behind a colon. What such a list holds
(`Suppression.Lists`) is said by its commas and by the white space around its names. Two parts of the
program look at the list: one refuses a list with nothing in it, the other takes the names out of it.
Both look at the list without the white space at its ends, which makes no difference to the names
(`Suppression.namesIn_trim`).

**The law** (`Suppression.exact_iff`) is that a list is taken at its word, so that exactly the detectors
in it are suppressed, if and only if it is blank or has a name in it. The two parts disagree on a list
that has commas and no names. It is not refused, since there is something in it, and as no name comes
out of it, the comment is one about all detectors.
-/

namespace TealAudit

/-! ## Trimmed lists -/

namespace Text

theorem trim_eq_nil_iff {t : Text} : t.trim = [] ↔ t.isBlank = true := by
  constructor
  · intro nothing
    obtain ⟨front, back, before, behind, whole⟩ := exists_trim t
    rw [whole, nothing, List.append_nil, isBlank_append before, behind]
  · intro blank
    have trimmed : trim (t ++ [] ++ []) = trim [] := trim_blank_append_blank blank rfl []
    rwa [List.append_nil, List.append_nil] at trimmed

/-- White space without the separator, put around a text, changes no piece of it but for white space
around the piece. -/
theorem map_trim_splitOn {sep : UInt8} {front back t : Text} (before : front.isBlank = true)
    (behind : back.isBlank = true) (visible : IsVisible sep) :
    (splitOn sep (front ++ t ++ back)).map trim = (splitOn sep t).map trim := by
  have dark {w : Text} (blank : w.isBlank = true) : sep ∉ w :=
    fun mem => not_isVisible_of_mem blank sep mem visible
  -- By induction on the pieces: the white space in front meets the first one, that behind the last.
  suffices all : ∀ pieces : List Text, pieces ≠ [] → (∀ piece ∈ pieces, sep ∉ piece) →
      ∀ front : Text, front.isBlank = true →
        (splitOn sep (front ++ join [sep] pieces ++ back)).map trim = pieces.map trim by
    have pieces := all (splitOn sep t) (splitOn_ne_nil sep t)
      (fun _ mem => not_mem_of_mem_splitOn t mem) front before
    rwa [join_splitOn] at pieces
  intro pieces
  induction pieces with
  | nil => exact fun some => absurd rfl some
  | cons piece pieces ih =>
    intro _ single front before
    obtain ⟨first, single⟩ := List.forall_mem_cons.mp single
    cases pieces with
    | nil =>
      have none : sep ∉ front ++ piece ++ back := by
        simp only [List.mem_append, not_or]
        exact ⟨⟨dark before, first⟩, dark behind⟩
      rw [join, splitOn_of_not_mem none, List.map_singleton, trim_blank_append_blank before behind]
      rfl
    | cons next pieces =>
      have none : sep ∉ front ++ piece := by
        simp only [List.mem_append, not_or]
        exact ⟨dark before, first⟩
      have cut : front ++ join [sep] (piece :: next :: pieces) ++ back =
          (front ++ piece) ++ sep :: ([] ++ join [sep] (next :: pieces) ++ back) := by
        simp [join]
      have trimmed : trim (front ++ piece) = trim piece := by
        have around : trim (front ++ piece ++ []) = trim piece :=
          trim_blank_append_blank before rfl piece
        rwa [List.append_nil] at around
      rw [cut, splitOn_append none, List.map_cons, ih (List.cons_ne_nil _ _) single [] rfl, trimmed]
      rfl

end Text

namespace Suppression

/-! ## Lists of names -/

/-- What stands between the names of a list. -/
def comma : UInt8 := Text.byte ','

/-- **A name in a list**: what stands between commas, without the white space around it, if that leaves
anything. -/
def Lists (list name : Text) : Prop :=
  name ≠ [] ∧ ∃ pieces : List Text, list = Text.join [comma] pieces ∧
    (∀ piece ∈ pieces, comma ∉ piece) ∧ ∃ piece ∈ pieces, piece.trim = name

theorem mem_namesIn {list name : Text} : name ∈ namesIn list ↔ Lists list name := by
  simp only [namesIn, List.mem_filter, List.mem_map, Bool.not_eq_true', List.isEmpty_eq_false_iff]
  constructor
  · rintro ⟨⟨piece, mem, trimmed⟩, some⟩
    exact ⟨some, _, (Text.join_splitOn comma list).symm,
      fun _ mem => Text.not_mem_of_mem_splitOn list mem, piece, mem, trimmed⟩
  · rintro ⟨some, pieces, rfl, single, piece, mem, trimmed⟩
    have split := Text.splitOn_join (List.ne_nil_of_mem mem) single
    exact ⟨⟨piece, split.symm ▸ mem, trimmed⟩, some⟩

theorem namesIn_eq_nil_iff {list : Text} : namesIn list = [] ↔ ∀ name, ¬ Lists list name := by
  simp only [List.eq_nil_iff_forall_not_mem, mem_namesIn]

/-- The white space at the ends of a list makes no difference to its names. -/
theorem namesIn_trim (list : Text) : namesIn list.trim = namesIn list := by
  obtain ⟨front, back, before, behind, whole⟩ := Text.exists_trim list
  have pieces : (Text.splitOn comma (front ++ list.trim ++ back)).map Text.trim =
      (Text.splitOn comma list.trim).map Text.trim :=
    Text.map_trim_splitOn before behind (by decide)
  rw [← whole] at pieces
  show List.filter _ ((Text.splitOn comma list.trim).map Text.trim) = _
  rw [← pieces]
  rfl

/-! ## Comments -/

/-- The comment with a list of detectors. -/
def naming (list : Text) : Text := mark ++ Text.ofString ":" ++ list

/-- A list is refused when it is blank; otherwise its names are taken. -/
theorem detectorsOf?_naming (list : Text) :
    detectorsOf? (naming list) = if list.isBlank then none else some (namesIn list) := by
  have start : (naming list).startsWith mark = true :=
    List.isPrefixOf_iff_prefix.mpr ⟨Text.ofString ":" ++ list, (List.append_assoc ..).symm⟩
  have rest : (naming list).drop mark.length = Text.byte ':' :: list := by
    rw [naming, List.append_assoc, List.drop_left]
    rfl
  unfold detectorsOf?
  rw [start, rest]
  cases blank : list.isBlank with
  | true =>
    have nothing := Text.trim_eq_nil_iff.mpr blank
    simp [nothing]
  | false =>
    have some : list.trim ≠ [] := by
      rw [ne_eq, Text.trim_eq_nil_iff, blank]
      exact Bool.false_ne_true
    simp [some, namesIn_trim]

/-- The detectors of a scope, on a line that it covers. -/
theorem covers_single {detectors : List Text} {first line : Nat} {last : Option Nat}
    (above : first ≤ line) (below : ∀ m ∈ last, line ≤ m) (d : Text) :
    (Suppression.mk [⟨detectors, first, last⟩]).covers line d = true ↔
      detectors = [] ∨ d ∈ detectors := by
  have ended : last.all (fun m => line ≤ m) = true := by
    cases last with
    | none => rfl
    | some m => exact decide_eq_true (below m rfl)
  simp [covers, Scope.covers, above, ended]

/-- **A list is taken at its word**: the comment with it suppresses something exactly when a name is in
the list, and on the lines that a scope of the comment covers, it suppresses exactly the detectors in
the list. -/
structure Exact (list : Text) : Prop where
  accepted : (∃ detectors, detectorsOf? (naming list) = some detectors) ↔ ∃ name, Lists list name
  covers : ∀ detectors first last line d, detectorsOf? (naming list) = some detectors →
    first ≤ line → (∀ m ∈ last, line ≤ m) →
      ((Suppression.mk [⟨detectors, first, last⟩]).covers line d = true ↔ Lists list d)

/-- **A comment about all detectors**: on the lines that its scope covers, every one is suppressed. -/
def AboutAll (list : Text) : Prop :=
  ∃ detectors, detectorsOf? (naming list) = some detectors ∧
    ∀ first last line d, first ≤ line → (∀ m ∈ last, line ≤ m) →
      (Suppression.mk [⟨detectors, first, last⟩]).covers line d = true

theorem exact_of_isBlank {list : Text} (blank : list.isBlank = true) : Exact list := by
  have refused : detectorsOf? (naming list) = none := by rw [detectorsOf?_naming, if_pos blank]
  have nothing : namesIn list = [] := by
    rw [← namesIn_trim, Text.trim_eq_nil_iff.mpr blank]
    rfl
  refine ⟨⟨?_, ?_⟩, ?_⟩
  · rintro ⟨detectors, accepted⟩
    rw [refused] at accepted
    cases accepted
  · rintro ⟨name, listed⟩
    exact absurd listed (namesIn_eq_nil_iff.mp nothing name)
  · intro detectors first last line d accepted
    rw [refused] at accepted
    cases accepted

theorem exact_of_lists {list name : Text} (listed : Lists list name) : Exact list := by
  have some : namesIn list ≠ [] := List.ne_nil_of_mem (mem_namesIn.mpr listed)
  have visible : ¬ list.isBlank = true := by
    intro blank
    apply some
    rw [← namesIn_trim, Text.trim_eq_nil_iff.mpr blank]
    rfl
  have accepted : detectorsOf? (naming list) = .some (namesIn list) := by
    rw [detectorsOf?_naming, if_neg visible]
  refine ⟨⟨fun _ => ⟨name, listed⟩, fun _ => ⟨_, accepted⟩⟩, ?_⟩
  intro detectors first last line d taken above below
  cases accepted.symm.trans taken
  rw [covers_single above below, or_iff_right some, mem_namesIn]

theorem aboutAll_of_nothing {list : Text} (visible : ¬ list.isBlank = true)
    (nothing : ∀ name, ¬ Lists list name) : AboutAll list := by
  refine ⟨[], ?_, ?_⟩
  · rw [detectorsOf?_naming, if_neg visible, namesIn_eq_nil_iff.mpr nothing]
  · intro first last line d above below
    exact (covers_single above below d).mpr (.inl rfl)

/-- A list that is taken at its word is blank, or there is a name in it. -/
theorem Exact.isBlank_or_lists {list : Text} (exact : Exact list) :
    list.isBlank = true ∨ ∃ name, Lists list name := by
  by_cases blank : list.isBlank = true
  · exact .inl blank
  · refine .inr (exact.accepted.mp ⟨namesIn list, ?_⟩)
    rw [detectorsOf?_naming, if_neg blank]

/-- **Which lists of detectors are taken at their word.** They are those that are blank, which are
refused, and those with a name in them, which suppress the detectors they name and no others. Any other
list, which has commas in it and no names, is accepted, and the comment with it is about all
detectors. -/
theorem exact_iff (list : Text) :
    (Exact list ↔ list.isBlank = true ∨ ∃ name, Lists list name) ∧ (Exact list ∨ AboutAll list) := by
  refine ⟨⟨Exact.isBlank_or_lists, ?_⟩, ?_⟩
  · rintro (blank | ⟨name, listed⟩)
    · exact exact_of_isBlank blank
    · exact exact_of_lists listed
  · by_cases blank : list.isBlank = true
    · exact .inl (exact_of_isBlank blank)
    · by_cases some : ∃ name, Lists list name
      · obtain ⟨name, listed⟩ := some
        exact .inl (exact_of_lists listed)
      · exact .inr (aboutAll_of_nothing blank fun name listed => some ⟨name, listed⟩)

/-- A comma alone names no detector, and the comment with it suppresses a finding all the same. -/
theorem comma_suppresses : ¬ Exact (Text.ofString ",") ∧
    ¬ Lists (Text.ofString ",") (Text.ofString "deadCode") ∧
    (ofSource (Text.ofString "err //nolint:,")).covers 1 (Text.ofString "deadCode") = true := by
  have nothing : ∀ name, ¬ Lists (Text.ofString ",") name := namesIn_eq_nil_iff.mp (by decide)
  refine ⟨?_, nothing _, by decide +kernel⟩
  intro exact
  rcases exact.isBlank_or_lists with blank | ⟨name, listed⟩
  · exact absurd blank (by decide)
  · exact nothing name listed

end Suppression

end TealAudit
