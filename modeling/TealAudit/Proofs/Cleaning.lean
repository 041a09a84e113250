import TealAudit.Path
import TealAudit.Proofs.Rows

/-!
# Clean paths

Cleaning a path takes its names apart, reduces them, and spells what is left. Here the two ends are
told apart: `Path.names` are the names that are left, and `Path.spell` is how names are written.

**Reduced names** (`Path.Reduced`) are those on which nothing is left to do: single names, and below
them pairs of dots, which only a relative path may start with. The names that are kept are reduced at
each turn (`Reduced.reduce`), and reduced names are all kept (`Reduced.reduce_reverse`). So the names
of a path that is spelled from reduced names are these names (`names_spell`).

**Going down from a path** appends to its names, and to nothing else: `join_eq_spell` for a relative
path in one piece, `foldl_join` for its names one after the other. In bytes, what is joined stands
behind the clean path and a slash, except that a clean path that is a single dot is left out and one
that is a slash is not doubled (`join_eq_ite`).
-/

namespace TealAudit

/-! ## Cutting and joining -/

namespace Text

theorem splitOn_of_not_mem {sep : UInt8} {t : Text} (none : sep ∉ t) : splitOn sep t = [t] := by
  induction t with
  | nil => rfl
  | cons b t ih =>
    have other : b ≠ sep := (List.ne_of_not_mem_cons none).symm
    rw [splitOn, if_neg other, ih (List.not_mem_of_not_mem_cons none)]

theorem splitOn_ne_nil (sep : UInt8) (t : Text) : splitOn sep t ≠ [] := by
  cases t with
  | nil => simp [splitOn]
  | cons b t =>
    rw [splitOn]
    split
    · simp
    · split
      · simp
      · simp

/-- A text is split at each place where it is, whatever stands before and behind. -/
theorem splitOn_sep (sep : UInt8) (t u : Text) :
    splitOn sep (t ++ sep :: u) = splitOn sep t ++ splitOn sep u := by
  induction t with
  | nil => simp [splitOn]
  | cons b t ih =>
    rw [List.cons_append, splitOn, splitOn, ih]
    split
    · rfl
    · cases pieces : splitOn sep t with
      | nil => exact absurd pieces (splitOn_ne_nil sep t)
      | cons piece rest => rfl

theorem splitOn_join {sep : UInt8} {names : List Text} (some : names ≠ [])
    (single : ∀ name ∈ names, sep ∉ name) : splitOn sep (join [sep] names) = names := by
  induction names with
  | nil => exact absurd rfl some
  | cons name names ih =>
    obtain ⟨first, single⟩ := List.forall_mem_cons.mp single
    cases names with
    | nil => exact splitOn_of_not_mem first
    | cons next names =>
      rw [join, List.append_assoc, List.singleton_append, splitOn_sep, splitOn_of_not_mem first,
        ih (List.cons_ne_nil _ _) single]
      rfl

theorem join_splitOn (sep : UInt8) (t : Text) : join [sep] (splitOn sep t) = t := by
  induction t with
  | nil => rfl
  | cons b t ih =>
    rw [splitOn]
    cases pieces : splitOn sep t with
    | nil => exact absurd pieces (splitOn_ne_nil sep t)
    | cons piece rest =>
      rw [pieces] at ih
      split
      · next here => rw [join, ih, here, List.nil_append, List.singleton_append]
      · cases rest with
        | nil => rw [join, ← ih, join]
        | cons next rest => rw [join, ← ih, join, List.cons_append, List.cons_append]

theorem join_append {sep : Text} {ts us : List Text} (front : ts ≠ []) (back : us ≠ []) :
    join sep (ts ++ us) = join sep ts ++ sep ++ join sep us := by
  induction ts with
  | nil => exact absurd rfl front
  | cons t ts ih =>
    cases ts with
    | nil =>
      obtain ⟨u, us, rfl⟩ := List.exists_cons_of_ne_nil back
      rfl
    | cons next ts =>
      have rest := ih (List.cons_ne_nil _ _)
      rw [List.cons_append, List.cons_append, join, ← List.cons_append, rest, join]
      simp only [List.append_assoc]

end Text

namespace Path

/-- **A single name**: one that stands for an entry of a folder. -/
structure IsName (name : Text) : Prop where
  ne_nil : name ≠ []
  not_mem : slash ∉ name
  ne_dot : name ≠ dot
  ne_dotDot : name ≠ dotDot

/-- **Names that are reduced**, the last one first: single names, and behind them pairs of dots,
which there are in a relative path only. -/
inductive Reduced (absolute : Bool) : List Text → Prop where
  | nil : Reduced absolute []
  | down {name : Text} {kept : List Text} (named : IsName name) (h : Reduced absolute kept) :
    Reduced absolute (name :: kept)
  | up {kept : List Text} (relative : absolute = false) (above : ∀ name ∈ kept, name = dotDot)
    (h : Reduced absolute kept) : Reduced absolute (dotDot :: kept)

/-- The names of a path that are left when it is cleaned. -/
def names (path : Text) : List Text :=
  (reduce (isAbsolute path) [] (Text.splitOn slash path)).reverse

/-- The clean path with the given names. -/
def spell (absolute : Bool) (names : List Text) : Text :=
  if absolute then slash :: Text.join [slash] names
  else if names.isEmpty then dot
  else Text.join [slash] names

theorem clean_eq_spell (path : Text) : clean path = spell (isAbsolute path) (names path) := rfl

/-! ## Reduced names -/

variable {absolute : Bool} {kept more : List Text}

theorem reduce_append (absolute : Bool) (kept front back : List Text) :
    reduce absolute kept (front ++ back) = reduce absolute (reduce absolute kept front) back := by
  fun_induction reduce absolute kept front with
  | case1 kept => rfl
  | case2 kept name rest skipped ih =>
    rw [← ih, List.cons_append, reduce.eq_def]
    exact if_pos skipped
  | case3 rest earlier filled ih =>
    rw [← ih]
    rfl
  | case4 rest last earlier other filled ih =>
    rw [← ih, List.cons_append, reduce.eq_def]
    exact if_neg other
  | case5 rest filled ih =>
    rw [← ih]
    rfl
  | case6 kept name rest filled other ih =>
    rw [← ih, List.cons_append, reduce.eq_def]
    simp only [if_neg filled, if_neg other]

theorem reduce_concat (absolute : Bool) {name : Text} (named : IsName name) (kept names : List Text) :
    reduce absolute kept (names ++ [name]) = name :: reduce absolute kept names := by
  have filled : name.isEmpty = false := by simpa using named.ne_nil
  rw [reduce_append]
  simp [reduce, filled, named.ne_dot, named.ne_dotDot]

/-- Single names are kept one after the other. -/
theorem reduce_of_named (absolute : Bool) (kept : List Text) (named : ∀ name ∈ more, IsName name) :
    reduce absolute kept more = more.reverse ++ kept := by
  induction more generalizing kept with
  | nil => rfl
  | cons name more ih =>
    obtain ⟨first, named⟩ := List.forall_mem_cons.mp named
    have alone : reduce absolute kept [name] = name :: kept := reduce_concat absolute first kept []
    rw [← List.singleton_append, reduce_append, alone, ih _ named]
    simp

namespace Reduced

/-- **What is kept stays reduced** as more names are read. -/
theorem reduce (h : Reduced absolute kept) (single : ∀ name ∈ more, slash ∉ name) :
    Reduced absolute (Path.reduce absolute kept more) := by
  induction more generalizing kept with
  | nil => exact h
  | cons name more ih =>
    obtain ⟨here, later⟩ := List.forall_mem_cons.mp single
    unfold Path.reduce
    split
    · exact ih h later
    · next taken =>
      rw [Bool.or_eq_true, List.isEmpty_iff, decide_eq_true_eq, not_or] at taken
      split
      · next pair =>
        subst pair
        cases h with
        | nil =>
          apply ih _ later
          cases absolute with
          | true => exact .nil
          | false => exact .up rfl nofun .nil
        | down named h =>
          simp only [if_neg named.ne_dotDot]
          exact ih h later
        | up relative above h =>
          simp only [↓reduceIte]
          exact ih (.up relative (List.forall_mem_cons.mpr ⟨rfl, above⟩) (.up relative above h)) later
      · next other => exact ih (.down ⟨taken.1, here, taken.2, other⟩ h) later

/-- **Reduced names are all kept.** -/
theorem reduce_reverse (h : Reduced absolute kept) : Path.reduce absolute [] kept.reverse = kept := by
  induction h with
  | nil => rfl
  | down named h ih => rw [List.reverse_cons, reduce_concat _ named, ih]
  | @up kept relative above h ih =>
    rw [List.reverse_cons, reduce_append, ih, relative]
    cases kept with
    | nil => rfl
    | cons last earlier =>
      obtain rfl : last = dotDot := above last List.mem_cons_self
      rfl

theorem append (h : Reduced absolute kept) (named : ∀ name ∈ more, IsName name) :
    Reduced absolute (more ++ kept) := by
  induction more with
  | nil => exact h
  | cons name more ih =>
    obtain ⟨first, named⟩ := List.forall_mem_cons.mp named
    exact .down first (ih named)

theorem mem (h : Reduced absolute kept) {name : Text} (mem : name ∈ kept) :
    slash ∉ name ∧ name ≠ [] ∧ name ≠ dot := by
  induction h with
  | nil => cases mem
  | down named h ih =>
    rcases List.mem_cons.mp mem with rfl | mem
    · exact ⟨named.not_mem, named.ne_nil, named.ne_dot⟩
    · exact ih mem
  | up relative above h ih =>
    rcases List.mem_cons.mp mem with rfl | mem
    · decide
    · exact ih mem

end Reduced

theorem reduced_names (path : Text) : Reduced (isAbsolute path) (names path).reverse := by
  rw [names, List.reverse_reverse]
  exact Reduced.nil.reduce fun name => Text.not_mem_of_mem_splitOn path

theorem mem_names {path name : Text} (mem : name ∈ names path) :
    slash ∉ name ∧ name ≠ [] ∧ name ≠ dot :=
  (reduced_names path).mem (List.mem_reverse.mpr mem)

/-! ## Spelling -/

section Spelling

variable {ns : List Text}

theorem join_ne_nil (some : ns ≠ []) (filled : ∀ name ∈ ns, name ≠ []) :
    Text.join [slash] ns ≠ [] := by
  obtain ⟨first, rest, rfl⟩ := List.exists_cons_of_ne_nil some
  have start : first ≠ [] := filled first List.mem_cons_self
  cases rest with
  | nil => exact start
  | cons next rest => simp [Text.join]

theorem splitOn_of_isAbsolute {path : Text} (absolute : isAbsolute path = true) :
    ∃ names, Text.splitOn slash path = [] :: names := by
  cases path with
  | nil => cases absolute
  | cons b rest =>
    have starts : b = slash := by simpa [isAbsolute] using absolute
    exact ⟨_, by rw [Text.splitOn, if_pos starts]⟩

theorem splitOn_spell (absolute : Bool) (some : ns ≠ []) (single : ∀ name ∈ ns, slash ∉ name) :
    Text.splitOn slash (spell absolute ns) = (if absolute then [[]] else []) ++ ns := by
  have joined : Text.splitOn slash (Text.join [slash] ns) = ns := Text.splitOn_join some single
  cases absolute with
  | true => simp [spell, Text.splitOn, joined]
  | false => simp [spell, some, joined]

/-- A path is absolute if it is spelled as one, for no name starts with a slash. -/
theorem isAbsolute_spell (absolute : Bool) (single : ∀ name ∈ ns, slash ∉ name ∧ name ≠ []) :
    isAbsolute (spell absolute ns) = absolute := by
  cases absolute with
  | true => rfl
  | false =>
    cases ns with
    | nil => decide
    | cons first rest =>
      refine Bool.eq_false_iff.mpr fun starts => ?_
      obtain ⟨pieces, cut⟩ := splitOn_of_isAbsolute starts
      rw [splitOn_spell false (List.cons_ne_nil _ _) fun name mem => (single name mem).1] at cut
      exact (single first List.mem_cons_self).2 (List.cons.inj cut).1

theorem reduce_splitOn_join (absolute : Bool) (single : ∀ name ∈ ns, slash ∉ name) :
    reduce absolute [] (Text.splitOn slash (Text.join [slash] ns)) = reduce absolute [] ns := by
  cases ns with
  | nil => rfl
  | cons first rest => rw [Text.splitOn_join (List.cons_ne_nil _ _) single]

/-- **The names of a path that is spelled from reduced names** are these. -/
theorem names_spell (h : Reduced absolute ns.reverse) : names (spell absolute ns) = ns := by
  have single : ∀ name ∈ ns, slash ∉ name ∧ name ≠ [] := fun name mem =>
    let ⟨whole, filled, _⟩ := h.mem (List.mem_reverse.mpr mem)
    ⟨whole, filled⟩
  have all : reduce absolute [] ns = ns.reverse := by
    rw [← h.reduce_reverse, List.reverse_reverse]
  have again := reduce_splitOn_join absolute fun name mem => (single name mem).1
  rw [all] at again
  have spelled : reduce absolute [] (Text.splitOn slash (spell absolute ns)) = ns.reverse := by
    rw [← again]
    cases absolute with
    | true => rfl
    | false =>
      cases ns with
      | nil => rfl
      | cons first rest => rfl
  rw [names, isAbsolute_spell absolute single, spelled, List.reverse_reverse]

/-- A single dot is the spelling of no names in a relative path, and of nothing else. -/
theorem spell_eq_dot_iff (single : ∀ name ∈ ns, slash ∉ name ∧ name ≠ [] ∧ name ≠ dot) :
    spell absolute ns = dot ↔ absolute = false ∧ ns = [] := by
  constructor
  · intro eq
    cases absolute with
    | true => exact absurd (List.cons.inj eq).1 (by decide)
    | false =>
      refine ⟨rfl, ?_⟩
      cases ns with
      | nil => rfl
      | cons first rest =>
        have cut := splitOn_spell false (List.cons_ne_nil first rest) fun name mem => (single name mem).1
        rw [eq, show Text.splitOn slash dot = [dot] from rfl] at cut
        exact absurd (List.cons.inj cut).1.symm (single first List.mem_cons_self).2.2
  · rintro ⟨rfl, rfl⟩
    rfl

/-- A slash is the spelling of no names in an absolute path, and of nothing else. -/
theorem spell_eq_slash_iff (single : ∀ name ∈ ns, slash ∉ name ∧ name ≠ []) :
    spell absolute ns = [slash] ↔ absolute = true ∧ ns = [] := by
  constructor
  · intro eq
    have starts := isAbsolute_spell absolute single
    rw [eq] at starts
    obtain rfl : absolute = true := starts.symm
    refine ⟨rfl, ?_⟩
    by_contra some
    exact join_ne_nil some (fun name mem => (single name mem).2) (List.cons.inj eq).2
  · rintro ⟨rfl, rfl⟩
    rfl

/-- Further names stand behind a slash, unless no name or another slash stands before them. -/
theorem spell_append (absolute : Bool)
    (single : ∀ name ∈ ns, slash ∉ name ∧ name ≠ [] ∧ name ≠ dot) (some : more ≠ []) :
    spell absolute (ns ++ more) =
      if spell absolute ns = dot then Text.join [slash] more
      else if spell absolute ns = [slash] then slash :: Text.join [slash] more
      else spell absolute ns ++ slash :: Text.join [slash] more := by
  simp only [spell_eq_dot_iff single,
    spell_eq_slash_iff fun name mem => And.intro (single name mem).1 (single name mem).2.1]
  cases ns with
  | nil =>
    cases absolute with
    | true => simp [spell]
    | false => simp [spell, some]
  | cons first rest =>
    have both : Text.join [slash] (first :: rest ++ more) =
        Text.join [slash] (first :: rest) ++ [slash] ++ Text.join [slash] more :=
      Text.join_append (List.cons_ne_nil _ _) some
    rw [List.append_assoc, List.singleton_append] at both
    cases absolute with
    | true => simpa [spell] using both
    | false => simpa [spell] using both

end Spelling

/-! ## Clean paths -/

theorem isAbsolute_clean (path : Text) : isAbsolute (clean path) = isAbsolute path :=
  isAbsolute_spell _ fun _ mem => ⟨(mem_names mem).1, (mem_names mem).2.1⟩

theorem clean_ne_nil (path : Text) : clean path ≠ [] := by
  rw [clean_eq_spell, spell]
  split_ifs with absolute none
  · exact List.cons_ne_nil _ _
  · decide
  · exact join_ne_nil (by simpa using none) fun _ mem => (mem_names mem).2.1

/-! ## Going down -/

/-- **A relative path that goes down** appends its names. -/
theorem join_eq_spell (root : Text) (some : more ≠ []) (named : ∀ name ∈ more, IsName name) :
    join root (Text.join [slash] more) = spell (isAbsolute root) (names root ++ more) := by
  have whole : ∀ name ∈ more, slash ∉ name := fun name mem => (named name mem).not_mem
  have cut : Text.splitOn slash (Text.join [slash] more) = more := Text.splitOn_join some whole
  have filled : (Text.join [slash] more).isEmpty = false := by
    simpa using join_ne_nil some fun name mem => (named name mem).ne_nil
  cases root with
  | nil =>
    have relative : spell false more = Text.join [slash] more := by simp [spell, some]
    have down : Reduced false more.reverse :=
      List.append_nil more.reverse ▸
        Reduced.nil.append fun name mem => named name (List.mem_reverse.mp mem)
    have path : join [] (Text.join [slash] more) = clean (Text.join [slash] more) := by
      simp [join, filled, Text.join]
    rw [path, clean_eq_spell, ← relative, names_spell down, isAbsolute_spell false
      fun name mem => ⟨whole name mem, (named name mem).ne_nil⟩]
    rfl
  | cons b rest =>
    have path : join (b :: rest) (Text.join [slash] more) =
        clean (b :: rest ++ slash :: Text.join [slash] more) := by
      simp [join, filled, Text.join]
    have same : isAbsolute (b :: rest ++ slash :: Text.join [slash] more) = isAbsolute (b :: rest) :=
      rfl
    rw [path, clean_eq_spell, same]
    congr 1
    rw [names, names, same, Text.splitOn_sep, cut, reduce_append, reduce_of_named _ _ named,
      List.reverse_append, List.reverse_reverse]

theorem reduced_append (root : Text) (named : ∀ name ∈ more, IsName name) :
    Reduced (isAbsolute root) (names root ++ more).reverse := by
  rw [List.reverse_append]
  exact (reduced_names root).append fun name mem => named name (List.mem_reverse.mp mem)

theorem names_join (root : Text) (some : more ≠ []) (named : ∀ name ∈ more, IsName name) :
    names (join root (Text.join [slash] more)) = names root ++ more := by
  rw [join_eq_spell root some named]
  exact names_spell (reduced_append root named)

theorem isAbsolute_join (root : Text) (some : more ≠ []) (named : ∀ name ∈ more, IsName name) :
    isAbsolute (join root (Text.join [slash] more)) = isAbsolute root := by
  rw [join_eq_spell root some named]
  apply isAbsolute_spell
  intro name mem
  obtain ⟨whole, filled, -⟩ := (reduced_append root named).mem (List.mem_reverse.mpr mem)
  exact ⟨whole, filled⟩

/-- **Name by name**: going down by each of some names is going down by all of them at once. -/
theorem foldl_join (root : Text) (some : more ≠ []) (named : ∀ name ∈ more, IsName name) :
    more.foldl join root = join root (Text.join [slash] more) := by
  induction more generalizing root with
  | nil => exact absurd rfl some
  | cons name rest ih =>
    obtain ⟨first, later⟩ := List.forall_mem_cons.mp named
    cases rest with
    | nil => rfl
    | cons next rest =>
      have one : ∀ n ∈ [name], IsName n := List.forall_mem_singleton.mpr first
      have names_one : names (join root name) = names root ++ [name] :=
        names_join root (List.cons_ne_nil _ _) one
      have absolute_one : isAbsolute (join root name) = isAbsolute root :=
        isAbsolute_join root (List.cons_ne_nil _ _) one
      rw [List.foldl_cons, ih _ (List.cons_ne_nil _ _) later,
        join_eq_spell _ (List.cons_ne_nil _ _) later, join_eq_spell _ some named, names_one,
        absolute_one, List.append_assoc, List.singleton_append]

/-- **What is joined stands behind the clean path**, with one slash between the two. A clean path that
is a single dot is left out, and one that is a slash is not followed by another. -/
theorem join_eq_ite (root : Text) (some : more ≠ []) (named : ∀ name ∈ more, IsName name) :
    join root (Text.join [slash] more) =
      if clean root = dot then Text.join [slash] more
      else if clean root = [slash] then slash :: Text.join [slash] more
      else clean root ++ slash :: Text.join [slash] more := by
  rw [join_eq_spell root some named, clean_eq_spell]
  exact spell_append _ (fun _ => mem_names) some

/-- **A single name in a folder**: all names go in the same way into the folder. -/
theorem join_eq (folder : Text) : ∃ front, ∀ name, IsName name →
    Text.splitOn slash (join folder name) = front ++ [name] ∧
    isAbsolute (join folder name) = isAbsolute folder := by
  refine ⟨(if isAbsolute folder then [[]] else []) ++ names folder, fun name named => ?_⟩
  have one : ∀ n ∈ [name], IsName n := List.forall_mem_singleton.mpr named
  refine ⟨?_, isAbsolute_join folder (List.cons_ne_nil _ _) one⟩
  have spelled : join folder name = spell (isAbsolute folder) (names folder ++ [name]) :=
    join_eq_spell folder (List.cons_ne_nil _ _) one
  rw [spelled, List.append_assoc]
  apply splitOn_spell _ (by simp)
  intro n mem
  exact ((reduced_append folder one).mem (List.mem_reverse.mpr mem)).1

end Path

end TealAudit
