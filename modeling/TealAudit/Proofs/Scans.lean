import Mathlib.Data.List.Nodup
import TealAudit.Proofs.Descents
import TealAudit.Scan

/-!
# What a search finds

A search goes through the folders below a path and gives the files that it meets, in the order of their
paths. **The law** (`Scan.finds_visible`) says which files these are, by their places in the tree: those
whose name has one of the extensions that are asked for, and no hidden folder on the way to them. The
folder that the search starts at does not count, and a hidden file does not either.

The search knows its folders by their paths alone. It takes a folder for the one it started at if the
two paths are the same text, and it takes the last name of a path for the name of the folder. Both are
right because a path shows the whole way down: the names of a path below another are those of the upper
one and then those of the way (`Path.names_foldl`). So no path below the start is the start
(`Path.foldl_join_ne`), and no two files have the same path (`Scan.nodup_files`).

The first step that fails ends the search (`Scan.exists_performed`). Whether one does is known from the
places of the tree and what is forbidden there: a search gets through exactly where each folder that it
comes to can be listed and each file that it is to find can be looked at (`Scan.searchable_iff`).
Otherwise one of these is told as what has ended the search (`Scan.hindrance_iff`). The law then says
that nothing wrong is found. It does not say how much is found, nor which hindrance comes first.

All this is about trees in which the entries of a folder have single and distinct names
(`FileTree.Proper`), as they have on a disk.
-/

namespace TealAudit

/-! ## Paths below a path -/

namespace Path

variable {root name ext : Text} {place : List Text}

instance : DecidablePred IsName := fun name =>
  decidable_of_iff (name ≠ [] ∧ slash ∉ name ∧ name ≠ dot ∧ name ≠ dotDot)
    ⟨fun ⟨filled, single, other, up⟩ => ⟨filled, single, other, up⟩,
      fun h => ⟨h.ne_nil, h.not_mem, h.ne_dot, h.ne_dotDot⟩⟩

/-- **The names of a path below another**: those of the upper one, and then those of the way down. -/
theorem names_foldl (root : Text) (named : ∀ name ∈ place, IsName name) :
    names (place.foldl join root) = names root ++ place := by
  cases place with
  | nil => exact (List.append_nil _).symm
  | cons first rest =>
    rw [foldl_join root (List.cons_ne_nil _ _) named]
    exact names_join root (List.cons_ne_nil _ _) named

/-- No path below another is the same as that one. -/
theorem foldl_join_ne (some : place ≠ []) (named : ∀ name ∈ place, IsName name) :
    place.foldl join root ≠ root := by
  intro same
  have longer := names_foldl root named
  rw [same] at longer
  exact some (List.append_right_eq_self.mp longer.symm)

theorem lastName_foldl (root : Text) (named : ∀ n ∈ place ++ [name], IsName n) :
    lastName ((place ++ [name]).foldl join root) = name := by
  have some : place ++ [name] ≠ [] := List.concat_ne_nil name place
  have single : ∀ n ∈ names root ++ (place ++ [name]), slash ∉ n := by
    intro n mem
    exact ((reduced_append root named).mem (List.mem_reverse.mpr mem)).1
  rw [foldl_join root some named, join_eq_spell root some named, lastName,
    splitOn_spell _ (List.append_ne_nil_of_right_ne_nil _ some) single, ← List.append_assoc,
    ← List.append_assoc, List.getLast?_concat]
  rfl

/-- **The extension of a name**: from its last dot on, and empty if it has no dot. -/
def HasExtension (name ext : Text) : Prop :=
  Text.byte '.' ∉ name ∧ ext = [] ∨
  ∃ stem tail, name = stem ++ Text.byte '.' :: tail ∧ Text.byte '.' ∉ tail ∧
    ext = Text.byte '.' :: tail

theorem exists_hasExtension (name : Text) : ∃ ext, HasExtension name ext := by
  by_cases dotted : Text.byte '.' ∈ name
  · obtain ⟨front, back, split, first⟩ :=
      List.eq_append_cons_of_mem (List.mem_reverse.mpr dotted)
    refine ⟨Text.byte '.' :: front.reverse, .inr ⟨back.reverse, front.reverse, ?_, ?_, rfl⟩⟩
    · rw [← List.reverse_reverse name, split]
      simp
    · rw [List.mem_reverse]
      exact first
  · exact ⟨[], .inl ⟨dotted, rfl⟩⟩

theorem HasExtension.extension_eq {path : Text} (h : HasExtension (lastName path) ext) :
    extension path = ext := by
  simp only [extension]
  rcases h with ⟨plain, rfl⟩ | ⟨stem, tail, split, last, rfl⟩
  · simp [plain]
  · rw [split, Text.splitOn_sep, Text.splitOn_of_not_mem last, List.getLast?_concat]
    simp

theorem extension_eq_iff {path : Text} : extension path = ext ↔ HasExtension (lastName path) ext := by
  constructor
  · intro eq
    obtain ⟨other, has⟩ := exists_hasExtension (lastName path)
    rw [← eq, has.extension_eq]
    exact has
  · exact HasExtension.extension_eq

end Path

/-! ## Trees -/

namespace FileTree

/-- **A tree as it can stand on a disk**: the entries of each folder have single and distinct names. -/
inductive Proper : FileTree → Prop where
  | file (content : Text) : Proper (.file content)
  | folder {entries : List (Text × FileTree)} (named : ∀ e ∈ entries, Path.IsName e.1)
    (distinct : entries.Pairwise fun e e' => e.1 ≠ e'.1) (inner : ∀ e ∈ entries, Proper e.2) :
    Proper (.folder entries)

/-- What stands under a name is what the entry of the name holds. -/
theorem at?_cons_iff {entries : List (Text × FileTree)}
    (distinct : entries.Pairwise fun e e' => e.1 ≠ e'.1) {name : Text} {rest : List Text}
    {t : FileTree} : (FileTree.folder entries).at? (name :: rest) = some t ↔
      ∃ sub, (name, sub) ∈ entries ∧ sub.at? rest = some t := by
  rw [at?_cons]
  induction entries with
  | nil => simp
  | cons e entries ih =>
    obtain ⟨others, distinct⟩ := List.pairwise_cons.mp distinct
    by_cases here : e.1 = name
    · subst here
      rw [List.find?_cons_of_pos (by simp)]
      constructor
      · intro found
        exact ⟨e.2, List.mem_cons_self, found⟩
      · rintro ⟨sub, mem, found⟩
        rcases List.mem_cons.mp mem with eq | later
        · rw [← eq]
          exact found
        · exact absurd rfl (others (e.1, sub) later)
    · rw [List.find?_cons_of_neg (by simpa using here), ih distinct]
      have earlier : ∀ sub, (name, sub) ∈ e :: entries ↔ (name, sub) ∈ entries := by
        intro sub
        rw [List.mem_cons, or_iff_right]
        rintro rfl
        exact here rfl
      simp only [earlier]

theorem Proper.at? {t : FileTree} (proper : Proper t) {place : List Text} {sub : FileTree}
    (found : t.at? place = some sub) : Proper sub ∧ ∀ name ∈ place, Path.IsName name := by
  induction place generalizing t with
  | nil =>
    cases found
    exact ⟨proper, nofun⟩
  | cons name place ih =>
    cases proper with
    | file content => cases found
    | folder named distinct inner =>
      obtain ⟨next, mem, found⟩ := (at?_cons_iff distinct).mp found
      obtain ⟨below, rest⟩ := ih (inner _ mem) found
      exact ⟨below, List.forall_mem_cons.mpr ⟨named _ mem, rest⟩⟩

end FileTree

/-! ## The steps of a search -/

namespace Scan

variable {root path entry : Text} {extensions : List Text} {t : FileTree}

/-- The step that a search makes at a tree before it goes on to what is below. -/
def ownStep? (root : Text) (extensions : List Text) (path entry : Text) : FileTree → Option Step
  | .file content => if matchesAny extensions path then some (.take path entry content) else none
  | .folder _ => if enters root path then some (.list path) else none

/-- The path under which a place is looked at, in a tree that is at `path` and is looked at under
`entry`. -/
def entryAt (path entry : Text) : List Text → Text
  | [] => entry
  | name :: rest => entryAt (Path.join path name) (path ++ Path.slash :: name) rest

theorem entryAt_concat (path entry : Text) (above : List Text) (name : Text) :
    entryAt path entry (above ++ [name]) = above.foldl Path.join path ++ Path.slash :: name := by
  induction above generalizing path entry with
  | nil => rfl
  | cons first above ih => exact ih (Path.join path first) (path ++ Path.slash :: first)

theorem stepsIn_eq (root : Text) (extensions : List Text) (path : Text)
    (entries : List (Text × FileTree)) : stepsIn root extensions path entries = entries.flatMap fun e =>
      steps root extensions (Path.join path e.1) (path ++ Path.slash :: e.1) e.2 := by
  induction entries with
  | nil => rfl
  | cons e entries ih => rw [stepsIn, ih, List.flatMap_cons]

/-- **The steps of a search**: one for each place for which all folders on the way are entered. -/
theorem mem_steps (proper : t.Proper) {s : Step} : s ∈ steps root extensions path entry t ↔
    ∃ place sub, t.at? place = some sub ∧
      (∀ front, front <+: place → front ≠ place → enters root (front.foldl Path.join path) = true) ∧
      ownStep? root extensions (place.foldl Path.join path) (entryAt path entry place) sub = some s := by
  induction proper generalizing path entry with
  | file content =>
    constructor
    · intro mem
      refine ⟨[], .file content, rfl, fun front begins proper => ?_, ?_⟩
      · exact absurd (List.prefix_nil.mp begins) proper
      · rw [steps] at mem
        split at mem
        · next asked =>
          cases List.mem_singleton.mp mem
          exact if_pos asked
        · cases mem
    · rintro ⟨place, sub, found, -, own⟩
      cases place with
      | nil =>
        cases found
        obtain ⟨asked, own⟩ := Option.ite_none_right_eq_some.mp own
        cases own
        rw [List.foldl_nil] at asked
        rw [steps, if_pos asked]
        exact List.mem_singleton.mpr rfl
      | cons name place => cases found
  | @folder entries named distinct inner ih =>
    rw [steps]
    constructor
    · intro mem
      split at mem
      · next entered =>
        rcases List.mem_cons.mp mem with rfl | mem
        · refine ⟨[], .folder entries, rfl, fun front begins proper => ?_, if_pos entered⟩
          exact absurd (List.prefix_nil.mp begins) proper
        · rw [stepsIn_eq, List.mem_flatMap] at mem
          obtain ⟨e, listed, mem⟩ := mem
          obtain ⟨place, sub, found, enters, own⟩ := (ih e listed).mp mem
          refine ⟨e.1 :: place, sub, (FileTree.at?_cons_iff distinct).mpr ⟨e.2, listed, found⟩, ?_, own⟩
          intro front begins proper
          cases front with
          | nil => exact entered
          | cons first front =>
            obtain ⟨rfl, within⟩ := List.cons_prefix_cons.mp begins
            exact enters front within fun same => proper (by rw [same])
      · cases mem
    · rintro ⟨place, sub, found, enters, own⟩
      cases place with
      | nil =>
        cases found
        obtain ⟨entered, own⟩ := Option.ite_none_right_eq_some.mp own
        cases own
        rw [List.foldl_nil] at entered
        rw [if_pos entered]
        exact List.mem_cons_self
      | cons name place =>
        obtain ⟨next, listed, held⟩ := (FileTree.at?_cons_iff distinct).mp found
        have entered := enters [] List.nil_prefix (List.cons_ne_nil _ _).symm
        rw [List.foldl_nil] at entered
        rw [if_pos entered, stepsIn_eq]
        refine List.mem_cons_of_mem _ (List.mem_flatMap.mpr ⟨(name, next), listed, ?_⟩)
        refine (ih _ listed).mpr ⟨place, sub, held, fun front begins proper => ?_, own⟩
        refine enters (name :: front) (List.cons_prefix_cons.mpr ⟨rfl, begins⟩) fun same => ?_
        exact proper (List.cons.inj same).2

/-- The files that a search takes if no step fails. -/
theorem mem_files (proper : t.Proper) {file content : Text} :
    (file, content) ∈ (steps root extensions path entry t).filterMap Step.file? ↔
      ∃ place, t.at? place = some (.file content) ∧ file = place.foldl Path.join path ∧
        (∀ front, front <+: place → front ≠ place → enters root (front.foldl Path.join path) = true) ∧
        matchesAny extensions file = true := by
  rw [List.mem_filterMap]
  constructor
  · rintro ⟨s, mem, taken⟩
    obtain ⟨place, sub, found, enters, own⟩ := (mem_steps proper).mp mem
    cases sub with
    | file held =>
      obtain ⟨asked, own⟩ := Option.ite_none_right_eq_some.mp own
      cases own
      cases taken
      exact ⟨place, found, rfl, enters, asked⟩
    | folder inner =>
      obtain ⟨-, own⟩ := Option.ite_none_right_eq_some.mp own
      cases own
      cases taken
  · rintro ⟨place, found, rfl, enters, asked⟩
    exact ⟨_, (mem_steps proper).mpr ⟨place, _, found, enters, if_pos asked⟩, rfl⟩

/-- **A search takes no path twice.** -/
theorem nodup_files (proper : t.Proper) (root : Text) (extensions : List Text) (path entry : Text) :
    (((steps root extensions path entry t).filterMap Step.file?).map Prod.fst).Nodup := by
  induction proper generalizing path entry with
  | file content =>
    rw [steps]
    split
    · exact List.nodup_singleton _
    · exact List.nodup_nil
  | @folder entries named distinct inner ih =>
    rw [steps]
    split
    · rw [List.filterMap_cons_none rfl, stepsIn_eq, List.filterMap_flatMap, List.map_flatMap,
        List.nodup_flatMap]
      refine ⟨fun e listed => ih e listed _ _, ?_⟩
      refine List.Pairwise.imp_of_mem ?_ distinct
      intro e e' listed listed' ne
      refine List.disjoint_left.mpr ?_
      intro file here here'
      obtain ⟨⟨_, content⟩, mem, rfl⟩ := List.mem_map.mp here
      obtain ⟨⟨_, content'⟩, mem', eq⟩ := List.mem_map.mp here'
      obtain ⟨place, found, rfl, -⟩ := (mem_files (inner e listed)).mp mem
      obtain ⟨place', found', rfl, -⟩ := (mem_files (inner e' listed')).mp mem'
      -- Both paths show all names from the folder on, and the first of these differ.
      have down := Path.names_foldl path
        (List.forall_mem_cons.mpr ⟨named e listed, ((inner e listed).at? found).2⟩)
      have down' := Path.names_foldl path
        (List.forall_mem_cons.mpr ⟨named e' listed', ((inner e' listed').at? found').2⟩)
      rw [List.foldl_cons] at down down'
      rw [show (place'.foldl Path.join (Path.join path e'.1)) = _ from eq, down] at down'
      exact ne (List.cons.inj (List.append_cancel_left down')).1
    · exact List.nodup_nil

/-- **What decides about folders below the start is whether their names are hidden.** -/
theorem enters_iff (root : Text) {above : List Text} (named : ∀ n ∈ above, Path.IsName n) :
    (∀ front, front <+: above → enters root (front.foldl Path.join root) = true) ↔
      ∀ n ∈ above, n.head? ≠ some (Text.byte '.') := by
  have below : ∀ front n, (front ++ [n]) <+: above →
      (enters root ((front ++ [n]).foldl Path.join root) = true ↔ n.head? ≠ some (Text.byte '.')) := by
    intro front n begins
    have down : ∀ x ∈ front ++ [n], Path.IsName x := fun x mem => named x (begins.subset mem)
    have other : (front ++ [n]).foldl Path.join root ≠ root :=
      Path.foldl_join_ne (List.concat_ne_nil n front) down
    rw [enters, Path.lastName_foldl root down, decide_eq_false other, Bool.false_or,
      Bool.not_eq_true', isHidden, decide_eq_false_iff_not]
  constructor
  · intro all n mem
    obtain ⟨front, rest, split⟩ := List.append_of_mem mem
    have begins : (front ++ [n]) <+: above := ⟨rest, by rw [split]; simp⟩
    exact (below front n begins).mp (all _ begins)
  · intro plain front begins
    rcases List.eq_nil_or_concat front with rfl | ⟨front, n, rfl⟩
    · simp [enters]
    · rw [List.concat_eq_append] at begins ⊢
      exact (below front n begins).mpr (plain n (begins.subset (by simp)))

/-- On the way to an entry, the folders that are entered are those above it. -/
theorem enters_above_iff {above : List Text} {name : Text} :
    (∀ front, front <+: above ++ [name] → front ≠ above ++ [name] →
      enters root (front.foldl Path.join root) = true) ↔
        ∀ front, front <+: above → enters root (front.foldl Path.join root) = true := by
  constructor
  · intro all front begins
    refine all front (begins.trans (List.prefix_append _ _)) fun same => ?_
    have shorter := begins.length_le
    rw [same, List.length_append] at shorter
    simp at shorter
  · intro all front begins proper
    exact all front ((List.prefix_concat_iff.mp begins).resolve_left proper)

theorem matchesAny_iff {path : Text} : matchesAny extensions path = true ↔
    extensions = [] ∨ ∃ ext ∈ extensions, Path.HasExtension (Path.lastName path) ext := by
  rw [matchesAny, Bool.or_eq_true, List.isEmpty_iff, List.contains_iff_mem]
  apply or_congr_right
  constructor
  · intro mem
    exact ⟨_, mem, Path.extension_eq_iff.mp rfl⟩
  · rintro ⟨ext, mem, has⟩
    rw [Path.extension_eq_iff.mpr has]
    exact mem

/-- **A file that a search is to find**, by its place below the start: no folder on the way to it has a
name that starts with a dot, and its name has one of the extensions, or none is asked for. -/
structure Visible (extensions : List Text) (t : FileTree) (above : List Text) (name content : Text) :
    Prop where
  stands : t.at? (above ++ [name]) = some (.file content)
  shown : ∀ folder ∈ above, folder.head? ≠ some (Text.byte '.')
  asked : extensions = [] ∨ ∃ ext ∈ extensions, Path.HasExtension name ext

/-- **The visible files are those for which there is a step** in a search that starts at the tree. -/
theorem visible_iff (proper : t.Proper) (root : Text) {above : List Text} {name content : Text} :
    Visible extensions t above name content ↔
      t.at? (above ++ [name]) = some (.file content) ∧
      (∀ front, front <+: above ++ [name] → front ≠ above ++ [name] →
        enters root (front.foldl Path.join root) = true) ∧
      matchesAny extensions ((above ++ [name]).foldl Path.join root) = true := by
  constructor
  · rintro ⟨stands, shown, asked⟩
    have named := (proper.at? stands).2
    rw [enters_above_iff, enters_iff root (List.forall_mem_append.mp named).1, matchesAny_iff,
      Path.lastName_foldl root named]
    exact ⟨stands, shown, asked⟩
  · rintro ⟨stands, entered, asked⟩
    have named := (proper.at? stands).2
    rw [enters_above_iff, enters_iff root (List.forall_mem_append.mp named).1] at entered
    rw [matchesAny_iff, Path.lastName_foldl root named] at asked
    exact ⟨stands, entered, asked⟩

/-! ## Steps on a disk -/

variable {d : Disk}

/-- **Steps are made up to the first that fails.** -/
theorem exists_performed (d : Disk) (ss : List Step) : ∃ made left, ss = made ++ left ∧
    (perform d ss).1 = made.filterMap Step.file? ∧ (∀ s ∈ made, s.failure? d = none) ∧
      (left = [] ∧ (perform d ss).2 = none ∨
        ∃ s rest e, left = s :: rest ∧ s.failure? d = some e ∧ (perform d ss).2 = some e) := by
  induction ss with
  | nil => exact ⟨[], [], rfl, rfl, List.forall_mem_nil _, .inl ⟨rfl, rfl⟩⟩
  | cons s ss ih =>
    cases failed : s.failure? d with
    | some e =>
      refine ⟨[], s :: ss, rfl, ?_, List.forall_mem_nil _, .inr ⟨s, ss, e, rfl, failed, ?_⟩⟩
      · rw [perform, failed]
        rfl
      · rw [perform, failed]
    | none =>
      obtain ⟨made, left, rfl, taken, sound, ended⟩ := ih
      refine ⟨s :: made, left, rfl, ?_, List.forall_mem_cons.mpr ⟨failed, sound⟩, ?_⟩
      · rw [perform, failed]
        simp only [taken]
        cases file : s.file? with
        | none => rw [List.filterMap_cons_none file]; rfl
        | some f => rw [List.filterMap_cons_some file]; rfl
      · rw [perform, failed]
        exact ended

/-- What is taken comes first among what there is to take. -/
theorem perform_files (d : Disk) (ss : List Step) :
    (perform d ss).1 <+: ss.filterMap Step.file? := by
  obtain ⟨made, left, rfl, taken, -⟩ := exists_performed d ss
  rw [taken, List.filterMap_append]
  exact List.prefix_append _ _

/-- Nothing ends the steps exactly if none of them fails. -/
theorem perform_failure_eq_none_iff {ss : List Step} :
    (perform d ss).2 = none ↔ ∀ e, ¬ ∃ s ∈ ss, s.failure? d = some e := by
  obtain ⟨made, left, rfl, -, sound, ⟨rfl, none⟩ | ⟨s, rest, e, rfl, failed, some⟩⟩ :=
    exists_performed d ss
  · rw [List.append_nil] at none ⊢
    refine ⟨?_, fun _ => none⟩
    rintro - e ⟨s, mem, failed⟩
    rw [sound s mem] at failed
    cases failed
  · rw [some]
    exact ⟨nofun, fun free => absurd ⟨s, by simp, failed⟩ (free e)⟩

/-- What ends the steps is the failure of one of them. -/
theorem exists_failed {ss : List Step} {e : FileError} (ended : (perform d ss).2 = some e) :
    ∃ s ∈ ss, s.failure? d = some e := by
  obtain ⟨made, left, rfl, -, -, ⟨-, none⟩ | ⟨s, rest, e', rfl, failed, some⟩⟩ := exists_performed d ss
  · rw [none] at ended
    cases ended
  · rw [some] at ended
    cases ended
    exact ⟨s, by simp, failed⟩

theorem perform_files_of_sound {ss : List Step} (sound : (perform d ss).2 = none) :
    (perform d ss).1 = ss.filterMap Step.file? := by
  obtain ⟨made, left, rfl, taken, -, ⟨rfl, -⟩ | ⟨s, rest, e, -, -, some⟩⟩ := exists_performed d ss
  · rw [List.append_nil] at taken ⊢
    exact taken
  · rw [some] at sound
    cases sound

/-- **What may end a search** through a tree: a folder on its way that cannot be listed, and a file that
it is to find and that cannot be looked at, each with the call and the path. -/
inductive Hindrance (d : Disk) (root : Text) (extensions : List Text) (t : FileTree) : FileError → Prop
  | folder {above : List Text} {inner : List (Text × FileTree)} {fault : FileFault} :
      t.at? above = some (.folder inner) → (∀ n ∈ above, n.head? ≠ some (Text.byte '.')) →
      d.openPlace (above.foldl Path.join root) = .error fault →
      Hindrance d root extensions t ⟨.opening, above.foldl Path.join root, fault⟩
  | file {above : List Text} {name content : Text} {fault : FileFault} :
      Visible extensions t above name content →
      d.get (above.foldl Path.join root ++ Path.slash :: name) = .error fault →
      Hindrance d root extensions t ⟨.entering, above.foldl Path.join root ++ Path.slash :: name, fault⟩

theorem list_failure?_iff {folder : Text} {e : FileError} : (Step.list folder).failure? d = some e ↔
    ∃ fault, d.openPlace folder = .error fault ∧ e = ⟨.opening, folder, fault⟩ := by
  rw [Step.failure?]
  cases d.openPlace folder with
  | ok place => exact ⟨nofun, nofun⟩
  | error fault => simp [eq_comm]

theorem take_failure?_iff {file content : Text} {e : FileError} :
    (Step.take file entry content).failure? d = some e ↔
      ∃ fault, d.get entry = .error fault ∧ e = ⟨.entering, entry, fault⟩ := by
  rw [Step.failure?, Disk.inspect]
  cases d.get entry with
  | ok sub => exact ⟨nofun, nofun⟩
  | error fault => simp [eq_comm]

/-- **The failures of steps are the hindrances** that there are in the tree. -/
theorem hindrance_iff (proper : t.Proper) (isFolder : t.isFolder = true) {e : FileError} :
    (∃ s ∈ steps root extensions root root t, s.failure? d = some e) ↔
      Hindrance d root extensions t e := by
  constructor
  · rintro ⟨s, mem, failed⟩
    obtain ⟨place, sub, found, enters, own⟩ := (mem_steps proper).mp mem
    have named := (proper.at? found).2
    cases sub with
    | folder inner =>
      obtain ⟨entered, own⟩ := Option.ite_none_right_eq_some.mp own
      cases own
      obtain ⟨fault, closed, rfl⟩ := list_failure?_iff.mp failed
      refine .folder found ((enters_iff root named).mp fun front begins => ?_) closed
      by_cases whole : front = place
      · rw [whole]
        exact entered
      · exact enters front begins whole
    | file content =>
      obtain ⟨asked, own⟩ := Option.ite_none_right_eq_some.mp own
      cases own
      rcases List.eq_nil_or_concat' place with rfl | ⟨above, name, rfl⟩
      · cases found
        cases isFolder
      · rw [entryAt_concat, take_failure?_iff] at failed
        obtain ⟨fault, closed, rfl⟩ := failed
        exact .file ((visible_iff proper root).mpr ⟨found, enters, asked⟩) closed
  · intro hindrance
    cases hindrance with
    | @folder above inner fault found shown closed =>
      have entered := (enters_iff root (proper.at? found).2).mpr shown
      refine ⟨_, (mem_steps proper).mpr ⟨above, _, found, fun front begins _ => entered front begins,
        if_pos (entered above List.prefix_rfl)⟩, ?_⟩
      exact list_failure?_iff.mpr ⟨fault, closed, rfl⟩
    | @file above name content fault visible closed =>
      obtain ⟨stands, entered, asked⟩ := (visible_iff proper root).mp visible
      refine ⟨_, (mem_steps proper).mpr ⟨above ++ [name], _, stands, entered, if_pos asked⟩, ?_⟩
      rw [entryAt_concat]
      exact take_failure?_iff.mpr ⟨fault, closed, rfl⟩

section Below

variable {base above : List Text} {name : Text} (located : d.locate root = .ok base)
include located

theorem exists_openPlace_iff (there : d.root.at? (base ++ above) = some t)
    (named : ∀ n ∈ above, Path.IsName n) :
    (∃ q, d.openPlace (above.foldl Path.join root) = .ok q) ↔
      d.Reaches base above (above.foldl Path.join root) ∧
        d.forbids .opening (base ++ above) = false := by
  simp only [Disk.openPlace_eq_ok, Disk.locate_foldl located there named]
  constructor
  · rintro ⟨_, ⟨rfl, reaches⟩, free⟩
    exact ⟨reaches, free⟩
  · rintro ⟨reaches, free⟩
    exact ⟨_, ⟨rfl, reaches⟩, free⟩

theorem exists_get_iff (there : d.root.at? (base ++ (above ++ [name])) = some t)
    (named : ∀ n ∈ above ++ [name], Path.IsName n) :
    (∃ sub, d.get (above.foldl Path.join root ++ Path.slash :: name) = .ok sub) ↔
      d.Reaches base (above ++ [name]) (above.foldl Path.join root ++ Path.slash :: name) := by
  simp only [Disk.get_eq_ok, Disk.locate_entry located there named]
  constructor
  · rintro ⟨_, _, ⟨rfl, reaches⟩, -⟩
    exact reaches
  · intro reaches
    exact ⟨_, _, ⟨rfl, reaches⟩, there⟩

end Below

/-- **Whether a search gets through** the tree at a place, which it knows by the path `root`: each folder
that is not hidden can be reached and listed, and each file that it is to find can be looked at. -/
structure Searchable (d : Disk) (root : Text) (base : List Text) (extensions : List Text)
    (t : FileTree) : Prop where
  folders : ∀ above inner, t.at? above = some (.folder inner) →
    (∀ n ∈ above, n.head? ≠ some (Text.byte '.')) →
      d.Reaches base above (above.foldl Path.join root) ∧ d.forbids .opening (base ++ above) = false
  files : ∀ above name content, Visible extensions t above name content →
    d.Reaches base (above ++ [name]) (above.foldl Path.join root ++ Path.slash :: name)

/-- **Nothing hinders a search exactly if it gets through.** -/
theorem searchable_iff {base : List Text} (proper : t.Proper) (located : d.locate root = .ok base)
    (there : d.root.at? base = some t) :
    (∀ e, ¬ Hindrance d root extensions t e) ↔ Searchable d root base extensions t := by
  have below {place : List Text} {sub : FileTree} (found : t.at? place = some sub) :
      d.root.at? (base ++ place) = some sub := by
    rw [FileTree.at?_append, there]
    exact found
  constructor
  · intro free
    constructor
    · intro above inner found shown
      rw [← exists_openPlace_iff located (below found) (proper.at? found).2]
      cases opened : d.openPlace (above.foldl Path.join root) with
      | ok q => exact ⟨q, rfl⟩
      | error fault => exact absurd (.folder found shown opened) (free _)
    · intro above name content visible
      rw [← exists_get_iff located (below visible.stands) (proper.at? visible.stands).2]
      cases seen : d.get (above.foldl Path.join root ++ Path.slash :: name) with
      | ok sub => exact ⟨sub, rfl⟩
      | error fault => exact absurd (.file visible seen) (free _)
  · intro searchable e hindrance
    cases hindrance with
    | folder found shown closed =>
      obtain ⟨q, opened⟩ := (exists_openPlace_iff located (below found) (proper.at? found).2).mpr
        (searchable.folders _ _ found shown)
      rw [closed] at opened
      cases opened
    | file visible closed =>
      obtain ⟨sub, seen⟩ := (exists_get_iff located (below visible.stands)
        (proper.at? visible.stands).2).mpr (searchable.files _ _ _ visible)
      rw [closed] at seen
      cases seen

/-! ## Searches -/

/-- The order of paths is an order on what is found. -/
theorem pairwise_sorted {found : List (Text × Text)} (distinct : (found.map Prod.fst).Nodup) :
    (found.mergeSort fun a b => Text.atOrBefore a.1 b.1).Pairwise fun a b => a.1 < b.1 := by
  have sorted : (found.mergeSort fun a b => Text.atOrBefore a.1 b.1).Pairwise
      fun a b => Text.atOrBefore a.1 b.1 = true := by
    apply List.pairwise_mergeSort
    · intro a b c before behind
      exact decide_eq_true (List.le_trans (of_decide_eq_true before) (of_decide_eq_true behind))
    · intro a b
      rw [Bool.or_eq_true, Text.atOrBefore, Text.atOrBefore, decide_eq_true_eq, decide_eq_true_eq]
      exact List.le_total a.1 b.1
  have apart : (found.mergeSort fun a b => Text.atOrBefore a.1 b.1).Pairwise fun a b => a.1 ≠ b.1 := by
    rw [← List.pairwise_map]
    exact ((List.mergeSort_perm _ _).map Prod.fst).nodup_iff.mpr distinct
  refine (sorted.and apart).imp ?_
  rintro a b ⟨le, ne⟩
  exact Std.lt_of_le_of_ne (of_decide_eq_true le) ne

/-- What there is to take are the visible files. -/
theorem mem_files_iff (proper : t.Proper) (isFolder : t.isFolder = true) {file content : Text} :
    (file, content) ∈ (steps root extensions root root t).filterMap Step.file? ↔ ∃ above name,
      Visible extensions t above name content ∧
        file = Path.join root (Text.join [Path.slash] (above ++ [name])) := by
  rw [mem_files proper]
  constructor
  · rintro ⟨place, found, rfl, entered, asked⟩
    rcases List.eq_nil_or_concat' place with rfl | ⟨above, name, rfl⟩
    · cases found
      cases isFolder
    · exact ⟨above, name, (visible_iff proper root).mpr ⟨found, entered, asked⟩,
        Path.foldl_join root (List.concat_ne_nil _ _) (proper.at? found).2⟩
  · rintro ⟨above, name, visible, rfl⟩
    obtain ⟨stands, entered, asked⟩ := (visible_iff proper root).mp visible
    rw [← Path.foldl_join root (List.concat_ne_nil _ _) (proper.at? stands).2]
    exact ⟨above ++ [name], stands, rfl, entered, asked⟩

/-- **A search finds the visible files with the right extensions, each once and in order.** Take a tree
of files, a path to one of its folders, and extensions. The search gives paths in strictly ascending
order, each of a file that stands below the folder, with no folder on the way down to it whose name
starts with a dot, and with one of the extensions, unless none is given. Nothing is asked of the name of
the folder itself, nor of a dot at the start of a file's name. The search for paths alone gives the same
ones in the same order.

The search gets through exactly if every folder that it comes to can be listed and every file that it is
to find can be looked at, and then it gives all these files. Otherwise it tells what has ended it. -/
theorem finds_visible {d : Disk} {entries : List (Text × FileTree)} (proper : d.root.Proper)
    (there : d.get root = .ok (.folder entries)) (extensions : List Text) :
    ∃ base found failure, d.locate root = .ok base ∧
      files d root extensions = (found, failure) ∧
      paths d root extensions = (found.map (·.1), failure) ∧
      found.Pairwise (fun a b => a.1 < b.1) ∧
      (∀ path content, (path, content) ∈ found → ∃ above name,
        Visible extensions (.folder entries) above name content ∧
          path = Path.join root (Text.join [Path.slash] (above ++ [name]))) ∧
      (failure = none ↔ Searchable d root base extensions (.folder entries)) ∧
      (failure = none → ∀ above name content,
        Visible extensions (.folder entries) above name content →
          (Path.join root (Text.join [Path.slash] (above ++ [name])), content) ∈ found) ∧
      ∀ e, failure = some e → Hindrance d root extensions (.folder entries) e := by
  obtain ⟨base, located, stands⟩ := Disk.get_eq_ok.mp there
  have inner : (FileTree.folder entries).Proper := (proper.at? stands).1
  have searched : files d root extensions =
      ((perform d (steps root extensions root root (.folder entries))).1.mergeSort
        fun a b => Text.atOrBefore a.1 b.1,
      (perform d (steps root extensions root root (.folder entries))).2) := by
    rw [files, Disk.inspect, there]
  have taken := perform_files d (steps root extensions root root (.folder entries))
  refine ⟨base, _, _, located, searched, by rw [paths, searched], ?_, ?_, ?_, ?_, ?_⟩
  · refine pairwise_sorted (List.Nodup.sublist (taken.sublist.map Prod.fst) ?_)
    exact nodup_files inner root extensions root root
  · intro path content mem
    exact (mem_files_iff inner rfl).mp (taken.subset (List.mem_mergeSort.mp mem))
  · rw [perform_failure_eq_none_iff, ← searchable_iff inner located stands]
    simp only [hindrance_iff inner rfl]
  · intro sound above name content visible
    rw [List.mem_mergeSort, perform_files_of_sound sound]
    exact (mem_files_iff inner rfl).mpr ⟨above, name, visible, rfl⟩
  · intro e ended
    exact (hindrance_iff inner rfl).mp (exists_failed ended)

/-- A search that starts at a hidden folder: it finds a hidden file, and not the file in a hidden
folder, which it would not be allowed to list. The file `a.teal` comes before that in the folder `a`,
which the search meets first. If the folder `a` may not be listed, the search fails there. -/
theorem finds_visible_hidden :
    let inside : List (Text × FileTree) :=
      [(Text.ofString ".g", .folder [(Text.ofString "x.teal", .file [])]),
       (Text.ofString ".y.teal", .file [1]),
       (Text.ofString "a", .folder [(Text.ofString "x.teal", .file [2])]),
       (Text.ofString "a.teal", .file [3])]
    let d : Disk := {
      root := .folder [(Text.ofString ".h", .folder inside)]
      forbidden := [(.opening, [Text.ofString ".h", Text.ofString ".g"])] }
    let root := Text.ofString ".h/"
    d.root.Proper ∧ d.get root = .ok (.folder inside) ∧
    (∃ found, files d root [Text.ofString ".teal"] = (found, none) ∧
      found.Pairwise (fun a b => a.1 < b.1) ∧
      (Text.ofString ".h/.y.teal", [1]) ∈ found ∧ (Text.ofString ".h/a.teal", [3]) ∈ found ∧
      (Text.ofString ".h/a/x.teal", [2]) ∈ found ∧ (Text.ofString ".h/.g/x.teal", []) ∉ found) ∧
    let closed : Disk := { d with forbidden := [(.opening, [Text.ofString ".h", Text.ofString "a"])] }
    ∃ found, files closed root [Text.ofString ".teal"] =
        (found, some ⟨.opening, Text.ofString ".h/a", .denied⟩) ∧
      ¬ Searchable closed root [Text.ofString ".h"] [Text.ofString ".teal"] (.folder inside) := by
  intro inside d root
  have single : ∀ content, (FileTree.folder [(Text.ofString "x.teal", .file content)]).Proper := by
    intro content
    have named : Path.IsName (Text.ofString "x.teal") := by decide
    refine .folder ?_ (List.pairwise_singleton _ _) ?_
    · exact List.forall_mem_singleton.mpr named
    · exact List.forall_mem_singleton.mpr (.file content)
  have inner : (FileTree.folder inside).Proper := by
    refine .folder (by decide) (by decide) ?_
    simp only [inside, List.forall_mem_cons]
    exact ⟨single [], .file _, single [2], .file _, List.forall_mem_nil _⟩
  have proper : d.root.Proper := by
    refine .folder ?_ (List.pairwise_singleton _ _) (List.forall_mem_singleton.mpr inner)
    exact List.forall_mem_singleton.mpr (by decide)
  have there : d.get root = .ok (.folder inside) := rfl
  have extension : ∀ stem, Path.HasExtension (stem ++ Text.ofString ".teal") (Text.ofString ".teal") :=
    fun stem => .inr ⟨stem, Text.ofString "teal", rfl, by decide, rfl⟩
  have asked : ∀ stem, [Text.ofString ".teal"] = [] ∨ ∃ ext ∈ [Text.ofString ".teal"],
      Path.HasExtension (stem ++ Text.ofString ".teal") ext :=
    fun stem => .inr ⟨_, List.mem_singleton.mpr rfl, extension stem⟩
  refine ⟨proper, there, ?_, ?_⟩
  · obtain ⟨base, found, failure, -, searched, -, ascending, sound, -, complete, -⟩ :=
      finds_visible proper there [Text.ofString ".teal"]
    have through : (files d root [Text.ofString ".teal"]).2 = none := by decide +kernel
    rw [searched] at through
    subst through
    have all := complete rfl
    refine ⟨found, searched, ascending, ?_, ?_, ?_, ?_⟩
    · exact all [] (Text.ofString ".y.teal") [1] ⟨rfl, List.forall_mem_nil _, asked (Text.ofString ".y")⟩
    · exact all [] (Text.ofString "a.teal") [3] ⟨rfl, List.forall_mem_nil _, asked (Text.ofString "a")⟩
    · exact all [Text.ofString "a"] (Text.ofString "x.teal") [2]
        ⟨rfl, List.forall_mem_singleton.mpr (by decide), asked (Text.ofString "x")⟩
    · intro mem
      obtain ⟨above, name, visible, path⟩ := sound _ _ mem
      have shown := Path.names_join root (List.concat_ne_nil name above) (inner.at? visible.stands).2
      rw [← path, show Path.names (Text.ofString ".h/.g/x.teal") =
        Path.names root ++ ([Text.ofString ".g"] ++ [Text.ofString "x.teal"]) by decide] at shown
      obtain ⟨rfl, -⟩ := List.append_inj' (List.append_cancel_left shown) rfl
      exact visible.shown _ (List.mem_singleton.mpr rfl) (by decide)
  · intro closed
    have there : closed.get root = .ok (.folder inside) := rfl
    have proper : closed.root.Proper := proper
    obtain ⟨base, found, failure, located, searched, -, -, -, through, -⟩ :=
      finds_visible proper there [Text.ofString ".teal"]
    have ended : (files closed root [Text.ofString ".teal"]).2 =
        some ⟨.opening, Text.ofString ".h/a", .denied⟩ := by decide +kernel
    rw [searched] at ended
    subst ended
    cases located
    exact ⟨found, searched, fun searchable => Option.some_ne_none _ (through.mpr searchable)⟩

end Scan

end TealAudit
