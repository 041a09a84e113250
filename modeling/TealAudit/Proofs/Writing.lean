import TealAudit.Disk
import TealAudit.Proofs.Cleaning

/-!
# What a write leaves of a disk

A path is followed name by name through folders, so two facts are needed to read a file after others
were written: the folders on its way are still there, and nothing was written at its own place.

`FileTree.set_spec` says what a new file does to every place of a tree: its own place has the file,
files at other places stay, and folders stay folders with the names they had. What is forbidden stays
forbidden, and nothing else is. Hence a way that could be followed still can, and leads to the same
place (`Disk.Keeps.follow`).

A path at which a file may be written ends in a single name (`Disk.exists_name`), and the file may be
opened there, so what is written is read (`Disk.read_of_write`).

**A name in a folder** (`Path.join_eq`): with a folder, a single name joins to a path that is
followed as the folder is and then by the name. So the files that are written under different names
into one folder, however the folder is spelled, do not touch each other (`Disk.read_write`).
-/

namespace TealAudit

/-! ## Trees -/

namespace FileTree

/-- Whether a folder has an entry of a name. -/
def Lists (entries : List (Text × FileTree)) (name : Text) : Prop :=
  (entries.find? fun e => e.1 = name).isSome = true

/-- **What stands at a place stays**: a file with its content, a folder with its names. -/
structure Stays (t t' : FileTree) (place : List Text) : Prop where
  file : ∀ content, t.at? place = some (file content) → t'.at? place = some (file content)
  folder : ∀ entries, t.at? place = some (folder entries) →
    ∃ entries', t'.at? place = some (folder entries') ∧
      ∀ name, Lists entries name → Lists entries' name

theorem Stays.of_eq {t t' : FileTree} {place : List Text} (same : t'.at? place = t.at? place) :
    Stays t t' place :=
  ⟨fun _ found => same.trans found, fun entries found => ⟨entries, same.trans found, fun _ => id⟩⟩

theorem Stays.of_none {t : FileTree} {place : List Text} (nothing : t.at? place = none)
    (t' : FileTree) : Stays t t' place := by
  constructor
  · intro content found
    rw [nothing] at found
    cases found
  · intro entries found
    rw [nothing] at found
    cases found

theorem at?_cons (entries : List (Text × FileTree)) (name : Text) (rest : List Text) :
    (folder entries).at? (name :: rest) =
      ((entries.find? fun e => e.1 = name).map (·.2)).bind fun t => t.at? rest := by
  rw [at?, Option.bind_map]
  rfl

theorem at?_insertEntry (key : Text) (t : FileTree) (entries : List (Text × FileTree)) (name : Text)
    (rest : List Text) :
    (folder (Dict.insertEntry key t entries)).at? (name :: rest) =
      if name = key then t.at? rest else (folder entries).at? (name :: rest) := by
  rw [at?_cons, at?_cons, Dict.find?_insertEntry]
  split
  · rfl
  · rfl

theorem Stays.top (key : Text) (t : FileTree) (entries : List (Text × FileTree)) :
    Stays (FileTree.folder entries) (FileTree.folder (Dict.insertEntry key t entries)) [] := by
  constructor
  · intro content found
    cases found
  · intro entries' found
    cases found
    refine ⟨_, rfl, fun name listed => ?_⟩
    unfold Lists at listed ⊢
    rw [Dict.find?_insertEntry]
    split
    · rfl
    · exact listed

/-- Below a place without a folder there is nothing. -/
theorem at?_below {t : FileTree} (free : ∀ entries, t ≠ folder entries) (name : Text)
    (rest : List Text) : t.at? (name :: rest) = none := by
  cases t with
  | file content => rfl
  | folder entries => exact absurd rfl (free entries)

/-- **A file that is set in a folder**, where there is no folder of its name: it is there, and what
stands at other places stays. -/
theorem set_spec {t : FileTree} {parent : List Text} {name : Text}
    (inFolder : ∃ entries, t.at? parent = some (folder entries))
    (free : ∀ entries, t.at? (parent ++ [name]) ≠ some (folder entries)) (content : Text) :
    (t.set (parent ++ [name]) (file content)).at? (parent ++ [name]) = some (file content) ∧
    ∀ place ≠ parent ++ [name], Stays t (t.set (parent ++ [name]) (file content)) place := by
  induction parent generalizing t with
  | nil =>
    obtain ⟨entries, top⟩ := inFolder
    cases top
    rw [List.nil_append] at free ⊢
    simp only [set]
    refine ⟨by rw [at?_insertEntry, if_pos rfl]; rfl, fun place other => ?_⟩
    cases place with
    | nil => exact .top name _ entries
    | cons k rest =>
      by_cases same : k = name
      · subst same
        -- Below the new file there was nothing, for what stood at its place was no folder.
        refine .of_none ?_ _
        rw [at?_cons] at free ⊢
        cases found : (entries.find? fun e => e.1 = k).map (·.2) with
        | none => rfl
        | some old =>
          rw [found] at free
          cases rest with
          | nil => exact absurd rfl other
          | cons next rest => exact at?_below (fun inner eq => free inner (by rw [eq]; rfl)) next rest
      · exact .of_eq (by rw [at?_insertEntry, if_neg same])
  | cons first parent ih =>
    obtain ⟨inner, found⟩ := inFolder
    cases t with
    | file old => cases found
    | folder entries =>
      rw [List.cons_append] at free ⊢
      rw [at?_cons] at found
      obtain ⟨sub, entered, found⟩ := Option.bind_eq_some_iff.mp found
      have through : ∀ place, (folder entries).at? (first :: place) = sub.at? place := by
        intro place
        rw [at?_cons, entered]
        rfl
      rw [through] at free
      obtain ⟨here, elsewhere⟩ := ih ⟨inner, found⟩ free
      simp only [set, entered, Option.getD_some]
      refine ⟨by rw [at?_insertEntry, if_pos rfl, here], fun place other => ?_⟩
      cases place with
      | nil => exact .top first _ entries
      | cons k rest =>
        by_cases same : k = first
        · subst same
          have stays := elsewhere rest fun eq => other (by rw [eq])
          refine ⟨fun content found => ?_, fun entries' found => ?_⟩
          · rw [at?_insertEntry, if_pos rfl]
            exact stays.file content (through rest ▸ found)
          · rw [at?_insertEntry, if_pos rfl]
            exact stays.folder entries' (through rest ▸ found)
        · exact .of_eq (by rw [at?_insertEntry, if_neg same])

theorem at?_append (t : FileTree) (front rest : List Text) :
    t.at? (front ++ rest) = (t.at? front).bind fun t => t.at? rest := by
  induction front generalizing t with
  | nil => rw [List.nil_append, at?, Option.bind_some]
  | cons name front ih =>
    cases t with
    | file content => rfl
    | folder entries =>
      rw [List.cons_append, at?_cons, at?_cons, Option.bind_assoc]
      congr 1
      funext sub
      exact ih sub

theorem lists_iff {entries : List (Text × FileTree)} {name : Text} :
    Lists entries name ↔ (entries.any fun e => e.1 = name) = true := by
  unfold Lists
  rw [List.find?_isSome, List.any_eq_true]

/-- What stands under a name stands in a folder that has the name. -/
theorem lists_of_at? {t old : FileTree} {place : List Text} {name : Text}
    (found : t.at? (place ++ [name]) = some old) :
    ∃ entries, t.at? place = some (folder entries) ∧ Lists entries name := by
  rw [at?_append] at found
  obtain ⟨above, eq, found⟩ := Option.bind_eq_some_iff.mp found
  cases above with
  | file content => cases found
  | folder entries =>
    rw [at?_cons] at found
    obtain ⟨sub, entered, -⟩ := Option.bind_eq_some_iff.mp found
    obtain ⟨entry, first, -⟩ := Option.map_eq_some_iff.mp entered
    exact ⟨entries, eq, by rw [Lists, first]; rfl⟩

theorem no_folder_of_any {t : FileTree} {place : List Text} {name : Text}
    {entries : List (Text × FileTree)} (found : t.at? place = some (folder entries))
    (free : ¬ (entries.any fun e => e.1 = name && e.2.isFolder) = true) :
    ∀ inner, t.at? (place ++ [name]) ≠ some (folder inner) := by
  intro inner here
  rw [at?_append, found, Option.bind_some, at?_cons] at here
  obtain ⟨sub, entered, here⟩ := Option.bind_eq_some_iff.mp here
  obtain ⟨entry, first, rfl⟩ := Option.map_eq_some_iff.mp entered
  rw [at?, Option.some.injEq] at here
  refine free (List.any_eq_true.mpr ⟨entry, List.mem_of_find?_eq_some first, ?_⟩)
  rw [here, List.find?_some first]
  rfl

end FileTree

/-! ## Disks -/

namespace Disk

open FileTree (Lists)

variable {d d' : Disk} {path name content : Text} {front place : List Text}

/-- **Folders stay**: at their places, with the names they have, and under the same rules. -/
structure Keeps (d d' : Disk) : Prop where
  folders : ∀ place entries, d.root.at? place = some (.folder entries) →
    ∃ entries', d'.root.at? place = some (.folder entries') ∧
      ∀ name, Lists entries name → Lists entries' name
  rules : d'.forbidden = d.forbidden

theorem Keeps.forbids (keeps : Keeps d d') (access : Access) (place : List Text) :
    d'.forbids access place = d.forbids access place := by
  unfold Disk.forbids
  rw [keeps.rules]

theorem follow_append (d : Disk) (place front rest : List Text) :
    d.follow place (front ++ rest) = d.follow place front >>= fun place => d.follow place rest := by
  induction front generalizing place with
  | nil => rfl
  | cons name front ih =>
    rw [List.cons_append, follow, follow]
    split
    · split
      · exact ih place
      · split
        · rfl
        · split
          · exact ih place
          · split
            · exact ih place.dropLast
            · split
              · rfl
              · split
                · exact ih (place ++ [name])
                · rfl
    · rfl
    · rfl

/-- **One name on the way**: an empty one stays; where names may be looked up, a name stays, goes up, or
goes down to an entry. -/
theorem follow_cons {rest q : List Text} : d.follow place (name :: rest) = .ok q ↔
    ∃ entries, d.root.at? place = some (.folder entries) ∧
      (name = [] ∧ d.follow place rest = .ok q ∨
        d.forbids .passing place = false ∧
          (name = Path.dot ∧ d.follow place rest = .ok q ∨
            name = Path.dotDot ∧ d.follow place.dropLast rest = .ok q ∨
            name ≠ [] ∧ name ≠ Path.dot ∧ name ≠ Path.dotDot ∧ name.length ≤ longestName ∧
              Lists entries name ∧ d.follow (place ++ [name]) rest = .ok q)) := by
  rw [follow]
  cases d.root.at? place with
  | none => exact ⟨nofun, nofun⟩
  | some t =>
    cases t with
    | file old => exact ⟨nofun, nofun⟩
    | folder entries =>
      simp only [List.isEmpty_iff, Option.some.injEq, FileTree.folder.injEq, exists_eq_left',
        FileTree.lists_iff]
      split_ifs with empty denied stays up long listed
      · subst empty
        constructor
        · exact fun led => .inl ⟨rfl, led⟩
        · rintro (⟨-, led⟩ | ⟨-, ⟨named, -⟩ | ⟨named, -⟩ | ⟨filled, -⟩⟩)
          · exact led
          · exact absurd named (by decide)
          · exact absurd named (by decide)
          · exact absurd rfl filled
      · simp [empty, denied]
      · subst stays
        simp [denied, show Path.dot ≠ [] by decide, show Path.dot ≠ Path.dotDot by decide]
      · subst up
        simp [denied, stays, empty]
      · simp [empty, stays, up, Nat.not_le.mpr long]
      · simp [empty, denied, stays, up, Nat.not_lt.mp long, listed]
      · simp [empty, stays, up, listed]

/-- **A way that can be followed still can**, as long as folders stay. -/
theorem Keeps.follow (keeps : Keeps d d') {names : List Text} {q : List Text}
    (led : d.follow place names = .ok q) : d'.follow place names = .ok q := by
  induction names generalizing place with
  | nil => exact led
  | cons name names ih =>
    obtain ⟨entries, found, way⟩ := follow_cons.mp led
    obtain ⟨entries', found', more⟩ := keeps.folders place entries found
    refine follow_cons.mpr ⟨entries', found', ?_⟩
    rw [keeps.forbids]
    rcases way with ⟨empty, led⟩ | ⟨free, ⟨stays, led⟩ | ⟨up, led⟩ |
      ⟨filled, other, down, short, listed, led⟩⟩
    · exact .inl ⟨empty, ih led⟩
    · exact .inr ⟨free, .inl ⟨stays, ih led⟩⟩
    · exact .inr ⟨free, .inr (.inl ⟨up, ih led⟩)⟩
    · exact .inr ⟨free, .inr (.inr ⟨filled, other, down, short, more name listed, ih led⟩)⟩

theorem follow_name (named : Path.IsName name) {q : List Text} :
    d.follow place [name] = .ok q ↔ d.forbids .passing place = false ∧ name.length ≤ longestName ∧
      q = place ++ [name] ∧ ∃ entries, d.root.at? place = some (.folder entries) ∧ Lists entries name := by
  rw [follow_cons]
  simp only [named.ne_nil, named.ne_dot, named.ne_dotDot, false_and, false_or, ne_eq,
    not_false_eq_true, true_and, follow, Except.ok.injEq]
  constructor
  · rintro ⟨entries, found, free, short, listed, rfl⟩
    exact ⟨free, short, rfl, entries, found, listed⟩
  · rintro ⟨free, short, rfl, entries, found, listed⟩
    exact ⟨entries, found, free, short, listed, rfl⟩

theorem openPlace_eq_ok {q : List Text} : d.openPlace path = .ok q ↔
    d.locate path = .ok q ∧ d.forbids .opening q = false := by
  unfold openPlace
  cases d.locate path with
  | error fault => exact ⟨nofun, nofun⟩
  | ok place =>
    simp only [bind, Except.bind, Except.ok.injEq]
    split
    · next denied => exact ⟨nofun, fun ⟨same, free⟩ => by rw [same, free] at denied; cases denied⟩
    · next free =>
      rw [Bool.not_eq_true] at free
      simp only [Except.ok.injEq]
      exact ⟨fun same => ⟨same, same ▸ free⟩, And.left⟩

theorem read_eq_ok : d.read path = .ok content ↔
    ∃ place, d.openPlace path = .ok place ∧ d.root.at? place = some (.file content) := by
  unfold read
  cases d.openPlace path with
  | error fault => exact ⟨nofun, nofun⟩
  | ok place =>
    simp only [Except.ok.injEq, exists_eq_left']
    cases d.root.at? place with
    | none => exact ⟨nofun, nofun⟩
    | some t =>
      cases t with
      | file old => simp
      | folder entries => exact ⟨nofun, nofun⟩

/-- **The place of a single name** is in the folder that the names before it lead to, if names may be
looked up there. -/
theorem locate_eq_ok (named : Path.IsName name)
    (split : Text.splitOn Path.slash path = front ++ [name]) {q : List Text} :
    d.locate path = .ok q ↔ pathFault? path = none ∧ name.length ≤ longestName ∧
      ∃ place, d.follow (d.start path) front = .ok place ∧ d.forbids .passing place = false ∧
        q = place ++ [name] ∧ ∃ entries, d.root.at? place = some (.folder entries) ∧ Lists entries name := by
  unfold locate
  cases pathFault? path with
  | some fault => exact ⟨nofun, nofun⟩
  | none =>
    simp only [true_and]
    rw [split, follow_append]
    cases d.follow (d.start path) front with
    | error fault => exact ⟨nofun, nofun⟩
    | ok place =>
      simp only [bind, Except.bind, Except.ok.injEq, exists_eq_left']
      rw [follow_name named, and_left_comm]

/-- **A file under a single name** is read if the names before it lead to its folder, if its name may be
looked up there, and if it may be opened. -/
theorem read_name (named : Path.IsName name) (split : Text.splitOn Path.slash path = front ++ [name]) :
    d.read path = .ok content ↔ pathFault? path = none ∧ name.length ≤ longestName ∧
      ∃ place, d.follow (d.start path) front = .ok place ∧ d.forbids .passing place = false ∧
        d.forbids .opening (place ++ [name]) = false ∧
        d.root.at? (place ++ [name]) = some (.file content) := by
  rw [read_eq_ok]
  simp only [openPlace_eq_ok]
  constructor
  · rintro ⟨q, ⟨located, free⟩, found⟩
    obtain ⟨sound, short, place, led, passing, rfl, -⟩ := (locate_eq_ok named split).mp located
    exact ⟨sound, short, place, led, passing, free, found⟩
  · rintro ⟨sound, short, place, led, passing, free, found⟩
    have listed := FileTree.lists_of_at? found
    exact ⟨_, ⟨(locate_eq_ok named split).mpr ⟨sound, short, place, led, passing, rfl, listed⟩, free⟩,
      found⟩

theorem trimmedNames_eq (filled : name ≠ [])
    (split : Text.splitOn Path.slash path = front ++ [name]) : trimmedNames path = front ++ [name] := by
  have filled : name.isEmpty = false := by simpa using filled
  unfold trimmedNames
  rw [split, List.reverse_append, List.reverse_singleton, List.singleton_append,
    List.dropWhile_cons_of_neg (by simp [filled])]
  simp

/-- **The place to write** is in a folder, under the last name of the path, which is no folder's and may
be looked up and opened. -/
theorem placeFor_eq_ok {q : List Text} (allowed : d.placeFor path = .ok q) :
    pathFault? path = none ∧ path.getLast? ≠ some Path.slash ∧
      ∃ place name, d.follow (d.start path) (trimmedNames path).dropLast = .ok place ∧
        (trimmedNames path).getLast? = some name ∧ name ≠ Path.dot ∧ name ≠ Path.dotDot ∧
        name.length ≤ longestName ∧ q = place ++ [name] ∧
        d.forbids .passing place = false ∧ d.forbids .opening (place ++ [name]) = false ∧
        (∃ entries, d.root.at? place = some (.folder entries)) ∧
        ∀ entries, d.root.at? (place ++ [name]) ≠ some (.folder entries) := by
  unfold placeFor at allowed
  cases sound : pathFault? path with
  | some fault => rw [sound] at allowed; cases allowed
  | none =>
    simp only [sound] at allowed
    cases led : d.follow (d.start path) (trimmedNames path).dropLast with
    | error fault => rw [led] at allowed; cases allowed
    | ok place =>
      simp only [led, bind, Except.bind] at allowed
      cases found : d.root.at? place with
      | none => rw [found] at allowed; cases allowed
      | some t =>
        rw [found] at allowed
        cases t with
        | file old => cases allowed
        | folder entries =>
          cases last : (trimmedNames path).getLast? with
          | none => rw [last] at allowed; cases allowed
          | some name =>
            simp only [last] at allowed
            split_ifs at allowed with closed solid long folder locked
            cases allowed
            simp only [Bool.or_eq_true, decide_eq_true_eq, not_or] at solid
            rw [Bool.not_eq_true] at closed locked
            exact ⟨rfl, solid.1.1, place, name, rfl, rfl, solid.1.2, solid.2, Nat.not_lt.mp long, rfl,
              closed, locked, ⟨entries, found⟩, FileTree.no_folder_of_any found folder⟩

/-- **The place to write under a single name** is in the folder that the names before it lead to, and
no folder is there. -/
theorem placeFor_name (named : Path.IsName name)
    (split : Text.splitOn Path.slash path = front ++ [name]) {q : List Text}
    (allowed : d.placeFor path = .ok q) :
    pathFault? path = none ∧ name.length ≤ longestName ∧
      ∃ place, d.follow (d.start path) front = .ok place ∧ q = place ++ [name] ∧
        d.forbids .passing place = false ∧ d.forbids .opening (place ++ [name]) = false ∧
        (∃ entries, d.root.at? place = some (.folder entries)) ∧
        ∀ entries, d.root.at? (place ++ [name]) ≠ some (.folder entries) := by
  obtain ⟨sound, -, place, last, led, eq, -, -, short, here, rest⟩ := placeFor_eq_ok allowed
  rw [trimmedNames_eq named.ne_nil split, List.getLast?_concat, Option.some.injEq] at eq
  subst eq
  rw [trimmedNames_eq named.ne_nil split, List.dropLast_concat] at led
  exact ⟨sound, short, place, led, here, rest⟩

/-- **A path at which a file may be written ends in a single name.** -/
theorem exists_name {q : List Text} (allowed : d.placeFor path = .ok q) :
    ∃ front name, Path.IsName name ∧ Text.splitOn Path.slash path = front ++ [name] := by
  obtain ⟨sound, solid, place, last, -, eq, ne_dot, ne_dotDot, -⟩ := placeFor_eq_ok allowed
  obtain ⟨front, name, split⟩ :=
    (List.eq_nil_or_concat' _).resolve_left (Text.splitOn_ne_nil Path.slash path)
  have filled : name ≠ [] := by
    rintro rfl
    -- Behind the last slash there is nothing, so the path is empty or ends in that slash.
    have whole := Text.join_splitOn Path.slash path
    rw [split] at whole
    by_cases first : front = []
    · rw [first] at whole
      rw [← whole] at sound
      cases sound
    · rw [Text.join_append first (List.cons_ne_nil _ _), Text.join, List.append_nil] at whole
      exact solid (by rw [← whole, List.getLast?_concat])
  rw [trimmedNames_eq filled split, List.getLast?_concat, Option.some.injEq] at eq
  subst eq
  have single : Path.slash ∉ name := Text.not_mem_of_mem_splitOn path (by rw [split]; simp)
  exact ⟨front, name, ⟨filled, single, ne_dot, ne_dotDot⟩, split⟩

theorem write_eq_ok : d.write path content = .ok d' ↔
    ∃ place, d.placeFor path = .ok place ∧
      d' = { d with root := d.root.set place (.file content) } := by
  unfold write
  cases d.placeFor path with
  | error fault => exact ⟨nofun, nofun⟩
  | ok place => simp [eq_comm]

/-- **A write at a single name**: its place has the content, files at other places stay, and every
folder stays. The file may be looked up and opened. -/
theorem write_name (named : Path.IsName name)
    (split : Text.splitOn Path.slash path = front ++ [name])
    (written : d.write path content = .ok d') :
    d'.here = d.here ∧ pathFault? path = none ∧ name.length ≤ longestName ∧
      ∃ place, d.follow (d.start path) front = .ok place ∧ Keeps d d' ∧
        d.forbids .passing place = false ∧ d.forbids .opening (place ++ [name]) = false ∧
        d'.root.at? (place ++ [name]) = some (.file content) ∧
        ∀ q ≠ place ++ [name], ∀ old, d.root.at? q = some (.file old) →
          d'.root.at? q = some (.file old) := by
  obtain ⟨q, allowed, rfl⟩ := write_eq_ok.mp written
  obtain ⟨sound, short, place, led, rfl, passing, free, inFolder, unused⟩ :=
    placeFor_name named split allowed
  obtain ⟨here, elsewhere⟩ := FileTree.set_spec inFolder unused content
  refine ⟨rfl, sound, short, place, led, ⟨?_, rfl⟩, passing, free, here,
    fun q other => (elsewhere q other).file⟩
  -- The place that is written to was no folder, so every folder stays.
  intro q entries found
  refine (elsewhere q ?_).folder entries found
  rintro rfl
  exact unused entries found

/-- **What is written is read**, whatever the path. -/
theorem read_of_write (written : d.write path content = .ok d') : d'.read path = .ok content := by
  obtain ⟨q, allowed, -⟩ := write_eq_ok.mp written
  obtain ⟨front, name, named, split⟩ := exists_name allowed
  obtain ⟨same, sound, short, place, led, keeps, passing, free, here, -⟩ :=
    write_name named split written
  have start : d'.start path = d.start path := by rw [start, start, same]
  refine (read_name named split).mpr ⟨sound, short, place, ?_, ?_, ?_, here⟩
  · rw [start]
    exact keeps.follow led
  · rw [keeps.forbids, passing]
  · rw [keeps.forbids, free]

/-- **What is written under a name of a folder is read there**, and what is read under its other names
stays. -/
theorem read_write {folder : Text} (named : Path.IsName name)
    (written : d.write (Path.join folder name) content = .ok d') :
    d'.read (Path.join folder name) = .ok content ∧
    ∀ other, Path.IsName other → other ≠ name → ∀ old, d.read (Path.join folder other) = .ok old →
      d'.read (Path.join folder other) = .ok old := by
  obtain ⟨front, ways⟩ := Path.join_eq folder
  obtain ⟨split, absolute⟩ := ways name named
  obtain ⟨here, -, -, place, led, keeps, -, -, -, elsewhere⟩ := write_name named split written
  refine ⟨read_of_write written, ?_⟩
  intro other named' ne old read
  obtain ⟨split', absolute'⟩ := ways other named'
  obtain ⟨sound', short', place', led', passing, free, found⟩ := (read_name named' split').mp read
  have same : d.start (Path.join folder other) = d.start (Path.join folder name) := by
    unfold start
    rw [absolute, absolute']
  -- Both names go the same way, so their places differ in the last name only.
  have way : place' = place := by
    rw [same, led] at led'
    exact (Except.ok.inj led').symm
  subst way
  have start : d'.start (Path.join folder other) = d.start (Path.join folder other) := by
    rw [start, start, here]
  refine (read_name named' split').mpr ⟨sound', short', place', ?_, ?_, ?_, ?_⟩
  · rw [start]
    exact keeps.follow led'
  · rw [keeps.forbids, passing]
  · rw [keeps.forbids, free]
  · exact elsewhere _ (fun eq => ne (by simpa using eq)) old found

end Disk

end TealAudit
