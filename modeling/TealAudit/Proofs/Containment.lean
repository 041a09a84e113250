import TealAudit.Proofs.Exports

/-!
# Where drawings go

A program may have any name, and a folder may be spelled in any way: with slashes at its end or twice
in a row, with dots, with pairs of dots that go up again. **A drawing stays in its folder**
(`Disk.draw_in_folder`). Its path is one name behind the clean path of the folder, and on the disk it
is an entry of the folder that this clean path leads to.

The first part is about texts alone: a flat name with a suffix is a single name, and a single name goes
behind the clean path it is joined to (`Path.join_name`). For the second part, the way to the file is
the way to the clean folder with one name more (`Disk.locate_folder`), and what is set at a place is
seen on the way to it and behind it only (`FileTree.at?_set_of_apart`).
-/

namespace TealAudit

/-! ## Texts -/

theorem Path.join_name (folder : Text) {name : Text} (named : IsName name) :
    join folder name =
      if clean folder = dot then name
      else if clean folder = [slash] then slash :: name
      else clean folder ++ slash :: name :=
  join_eq_ite folder (List.cons_ne_nil _ _) (List.forall_mem_singleton.mpr named)

theorem Drawing.backslash_not_mem_fileName {suffix : Text} (plain : Text.byte '\\' ∉ suffix)
    (name : Text) : Text.byte '\\' ∉ fileName name suffix := by
  simp only [fileName, List.mem_append, not_or]
  exact ⟨⟨⟨not_mem_flatName (.inr rfl) name, by decide⟩, plain⟩, by decide⟩

/-! ## Places -/

/-- **What is set at a place is seen nowhere else**: neither off the way to the place nor behind it. -/
theorem FileTree.at?_set_of_apart {place q : List Text} (t new : FileTree) (before : ¬ q <+: place)
    (behind : ¬ place <+: q) : (t.set place new).at? q = t.at? q := by
  induction place generalizing t q with
  | nil => exact absurd List.nil_prefix behind
  | cons name place ih =>
    cases t with
    | file content => rfl
    | folder entries =>
      cases q with
      | nil => exact absurd List.nil_prefix before
      | cons other rest =>
        simp only [set]
        rw [at?_insertEntry]
        split
        · next same =>
          subst same
          rw [List.cons_prefix_cons, not_and] at before behind
          rw [ih _ (before rfl) (behind rfl), at?_cons]
          cases (entries.find? fun e => e.1 = other).map (·.2) with
          | some old => rfl
          | none =>
            cases rest with
            | nil => exact absurd List.nil_prefix (before rfl)
            | cons next rest => rfl
        · rfl

namespace Disk

variable {d d' : Disk} {folder name path content : Text}

theorem pathFault?_eq_none : pathFault? path = none ↔
    path ≠ [] ∧ (0 : UInt8) ∉ path ∧ path.length < pathLimit := by
  unfold pathFault?
  simp only [List.isEmpty_iff, List.contains_iff_mem]
  split_ifs with nothing ends long
  · simp [nothing]
  · simp [ends]
  · simp [Nat.not_lt.mpr long]
  · simp [nothing, ends, Nat.not_le.mp long]

/-- The way to the clean folder is followed where the way to one of its names is. -/
theorem locate_folder (named : Path.IsName name) {q : List Text}
    (allowed : d.placeFor (Path.join folder name) = .ok q) :
    ∃ place, d.locate (Path.clean folder) = .ok place ∧ q = place ++ [name] ∧
      (∃ entries, d.root.at? place = some (.folder entries)) ∧
      ∀ entries, d.root.at? (place ++ [name]) ≠ some (.folder entries) := by
  have absolute : Path.isAbsolute (Path.join folder name) = Path.isAbsolute folder :=
    Path.isAbsolute_join folder (List.cons_ne_nil _ _) (List.forall_mem_singleton.mpr named)
  have start : d.start (Path.join folder name) = d.start (Path.clean folder) := by
    unfold Disk.start
    rw [absolute, Path.isAbsolute_clean]
  have alone := Text.splitOn_of_not_mem named.not_mem
  have joined := Path.join_name folder named
  -- The names before the last are those of the clean folder, but for a folder that has none.
  by_cases here : Path.clean folder = Path.dot
  · rw [if_pos here] at joined
    have split : Text.splitOn Path.slash (Path.join folder name) = [] ++ [name] := by
      rw [joined, alone, List.nil_append]
    obtain ⟨-, -, place, led, q_eq, passing, -, ⟨entries, found⟩, free⟩ :=
      placeFor_name named split allowed
    refine ⟨place, ?_, q_eq, ⟨entries, found⟩, free⟩
    rw [start, here] at led
    cases led
    rw [here]
    exact follow_cons.mpr ⟨entries, found, .inr ⟨passing, .inl ⟨rfl, rfl⟩⟩⟩
  · rw [if_neg here] at joined
    by_cases top : Path.clean folder = [Path.slash]
    · rw [if_pos top] at joined
      have split : Text.splitOn Path.slash (Path.join folder name) = [[]] ++ [name] := by
        rw [joined, Text.splitOn, if_pos rfl, alone]
        rfl
      obtain ⟨-, -, place, led, q_eq, -, -, rest⟩ := placeFor_name named split allowed
      refine ⟨place, ?_, q_eq, rest⟩
      rw [start, top] at led
      rw [top]
      obtain ⟨entries, found, -⟩ := follow_cons.mp led
      exact follow_cons.mpr ⟨entries, found, .inl ⟨rfl, led⟩⟩
    · rw [if_neg top] at joined
      have split : Text.splitOn Path.slash (Path.join folder name) =
          Text.splitOn Path.slash (Path.clean folder) ++ [name] := by
        rw [joined, Text.splitOn_sep, alone]
      obtain ⟨sound, -, place, led, q_eq, -, -, rest⟩ := placeFor_name named split allowed
      refine ⟨place, ?_, q_eq, rest⟩
      have clean : pathFault? (Path.clean folder) = none := by
        rw [joined, pathFault?_eq_none, List.mem_append, not_or, List.length_append] at sound
        rw [pathFault?_eq_none]
        exact ⟨Path.clean_ne_nil folder, sound.2.1.1, by omega⟩
      rw [start] at led
      rw [locate, clean]
      exact led

/-- **What is written under a name of a folder** is an entry of the clean folder, and nothing off the
way to it changes. -/
theorem write_in_folder (named : Path.IsName name)
    (written : d.write (Path.join folder name) content = .ok d') :
    ∃ place, d.locate (Path.clean folder) = .ok place ∧
      d'.root.at? (place ++ [name]) = some (.file content) ∧
      ∀ q, ¬ q <+: place ++ [name] → d'.root.at? q = d.root.at? q := by
  obtain ⟨q, allowed, rfl⟩ := write_eq_ok.mp written
  obtain ⟨place, led, rfl, inFolder, free⟩ := locate_folder named allowed
  obtain ⟨here, elsewhere⟩ := FileTree.set_spec inFolder free content
  refine ⟨place, led, here, fun q apart => ?_⟩
  by_cases behind : place ++ [name] <+: q
  · -- There is nothing behind a file, and there was nothing where no folder was.
    obtain ⟨rest, rfl⟩ := behind
    cases rest with
    | nil => exact absurd (by simp) apart
    | cons next rest =>
      rw [FileTree.at?_append, here, FileTree.at?_append]
      cases found : d.root.at? (place ++ [name]) with
      | none => rfl
      | some old =>
        have below : old.at? (next :: rest) = none :=
          FileTree.at?_below (fun entries eq => free entries (by rw [found, eq])) next rest
        rw [Option.bind_some, Option.bind_some, below]
        rfl
  · exact FileTree.at?_set_of_apart d.root _ apart behind

theorem path_of_write_error {e : FileError} (failed : d.write path content = .error e) :
    e.path = path := by
  unfold write at failed
  cases allowed : d.placeFor path with
  | ok place => rw [allowed] at failed; cases failed
  | error fault =>
    rw [allowed] at failed
    cases failed
    rfl

/-- **A drawing stays in its folder.** Take a program of any name, a folder however it is spelled, and
a suffix without separators of paths. Then the file name has no separator in it and stands neither for
the folder itself nor for the one above, and the path is the file name behind the clean folder. This is
the path that is reported, both of a drawing that is written and of one that fails. What is written is
an entry of the folder that the clean path leads to, and all that is not on the way to it stays. -/
theorem draw_in_folder (d : Disk) (folder : Text) (p : Program) (highlighted : List Nat)
    {suffix : Text} (plain : Path.slash ∉ suffix) (noBackslash : Text.byte '\\' ∉ suffix) :
    let base := Drawing.fileName p.name suffix
    let path := Path.join folder base
    (Path.slash ∉ base ∧ Text.byte '\\' ∉ base ∧ base ≠ Path.dot ∧ base ≠ Path.dotDot) ∧
    path = (if folder = [] ∨ Path.clean folder = Path.dot then base
      else if Path.clean folder = [Path.slash] then Path.slash :: base
      else Path.clean folder ++ Path.slash :: base) ∧
    (∀ e, d.draw folder suffix p highlighted = .error e → e.path = path) ∧
    ∀ drawn d', d.draw folder suffix p highlighted = .ok (drawn, d') → drawn = path ∧
      ∃ place, d.locate (Path.clean folder) = .ok place ∧
        d'.root.at? (place ++ [base]) = some (.file (Drawing.highlighting p highlighted).render) ∧
        ∀ q, ¬ q <+: place ++ [base] → d'.root.at? q = d.root.at? q := by
  intro base path
  have named : Path.IsName base := Drawing.isName_fileName plain p.name
  have noFolder : folder = [] ∨ Path.clean folder = Path.dot ↔ Path.clean folder = Path.dot := by
    constructor
    · rintro (rfl | here)
      · rfl
      · exact here
    · exact .inr
  refine ⟨⟨named.not_mem, Drawing.backslash_not_mem_fileName noBackslash p.name, named.ne_dot,
    named.ne_dotDot⟩, ?_, ?_, ?_⟩
  · simp only [noFolder]
    exact Path.join_name folder named
  · intro e failed
    exact path_of_write_error (draw_eq_error.mp failed)
  · intro drawn d' made
    obtain ⟨rfl, written⟩ := draw_eq_ok.mp made
    exact ⟨rfl, write_in_folder named written⟩

/-- A program whose name goes up twice, drawn into a folder that is spelled with dots and with more
slashes than it needs. -/
theorem draw_in_folder_dots :
    let d : Disk := { root := .folder [(Text.ofString "out", .empty)] }
    let folder := Text.ofString "./a/..//out/"
    let suffix := Text.ofString "cfg"
    let base := Text.ofString ".._.._x.cfg.dot"
    ∃ p drawn d', Program.ofSource (Text.ofString "../../x") (Text.ofString "err") = .ok p ∧
      Path.slash ∉ suffix ∧ Text.byte '\\' ∉ suffix ∧
      d.draw folder suffix p [] = .ok (drawn, d') ∧ drawn = Text.ofString "out/.._.._x.cfg.dot" ∧
      ∃ place, d.locate (Path.clean folder) = .ok place ∧
        d'.root.at? (place ++ [base]) = some (.file (Drawing.highlighting p []).render) ∧
        ∀ q, ¬ q <+: place ++ [base] → d'.root.at? q = d.root.at? q := by
  intro d folder suffix base
  obtain ⟨p, built, seen⟩ := Program.exists_of_any
    (q := fun p => Drawing.fileName p.name suffix = base ∧
      (d.draw folder suffix p []).toOption.any
        fun r => r.1 = Text.ofString "out/.._.._x.cfg.dot")
    (r := Program.ofSource (Text.ofString "../../x") (Text.ofString "err")) (by decide +kernel)
  obtain ⟨named, written⟩ := of_decide_eq_true seen
  obtain ⟨⟨drawn, d'⟩, made, path⟩ := Program.exists_of_any written
  have plain : Path.slash ∉ suffix := by decide
  have noBackslash : Text.byte '\\' ∉ suffix := by decide
  obtain ⟨-, -, -, stays⟩ := draw_in_folder d folder p [] plain noBackslash
  rw [named] at stays
  exact ⟨p, drawn, d', built, plain, noBackslash, made, of_decide_eq_true path,
    (stays drawn d' made).2⟩

end Disk

end TealAudit
