import TealAudit.Proofs.Writing

/-!
# Ways down a disk

A search knows a folder by a path and goes on from there by names. The path of an entry is clean, so it
is not the path of the folder with a name behind it: empty names, dots, and pairs of dots with the name
before them are gone. All the same it leads to the same place, for a folder that was entered and left
again was there (`Disk.follow_names`). So the way to what is below a folder is the way to the folder
and then down by the names (`Disk.follow_foldl`).

What stands below a folder is there, and can still be out of reach: the path is too long, a name is, or
in some folder on the way names may not be looked up. `Disk.Reaches` says that none of this is so, by
the place and the path alone, and `Disk.locate_foldl` that the path then leads there.
-/

namespace TealAudit.Disk

variable {d : Disk} {root path name : Text} {base below place q : List Text}

/-! ## Clean paths -/

/-- A name of an entry leads to that entry. -/
theorem follow_last (filled : name ≠ []) (other : name ≠ Path.dot) (down : name ≠ Path.dotDot)
    (led : d.follow place [name] = .ok q) : q = place ++ [name] := by
  obtain ⟨entries, -, way⟩ := follow_cons.mp led
  rcases way with ⟨empty, -⟩ | ⟨-, ⟨stays, -⟩ | ⟨up, -⟩ | ⟨-, -, -, -, -, led⟩⟩
  · exact absurd empty filled
  · exact absurd stays other
  · exact absurd up down
  · exact (Except.ok.inj led).symm

theorem follow_concat_iff {front : List Text} : d.follow base (front ++ [name]) = .ok q ↔
    ∃ place, d.follow base front = .ok place ∧ d.follow place [name] = .ok q := by
  rw [follow_append]
  cases d.follow base front with
  | error fault => exact ⟨nofun, nofun⟩
  | ok place => simp [bind, Except.bind]

/-- **Reduced names lead where the names led.** The names that are kept lead from the start to the place
that has been reached, whatever is left to follow. -/
theorem follow_reduce {absolute : Bool} {start kept names : List Text}
    (top : absolute = true → start = []) (plain : ∀ name ∈ kept, name ≠ [] ∧ name ≠ Path.dot)
    (reached : d.follow start kept.reverse = .ok place) (led : d.follow place names = .ok q) :
    d.follow start (Path.reduce absolute kept names).reverse = .ok q := by
  induction names generalizing kept place with
  | nil =>
    cases led
    exact reached
  | cons name names ih =>
    obtain ⟨entries, found, way⟩ := follow_cons.mp led
    rw [Path.reduce.eq_def]
    rcases way with ⟨rfl, onward⟩ | ⟨free, ⟨rfl, onward⟩ | ⟨rfl, onward⟩ |
      ⟨filled, other, down, short, listed, onward⟩⟩
    · exact ih plain reached onward
    · exact ih plain reached onward
    · have up : d.follow place [Path.dotDot] = .ok place.dropLast :=
        follow_cons.mpr ⟨entries, found, .inr ⟨free, .inr (.inl ⟨rfl, rfl⟩)⟩⟩
      cases kept with
      | nil =>
        cases reached
        cases absolute with
        | true =>
          -- Above the top there is nothing: two dots stay there.
          rw [top rfl] at onward
          exact ih plain (by rw [top rfl]; rfl) onward
        | false => exact ih (by decide) up onward
      | cons last earlier =>
        obtain ⟨⟨filled, other⟩, plain'⟩ := List.forall_mem_cons.mp plain
        by_cases pair : last = Path.dotDot
        · subst pair
          refine ih (List.forall_mem_cons.mpr ⟨by decide, plain⟩) ?_ onward
          rw [List.reverse_cons, follow_concat_iff]
          exact ⟨place, reached, up⟩
        · rw [List.reverse_cons, follow_concat_iff] at reached
          obtain ⟨above, before, step⟩ := reached
          rw [follow_last filled other pair step, List.dropLast_concat] at onward
          show d.follow start (if last = Path.dotDot then _
            else Path.reduce absolute earlier names).reverse = _
          rw [if_neg pair]
          exact ih plain' before onward
    · have step : d.follow place [name] = .ok (place ++ [name]) := follow_cons.mpr
        ⟨entries, found, .inr ⟨free, .inr (.inr ⟨filled, other, down, short, listed, rfl⟩)⟩⟩
      have kept' : d.follow start (name :: kept).reverse = .ok (place ++ [name]) := by
        rw [List.reverse_cons, follow_concat_iff]
        exact ⟨place, reached, step⟩
      simpa [filled, other, down] using
        ih (List.forall_mem_cons.mpr ⟨⟨filled, other⟩, plain⟩) kept' onward

theorem locate_eq_ok_iff : d.locate path = .ok q ↔
    pathFault? path = none ∧ d.follow (d.start path) (Text.splitOn Path.slash path) = .ok q := by
  unfold locate
  cases pathFault? path with
  | some fault => exact ⟨nofun, nofun⟩
  | none => simp

theorem get_eq_ok {t : FileTree} : d.get path = .ok t ↔
    ∃ place, d.locate path = .ok place ∧ d.root.at? place = some t := by
  unfold get
  cases d.locate path with
  | error fault => exact ⟨nofun, nofun⟩
  | ok place =>
    simp only [bind, Except.bind, Except.ok.injEq, exists_eq_left']
    cases d.root.at? place with
    | none => exact ⟨nofun, nofun⟩
    | some sub => simp

/-- **The names that are left of a path lead where the path leads.** -/
theorem follow_names (located : d.locate root = .ok base) :
    d.follow (d.start root) (Path.names root) = .ok base := by
  have top : Path.isAbsolute root = true → d.start root = [] := fun absolute => if_pos absolute
  exact follow_reduce top (List.forall_mem_nil _) rfl (locate_eq_ok_iff.mp located).2

/-! ## Below a folder -/

/-- **The way to what is below a folder** is the way to the folder, and then down by the names. -/
theorem follow_foldl (located : d.locate root = .ok base) (named : ∀ name ∈ below, Path.IsName name) :
    d.start (below.foldl Path.join root) = d.start root ∧
      d.follow (d.start root) (Text.splitOn Path.slash (below.foldl Path.join root)) =
        d.follow base below := by
  obtain ⟨-, led⟩ := locate_eq_ok_iff.mp located
  by_cases some : below = []
  · subst some
    exact ⟨rfl, led⟩
  · have single : ∀ name ∈ Path.names root ++ below, Path.slash ∉ name := fun name mem =>
      ((Path.reduced_append root named).mem (List.mem_reverse.mpr mem)).1
    have down : d.follow (d.start root) (Path.names root ++ below) = d.follow base below := by
      rw [follow_append, follow_names located]
      rfl
    rw [Path.foldl_join root some named]
    refine ⟨by unfold start; rw [Path.isAbsolute_join root some named], ?_⟩
    rw [Path.join_eq_spell root some named,
      Path.splitOn_spell _ (List.append_ne_nil_of_right_ne_nil _ some) single]
    cases absolute : Path.isAbsolute root with
    | false => simpa using down
    | true =>
      -- The empty name in front needs a folder at the start, where the path of the folder started too.
      obtain ⟨rest, cut⟩ := Path.splitOn_of_isAbsolute absolute
      rw [cut] at led
      obtain ⟨entries, found, -⟩ := follow_cons.mp led
      rw [← down, if_pos rfl, List.singleton_append, follow, found]
      rfl

theorem foldl_join_ne_nil (located : d.locate root = .ok base)
    (named : ∀ name ∈ below, Path.IsName name) : below.foldl Path.join root ≠ [] := by
  intro empty
  rcases List.eq_nil_or_concat below with rfl | ⟨front, last, rfl⟩
  · obtain ⟨sound, -⟩ := locate_eq_ok_iff.mp located
    rw [show root = [] from empty] at sound
    cases sound
  · have some : front.concat last ≠ [] := by simp
    rw [Path.foldl_join root some named, Path.join_eq_spell root some named] at empty
    have names := Path.names_spell (Path.reduced_append root named)
    rw [empty] at names
    simp [Path.names, Path.reduce, Text.splitOn] at names

/-- **Whether a place below another can be reached** by a path: the path is not too long, no name on the
way is, and in each folder on the way names may be looked up. -/
structure Reaches (d : Disk) (base below : List Text) (path : Text) : Prop where
  sound : pathFault? path = none
  short : ∀ name ∈ below, name.length ≤ longestName
  passing : ∀ front, front <+: below → front ≠ below → d.forbids .passing (base ++ front) = false

/-- **Down to what is there**: the way leads there if each name is short enough and may be looked up. -/
theorem follow_eq_ok_iff {t : FileTree} (there : d.root.at? (base ++ below) = some t)
    (named : ∀ name ∈ below, Path.IsName name) : d.follow base below = .ok q ↔
      q = base ++ below ∧ (∀ name ∈ below, name.length ≤ longestName) ∧
        ∀ front, front <+: below → front ≠ below → d.forbids .passing (base ++ front) = false := by
  induction below generalizing base with
  | nil =>
    rw [follow, List.append_nil, Except.ok.injEq, eq_comm]
    refine ⟨fun same => ⟨same, List.forall_mem_nil _, fun front begins proper => ?_⟩, And.left⟩
    exact absurd (List.prefix_nil.mp begins) proper
  | cons name below ih =>
    obtain ⟨first, named⟩ := List.forall_mem_cons.mp named
    rw [List.append_cons] at there
    obtain ⟨sub, entered, -⟩ := Option.bind_eq_some_iff.mp (FileTree.at?_append .. ▸ there)
    obtain ⟨entries, found, listed⟩ := FileTree.lists_of_at? entered
    have next := ih there named
    rw [follow_cons]
    simp only [found, first.ne_nil, first.ne_dot, first.ne_dotDot, Option.some.injEq,
      FileTree.folder.injEq, exists_eq_left', false_and, false_or, ne_eq, not_false_eq_true, true_and,
      listed, next, List.append_assoc, List.singleton_append, List.forall_mem_cons]
    constructor
    · rintro ⟨free, short, same, shorts, passing⟩
      refine ⟨same, ⟨short, shorts⟩, fun front begins proper => ?_⟩
      cases front with
      | nil => rwa [List.append_nil]
      | cons n front =>
        obtain ⟨rfl, within⟩ := List.cons_prefix_cons.mp begins
        exact passing front within fun same => proper (by rw [same])
    · rintro ⟨same, ⟨short, shorts⟩, passing⟩
      refine ⟨?_, short, same, shorts, fun front begins proper => ?_⟩
      · rw [← List.append_nil base]
        exact passing [] List.nil_prefix (List.cons_ne_nil _ _).symm
      · exact passing (name :: front) (List.cons_prefix_cons.mpr ⟨rfl, begins⟩)
          fun same => proper (List.cons.inj same).2

variable {t : FileTree}

theorem reaches_iff (there : d.root.at? (base ++ below) = some t)
    (named : ∀ name ∈ below, Path.IsName name) :
    pathFault? path = none ∧ d.follow base below = .ok q ↔
      q = base ++ below ∧ d.Reaches base below path := by
  rw [follow_eq_ok_iff there named]
  constructor
  · rintro ⟨sound, same, short, passing⟩
    exact ⟨same, sound, short, passing⟩
  · rintro ⟨same, sound, short, passing⟩
    exact ⟨sound, same, short, passing⟩

/-- **The path of what is below a folder leads there** if it can be reached. -/
theorem locate_foldl (located : d.locate root = .ok base)
    (there : d.root.at? (base ++ below) = some t) (named : ∀ name ∈ below, Path.IsName name) :
    d.locate (below.foldl Path.join root) = .ok q ↔
      q = base ++ below ∧ d.Reaches base below (below.foldl Path.join root) := by
  obtain ⟨start, way⟩ := follow_foldl located named
  rw [locate_eq_ok_iff, start, way]
  exact reaches_iff there named

/-- **The path of an entry**, written behind that of its folder, leads there if it can be reached. -/
theorem locate_entry (located : d.locate root = .ok base)
    (there : d.root.at? (base ++ (below ++ [name])) = some t)
    (named : ∀ n ∈ below ++ [name], Path.IsName n) :
    d.locate (below.foldl Path.join root ++ Path.slash :: name) = .ok q ↔
      q = base ++ (below ++ [name]) ∧
        d.Reaches base (below ++ [name]) (below.foldl Path.join root ++ Path.slash :: name) := by
  have above : ∀ n ∈ below, Path.IsName n := fun n mem => named n (List.mem_append_left _ mem)
  have last : Path.IsName name := named name (by simp)
  obtain ⟨start, way⟩ := follow_foldl located above
  -- The folder's path is not empty, so both paths are absolute or neither is.
  have same : d.start (below.foldl Path.join root ++ Path.slash :: name) = d.start root := by
    rw [← start]
    obtain ⟨b, rest, eq⟩ := List.exists_cons_of_ne_nil (foldl_join_ne_nil located above)
    rw [eq]
    rfl
  have down : d.follow (d.start root)
      (Text.splitOn Path.slash (below.foldl Path.join root ++ Path.slash :: name)) =
        d.follow base (below ++ [name]) := by
    rw [Text.splitOn_sep, Text.splitOn_of_not_mem last.not_mem, follow_append, way, follow_append]
  rw [locate_eq_ok_iff, same, down]
  exact reaches_iff there named

end TealAudit.Disk
