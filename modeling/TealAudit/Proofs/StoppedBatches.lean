import TealAudit.Proofs.Batches

/-!
# What a batch gives back

A batch may be stopped from outside at any time, and paths and files may fail at any place in it. What
it gives back is compared here with its **course** (`Batch.course`): all that its paths stand for on the
disk as it is at the start, one after the other, a file to analyse or a failure to tell.

**The law** (`Batch.run_accounts`) is that the course is cut in two. Everything in the first part was met
in order and nothing of it is lost (`Batch.Accounts`): its files are the ones that were analysed, and the
reports and the failures are what they came to, with the interruption as the last failure if there was
one. The second part was not touched. It is empty unless the batch found itself stopped, which it did in
front of the first file of that part.

The two loops of a batch are one loop over tasks (`State.enterAll_eq`). What a task adds to the account is
seen in `State.exists_accounts`, by induction on the tasks.
-/

namespace TealAudit

/-- **What becomes of things that are met** one after the other, each a file or a failure: a failure is
told as it is, and a file is analysed by the session as the ones before it have left it. -/
def Session.meetAll (s : Session) : List (Except Failure Text) → List (Except Failure Report)
  | [] => []
  | .error failure :: rest => .error failure :: s.meetAll rest
  | .ok file :: rest =>
    ((·.report) <$> (s.run file).1) :: ((s.run file).2.pass Session.tick).meetAll rest

namespace Batch

/-! ## The course of a batch -/

/-- **What a path stands for**: a file for itself and a folder for the programs that are found below it.
A path that cannot be accessed and a folder whose search fails stand for a failure and nothing else,
whatever the search found before. -/
inductive Expands (d : Disk) (path : Text) : Except Failure (List Text) → Prop
  | missing {fault : FileFault} : d.get path = .error fault →
      Expands d path (.error (.accessing path ⟨.inspecting, path, fault⟩))
  | file {content : Text} : d.get path = .ok (.file content) → Expands d path (.ok [path])
  | folder {entries : List (Text × FileTree)} {files : List Text} :
      d.get path = .ok (.folder entries) → Scan.paths d path [Path.programExtension] = (files, none) →
      Expands d path (.ok files)
  | closed {entries : List (Text × FileTree)} {found : List Text} {e : FileError} :
      d.get path = .ok (.folder entries) →
      Scan.paths d path [Path.programExtension] = (found, some e) →
      Expands d path (.error (.walking path e))

/-- The files and failures that paths stand for, in order. -/
def course (expansions : List (Except Failure (List Text))) : List (Except Failure Text) :=
  expansions.flatMap fun
    | .error failure => [.error failure]
    | .ok files => files.map .ok

/-- What a task meets. -/
def Task.station? : Task → Option (Except Failure Text)
  | refuse failure => some (.error failure)
  | enter _ _ => none
  | analyse file => some (.ok file)

theorem filterMap_station?_files (files : List Text) :
    (files.map Task.analyse).filterMap Task.station? = files.map .ok := by
  rw [List.filterMap_map]
  exact congrFun List.filterMap_eq_map' files

theorem exists_expands (d : Disk) (path : Text) : ∃ expansion, Expands d path expansion ∧
    (tasks d path).filterMap Task.station? = course [expansion] := by
  unfold tasks expand Disk.inspect
  cases found : d.get path with
  | error fault => exact ⟨_, .missing found, rfl⟩
  | ok tree =>
    cases tree with
    | file content => exact ⟨_, .file found, rfl⟩
    | folder entries =>
      rcases searched : Scan.paths d path [Path.programExtension] with ⟨files, _ | e⟩
      · refine ⟨_, .folder found searched, ?_⟩
        simp only [course, List.flatMap_cons, List.flatMap_nil, List.append_nil]
        exact filterMap_station?_files files
      · exact ⟨_, .closed found searched, rfl⟩

/-- The tasks of a batch meet its course. -/
theorem exists_course (d : Disk) (paths : List Text) : ∃ expansions,
    List.Forall₂ (Expands d) paths expansions ∧
      (paths.flatMap (tasks d)).filterMap Task.station? = course expansions := by
  induction paths with
  | nil => exact ⟨[], .nil, rfl⟩
  | cons path paths ih =>
    obtain ⟨expansion, first, own⟩ := exists_expands d path
    obtain ⟨expansions, rest, others⟩ := ih
    refine ⟨expansion :: expansions, .cons first rest, ?_⟩
    rw [List.flatMap_cons, List.filterMap_append, own, others]
    simp only [course, List.flatMap_cons, List.flatMap_nil, List.append_nil]

/-! ## The account of a batch -/

/-- The failure among results. -/
def failure? : Except Failure Report → Option Failure
  | .error failure => some failure
  | .ok _ => none

/-- **How a batch ends** when `n` files have been analysed: there is nothing left, or it finds itself
stopped in front of a file. -/
inductive Ends (stop : Nat → Option Interrupt) (n : Nat) :
    List (Except Failure Text) → Option Interrupt → Prop
  | finished : Ends stop n [] none
  | stopped {file : Text} {rest : List (Except Failure Text)} {why : Interrupt} :
      stop n = some why → Ends stop n (.ok file :: rest) (some why)

/-- **The account of a batch** that has met one part of its course and left the other, from where `n`
files had been analysed: what it found when it looked whether it is stopped, and what it gives back. -/
structure Accounts (stop : Nat → Option Interrupt) (n : Nat) (s : Session)
    (reached left : List (Except Failure Text)) (found : Option Interrupt) (events : List Event) :
    Prop where
  /-- The files that were analysed. -/
  files : files events = reached.filterMap Except.toOption
  /-- The reports are the successful results. -/
  reports : reports events = (s.meetAll reached).filterMap Except.toOption
  /-- The failures are the other results, with the interruption behind them. -/
  failures : failures events =
    (s.meetAll reached).filterMap failure? ++ (found.map Failure.interrupted).toList
  /-- Before each file that was analysed, the batch was not stopped. -/
  going : ∀ k < (reached.filterMap Except.toOption).length, stop (n + k) = none
  ended : Ends stop (n + (reached.filterMap Except.toOption).length) left found
  /-- Nothing happens after the batch was found stopped. -/
  last : ∀ before after why, events = before ++ .stopped why :: after → after = []

namespace Accounts

variable {stop : Nat → Option Interrupt} {n : Nat} {s : Session}
  {reached left : List (Except Failure Text)} {found : Option Interrupt} {events : List Event}

/-- An event that is no interruption does not come behind one. -/
theorem last_cons {e : Event} (other : ∀ why, e ≠ .stopped why)
    (last : ∀ before after why, events = before ++ .stopped why :: after → after = []) :
    ∀ before after why, e :: events = before ++ .stopped why :: after → after = [] := by
  intro before after why split
  cases before with
  | nil => exact absurd (List.head_eq_of_cons_eq split) (other why)
  | cons _ before => exact last before after why (List.tail_eq_of_cons_eq split)

theorem nil : Accounts stop n s [] [] none [] where
  files := rfl
  reports := rfl
  failures := rfl
  going := nofun
  ended := .finished
  last before after why split := by simp at split

theorem stopped {file : Text} {rest : List (Except Failure Text)} {why : Interrupt}
    (now : stop n = some why) : Accounts stop n s [] (.ok file :: rest) (some why) [.stopped why] where
  files := rfl
  reports := rfl
  failures := rfl
  going := nofun
  ended := .stopped now
  last before after why split := by
    cases before with
    | nil => exact (List.tail_eq_of_cons_eq split).symm
    | cons _ before => simp at split

theorem entered (h : Accounts stop n s reached left found events) (folder : Text) (programs : Nat) :
    Accounts stop n s reached left found (.entered folder programs :: events) where
  files := h.files
  reports := h.reports
  failures := h.failures
  going := h.going
  ended := h.ended
  last := last_cons nofun h.last

theorem unusable (h : Accounts stop n s reached left found events) (failure : Failure) :
    Accounts stop n s (.error failure :: reached) left found (.unusable failure :: events) where
  files := h.files
  reports := h.reports
  failures := congrArg (failure :: ·) h.failures
  going := h.going
  ended := h.ended
  last := last_cons nofun h.last

/-- One file: what it comes to stands in front of what the session then meets. -/
theorem analysed {file : Text}
    (h : Accounts stop (n + 1) ((s.run file).2.pass Session.tick) reached left found events)
    (now : stop n = none) : Accounts stop n s (.ok file :: reached) left found
      (.analysed file ((·.report) <$> (s.run file).1) :: events) where
  files := congrArg (file :: ·) h.files
  reports := by
    rw [Session.meetAll]
    cases (s.run file).1 with
    | error failure => exact h.reports
    | ok outcome => exact congrArg (outcome.report :: ·) h.reports
  failures := by
    rw [Session.meetAll]
    cases (s.run file).1 with
    | error failure => exact congrArg (failure :: ·) h.failures
    | ok outcome => exact h.failures
  going k lt := by
    cases k with
    | zero => exact now
    | succ k =>
      rw [show n + (k + 1) = n + 1 + k by omega]
      exact h.going k (Nat.lt_of_succ_lt_succ lt)
  ended := by
    have ended := h.ended
    rw [Nat.add_right_comm] at ended
    exact ended
  last := last_cons nofun h.last

/-- A batch that nothing stops leaves nothing. -/
theorem all_of_unstopped (h : Accounts stop n s reached left found events)
    (never : ∀ n, stop n = none) : left = [] ∧ found = none := by
  cases h.ended with
  | finished => exact ⟨rfl, rfl⟩
  | stopped now =>
    rw [never] at now
    cases now

/-- There is no failure exactly when all results are reports and the batch was not found stopped. -/
theorem failures_eq_nil_iff (h : Accounts stop n s reached left found events) :
    Batch.failures events = [] ↔
      found = none ∧ ∀ result ∈ s.meetAll reached, ∃ report, result = .ok report := by
  have reported (result : Except Failure Report) :
      failure? result = none ↔ ∃ report, result = .ok report := by
    cases result with
    | error failure => exact ⟨nofun, nofun⟩
    | ok report => exact ⟨fun _ => ⟨report, rfl⟩, fun _ => rfl⟩
  have uninterrupted : (found.map Failure.interrupted).toList = [] ↔ found = none := by
    cases found with
    | none => exact ⟨fun _ => rfl, fun _ => rfl⟩
    | some why => exact ⟨nofun, nofun⟩
  rw [h.failures, List.append_eq_nil_iff, uninterrupted, List.filterMap_eq_nil_iff, and_comm]
  simp only [reported]

end Accounts

/-- **Tasks leave an account** of what they meet. -/
theorem State.exists_accounts (stop : Nat → Option Interrupt) (ts : List Task) : ∀ s : State,
    ∃ events reached left found, (s.perform stop ts).events = events.reverse ++ s.events ∧
      ts.filterMap Task.station? = reached ++ left ∧
      Accounts stop s.count s.session reached left found events := by
  induction ts with
  | nil => exact fun s => ⟨[], [], [], none, rfl, rfl, .nil⟩
  | cons task ts ih =>
    intro s
    cases task with
    | refuse failure =>
      obtain ⟨events, reached, left, found, eq, cut, accounts⟩ := ih (s.log (.unusable failure))
      refine ⟨_, _, left, found, ?_, ?_, accounts.unusable failure⟩
      · rw [perform, eq]
        simp [log]
      · exact congrArg (.error failure :: ·) cut
    | enter folder programs =>
      obtain ⟨events, reached, left, found, eq, cut, accounts⟩ :=
        ih (s.log (.entered folder programs))
      refine ⟨_, reached, left, found, ?_, cut, accounts.entered folder programs⟩
      rw [perform, eq]
      simp [log]
    | analyse file =>
      rw [perform]
      cases now : stop s.count with
      | some why => exact ⟨_, [], _, _, rfl, rfl, .stopped now⟩
      | none =>
        obtain ⟨events, reached, left, found, eq, cut, accounts⟩ := ih (s.analyse file)
        refine ⟨_, _, left, found, ?_, ?_, accounts.analysed now⟩
        · simp only [eq]
          simp [analyse]
        · exact congrArg (.ok file :: ·) cut

/-- **A batch loses no report and no failure.** Of a session that draws nothing, the course of a batch is
known from the paths and the disk at the start. A first part of it is met and a second one is left:

* the files that are analysed are those of the first part, each occurrence once and in order;
* the reports are those of its files that were analysed with success, in order;
* the failures are those of its paths and files, in order, with the interruption behind them if the
  batch was found stopped, so there is none exactly if nothing failed and the batch was not stopped;
* no file is analysed after the batch was found stopped, and nothing is left if that does not happen. -/
theorem run_accounts {s : Session} (quiet : s.engine.draws = false) (stop : Nat → Option Interrupt)
    (paths : List Text) : ∃ expansions reached left found,
      List.Forall₂ (Expands s.disk) paths expansions ∧
      course expansions = reached ++ left ∧
      Accounts stop 0 s reached left found (run stop s paths).1 ∧
      ((∀ n, stop n = none) → left = [] ∧ found = none) ∧
      (failures (run stop s paths).1 = [] ↔
        found = none ∧ ∀ result ∈ s.meetAll reached, ∃ report, result = .ok report) := by
  obtain ⟨expansions, expanded, met⟩ := exists_course s.disk paths
  obtain ⟨events, reached, left, found, eq, cut, accounts⟩ :=
    State.exists_accounts stop (paths.flatMap (tasks s.disk)) { session := s }
  have same : (run stop s paths).1 = events := by
    rw [run, State.enterAll_eq (Session.Along.start s) quiet rfl, eq]
    simp
  rw [same]
  exact ⟨expansions, reached, left, found, expanded, met ▸ cut, accounts, accounts.all_of_unstopped,
    accounts.failures_eq_nil_iff⟩

/-- Between two occurrences of a program: a folder with a program in it and another folder that may not be
listed, a path at which there is nothing, a file that may not be opened, and one that is no program. The
batch is stopped in front of the second occurrence. -/
theorem run_accounts_canceled : ∃ (s : Session) (program closed missing secret broken : Text),
    let stop : Nat → Option Interrupt := fun n => if 3 ≤ n then some .canceled else none
    let paths := [program, closed, missing, secret, broken, program]
    let events := (run stop s paths).1
    s.engine.draws = false ∧
    files events = [program, secret, broken] ∧ (reports events).map (·.file) = [program] ∧
    failures events = [.walking closed ⟨.opening, closed ++ Text.ofString "/e", .denied⟩,
      .accessing missing ⟨.inspecting, missing, .notFound⟩,
      .reading secret ⟨.opening, secret, .denied⟩,
      .refused ⟨broken, 1, .unknownOpcode (Text.ofString "x")⟩, .interrupted .canceled] ∧
    ∃ expansions reached left found,
      List.Forall₂ (Expands s.disk) paths expansions ∧
      course expansions = reached ++ left ∧ Accounts stop 0 s reached left found events := by
  let program := Text.ofString "a.teal"
  let broken := Text.ofString "b.teal"
  let missing := Text.ofString "c.teal"
  let closed := Text.ofString "d"
  let inner := Text.ofString "e"
  let secret := Text.ofString "s.teal"
  let s : Session :=
    { engine := Engine.ofSettings [.noDrawings, .cache 0]
      disk := {
        root := .folder [(program, .file (Text.ofString "err")), (broken, .file (Text.ofString "x")),
          (closed, .folder [(program, .file (Text.ofString "err")), (inner, .empty)]),
          (secret, .file (Text.ofString "err"))]
        forbidden := [(.opening, [closed, inner]), (.opening, [secret])] } }
  refine ⟨s, program, closed, missing, secret, broken, ?_⟩
  intro stop paths events
  have given : files events = [program, secret, broken] ∧
      (reports events).map (·.file) = [program] ∧
      failures events = [.walking closed ⟨.opening, closed ++ Text.ofString "/e", .denied⟩,
        .accessing missing ⟨.inspecting, missing, .notFound⟩,
        .reading secret ⟨.opening, secret, .denied⟩,
        .refused ⟨broken, 1, .unknownOpcode (Text.ofString "x")⟩, .interrupted .canceled] := by
    decide +kernel
  obtain ⟨analysed, reported, failed⟩ := given
  have quiet : s.engine.draws = false := rfl
  obtain ⟨expansions, reached, left, found, expanded, cut, accounts, -⟩ := run_accounts quiet stop paths
  exact ⟨quiet, analysed, reported, failed, expansions, reached, left, found, expanded, cut, accounts⟩

end Batch

end TealAudit
