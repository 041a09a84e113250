import Mathlib.Data.List.Forall2
import TealAudit.Batch
import TealAudit.Proofs.Histories

/-!
# What happens in a batch

A batch goes through paths and, for each folder among them, through the programs below it. Since the
disk stays as it is when nothing is drawn, the paths can be turned into one list of tasks beforehand
(`Batch.tasks`), and the two loops are one loop over that list (`State.enterAll_eq`).

**What a file comes to** (`Session.Told`) is said about the session as it was at the start: the failure
to read or build the program in the file, or a report, which the engine makes or the cache has for the
file as it is. The session changes on the way, since its cache takes in the reports that are made. That
it is still **along** (`Session.Along`) is the invariant: the disk and the settings are as they were,
and what the cache could serve is what the session could have told at the start. One file keeps this
and comes to what it should (`Along.run`), so a whole batch does (`run_log`): its events are a **log**
of its tasks (`Batch.Log`), one event for each of them up to where the batch is stopped.

A report from the cache is as good as one that the engine makes if the cache is **genuine**
(`Session.Genuine`). That is no more than what calls leave behind: a session that starts with nothing in
its cache has a genuine one after any history of calls (`Remembers.genuine`).
-/

namespace TealAudit

/-! ## Programs on a disk -/

namespace Disk

/-- **The programs that a path stands for**: a file stands for itself, a folder for the programs that
are found below it. There are none if the path cannot be accessed or the folder cannot be searched. -/
def programs (d : Disk) (path : Text) : Except Failure (List Text) :=
  match d.get path with
  | .error fault => .error (.accessing path ⟨.inspecting, path, fault⟩)
  | .ok (.file _) => .ok [path]
  | .ok (.folder _) =>
    match Scan.paths d path [Path.programExtension] with
    | (_, some e) => .error (.walking path e)
    | (files, none) => .ok files

/-- **The program in a file**: the file is read, and what it holds is parsed and built. -/
def program (d : Disk) (file : Text) : Except Failure Program :=
  match d.read file with
  | .error e => .error (.reading file e)
  | .ok source =>
    match Program.ofSource file source with
    | .error fault => .error (.refused fault)
    | .ok p => .ok p

end Disk

/-! ## What a session tells -/

namespace Engine

variable {e : Engine} {name source : Text}

theorem analyse_eq_error {fault : SyntaxError} (refused : e.analyse name source = .error fault) :
    Program.ofSource name source = .error fault := by
  unfold analyse at refused
  cases built : Program.ofSource name source with
  | error fault' =>
    rw [built] at refused
    cases refused
    rfl
  | ok p =>
    rw [built] at refused
    cases refused

theorem file_of_analyse {made : Report} (analysed : e.analyse name source = .ok made) :
    made.file = name := by
  unfold analyse at analysed
  cases built : Program.ofSource name source with
  | error fault =>
    rw [built] at analysed
    cases analysed
  | ok p =>
    rw [built] at analysed
    cases analysed
    rfl

end Engine

namespace Session

/-- **The reports that a session has on a file** as it is: the one its engine makes, and the one that
its cache holds for the same content. -/
inductive Tells (s : Session) (file : Text) : Report → Prop
  | made {source : Text} {r : Report} : s.disk.read file = .ok source →
      s.engine.analyse file source = .ok r → Tells s file r
  | kept {source : Text} {c : Cache Text Report} {entry : Cache.Entry Text Report} :
      s.disk.read file = .ok source → s.engine.cache = some c → c.entries.find? file = some entry →
      entry.fingerprint = c.fingerprint source → Tells s file entry.result

/-- **What a session has to say on a file**: why there is no program in it, or a report. -/
def Told (s : Session) (file : Text) : Except Failure Report → Prop
  | .error failure => s.disk.program file = .error failure
  | .ok r => s.Tells file r

/-- **A genuine cache**: what it holds for a file as it is on the disk is a report on that file, by the
engine with whatever detectors were left out when the report was made. -/
def Genuine (s : Session) : Prop :=
  ∀ c ∈ s.engine.cache, ∀ file entry source, c.entries.find? file = some entry →
    s.disk.read file = .ok source → entry.fingerprint = c.fingerprint source →
      ∃ ignored, { s.engine with ignored }.analyse file source = .ok entry.result

variable {s₀ s : Session} {file : Text} {r : Report}

/-- What is told of a file is a report on the program in it, with nothing drawn. -/
theorem Tells.report (told : s.Tells file r) (genuine : s.Genuine) :
    s.disk.program file = .ok r.program ∧ r.file = file ∧ r.drawings = .empty := by
  obtain ⟨source, e, read, analysed⟩ :
      ∃ source e, s.disk.read file = .ok source ∧ Engine.analyse e file source = .ok r := by
    cases told with
    | made read analysed => exact ⟨_, s.engine, read, analysed⟩
    | kept read cached found same =>
      obtain ⟨ignored, analysed⟩ := genuine _ cached _ _ _ found read same
      exact ⟨_, _, read, analysed⟩
  obtain ⟨built, empty, -⟩ := Engine.analyse_eq_ok analysed
  refine ⟨?_, Engine.file_of_analyse analysed, empty⟩
  rw [Disk.program, read]
  simp only [built]

/-- A history of calls leaves a genuine cache, unless two contents have one fingerprint. -/
theorem Remembers.genuine {e : Engine} {hash : Text → Text} {done : List Call}
    (h : Remembers e hash done s) (quiet : e.draws = false)
    (apart : ∀ r file source, .run r ∈ done → s.disk.read file = .ok source →
      hash r.source = hash source → r.source = source) : s.Genuine := by
  intro c cached file entry source found read same
  obtain ⟨prints, entries⟩ := h.sourced c cached
  obtain ⟨source', print, past, wait, later, split, made⟩ := entries file entry found
  have asked : .run ⟨wait, file, source'⟩ ∈ done := by
    rw [split]
    exact List.mem_append_right _ List.mem_cons_self
  have content : source' = source := by
    refine apart _ file source asked read ?_
    rw [← print, same, prints]
  subst content
  obtain ⟨cache, settings⟩ := h.settings
  refine ⟨(e.ignoring past).ignored, ?_⟩
  rw [settings]
  exact made.analyse_eq quiet

/-! ## One file -/

/-- **A session along the way from another one**: its disk and settings are the same, and what its
cache could serve is what the other one tells. -/
structure Along (s₀ s : Session) : Prop where
  disk : s.disk = s₀.disk
  settings : ∃ cache, s.engine = { s₀.engine with cache }
  kept : ∀ c ∈ s.engine.cache, ∀ file entry source, c.entries.find? file = some entry →
    s₀.disk.read file = .ok source → entry.fingerprint = c.fingerprint source →
      s₀.Tells file entry.result

namespace Along

theorem start (s : Session) : Along s s where
  disk := rfl
  settings := ⟨s.engine.cache, rfl⟩
  kept := fun _ cached _ _ _ found read same => .kept read cached found same

theorem pass (h : Along s₀ s) (n : Nat) : Along s₀ (s.pass n) := ⟨h.disk, h.settings, h.kept⟩

theorem drop (h : Along s₀ s) (name : Text) : Along s₀ (s.drop name) := by
  obtain ⟨cache, eq⟩ := h.settings
  refine ⟨h.disk, ⟨_, by rw [Session.drop, eq]⟩, fun c cached file entry source found => ?_⟩
  obtain ⟨old, before, rfl⟩ := Option.map_eq_some_iff.mp cached
  simp only [Cache.drop, Dict.find?_erase] at found
  split at found
  · cases found
  · exact h.kept old before file entry source found

theorem keep (h : Along s₀ s) (name source : Text) (told : s₀.Tells name r) :
    Along s₀ (s.keep name source r) := by
  obtain ⟨cache, eq⟩ := h.settings
  refine ⟨h.disk, ⟨_, by rw [Session.keep, eq]⟩, fun c cached file entry content found => ?_⟩
  obtain ⟨old, before, rfl⟩ := Option.map_eq_some_iff.mp cached
  simp only [Cache.set, Dict.find?_insert] at found
  split at found
  · next same =>
    cases found
    exact fun _ _ => same ▸ told
  · exact h.kept old before file entry content found

theorem draws_eq (h : Along s₀ s) : s.engine.draws = s₀.engine.draws := by
  obtain ⟨cache, eq⟩ := h.settings
  rw [eq]

theorem analyse_eq (h : Along s₀ s) (source : Text) :
    s.engine.analyse file source = s₀.engine.analyse file source := by
  obtain ⟨cache, eq⟩ := h.settings
  rw [eq]
  rfl

/-- **Each way that a request for a file goes**: the session is still along, and what it tells is what
was to be said on the file. -/
theorem ran (h : Along s₀ s) (quiet : s₀.engine.draws = false) {source : Text}
    (read : s₀.disk.read file = .ok source) {o : Except Failure Outcome} {s' : Session}
    (ran : Ran s file source o s') : Along s₀ s' ∧ s₀.Told file ((·.report) <$> o) := by
  cases ran with
  | @kept c entry cached found serves =>
    have same : entry.fingerprint = c.fingerprint source := by
      simpa [Cache.serves] using (Bool.and_eq_true_iff.mp serves).2
    exact ⟨h, h.kept c cached file entry source found read same⟩
  | refused refused =>
    refine ⟨h.drop file, ?_⟩
    show s₀.disk.program file = .error (.refused _)
    simp only [Disk.program, read, Engine.analyse_eq_error refused]
  | failed _ draws _ =>
    rw [h.draws_eq, quiet] at draws
    cases draws
  | drawn _ draws _ =>
    rw [h.draws_eq, quiet] at draws
    cases draws
  | plain analysed _ =>
    rw [h.analyse_eq] at analysed
    have told := Tells.made read analysed
    exact ⟨(h.drop file).keep file source told, told⟩

/-- **One file**: the session is still along, and the file comes to what was to be said on it. -/
theorem run (h : Along s₀ s) (quiet : s₀.engine.draws = false) (file : Text) :
    Along s₀ (s.run file).2 ∧ s₀.Told file ((·.report) <$> (s.run file).1) := by
  unfold Session.run
  rw [h.disk]
  cases read : s₀.disk.read file with
  | error e =>
    refine ⟨h, ?_⟩
    show s₀.disk.program file = .error (.reading file e)
    simp only [Disk.program, read]
  | ok source => exact h.ran quiet read (s.ran file source)

end Along

end Session

/-! ## Tasks -/

namespace Batch

/-- **A task of a batch.** -/
inductive Task where
  /-- To tell that a path cannot be used. -/
  | refuse (failure : Failure)
  /-- To enter a folder. -/
  | enter (folder : Text) (programs : Nat)
  /-- To analyse a file. -/
  | analyse (file : Text)

/-- **The tasks that a path stands for.** -/
def tasks (d : Disk) (path : Text) : List Task :=
  match expand d path with
  | .error failure => [.refuse failure]
  | .ok (isFolder, files) =>
    (if isFolder then [.enter path files.length] else []) ++ files.map .analyse

theorem tasks_of_error {d : Disk} {path : Text} {failure : Failure}
    (none : d.programs path = .error failure) : tasks d path = [.refuse failure] := by
  unfold Disk.programs at none
  unfold tasks expand Disk.inspect
  cases found : d.get path with
  | error fault =>
    rw [found] at none
    cases none
    rfl
  | ok t =>
    rw [found] at none
    cases t with
    | file content => cases none
    | folder entries =>
      rcases searched : Scan.paths d path [Path.programExtension] with ⟨files, _ | e⟩
      · simp only [searched] at none
        cases none
      · simp only [searched] at none ⊢
        cases none
        rfl

theorem tasks_of_ok {d : Disk} {path : Text} {files : List Text}
    (some : d.programs path = .ok files) : tasks d path = files.map .analyse ∨
      tasks d path = .enter path files.length :: files.map .analyse := by
  unfold Disk.programs at some
  unfold tasks expand Disk.inspect
  cases found : d.get path with
  | error fault =>
    rw [found] at some
    cases some
  | ok t =>
    rw [found] at some
    cases t with
    | file content =>
      cases some
      exact .inl rfl
    | folder entries =>
      rcases searched : Scan.paths d path [Path.programExtension] with ⟨programs, _ | e⟩
      · simp only [searched] at some ⊢
        cases some
        exact .inr rfl
      · simp only [searched] at some
        cases some

/-- **The log of tasks**: what may happen in a batch with these tasks ahead of it, when it starts from
the session `s₀` and `n` files have been analysed. -/
inductive Log (stop : Nat → Option Interrupt) (s₀ : Session) : Nat → List Task → List Event → Prop
  | nil {n : Nat} : Log stop s₀ n [] []
  | refuse {n : Nat} {failure : Failure} {tasks : List Task} {events : List Event} :
      Log stop s₀ n tasks events →
      Log stop s₀ n (.refuse failure :: tasks) (.unusable failure :: events)
  | enter {n : Nat} {folder : Text} {programs : Nat} {tasks : List Task} {events : List Event} :
      Log stop s₀ n tasks events →
      Log stop s₀ n (.enter folder programs :: tasks) (.entered folder programs :: events)
  | analyse {n : Nat} {file : Text} {result : Except Failure Report} {tasks : List Task}
      {events : List Event} : stop n = none → s₀.Told file result →
      Log stop s₀ (n + 1) tasks events →
      Log stop s₀ n (.analyse file :: tasks) (.analysed file result :: events)
  | stopped {n : Nat} {file : Text} {tasks : List Task} {why : Interrupt} : stop n = some why →
      Log stop s₀ n (.analyse file :: tasks) [.stopped why]

namespace State

variable {stop : Nat → Option Interrupt} {s₀ : Session} {s : State}

/-- The state after tasks. -/
def perform (stop : Nat → Option Interrupt) (s : State) : List Task → State
  | [] => s
  | .refuse failure :: rest => (s.log (.unusable failure)).perform stop rest
  | .enter folder programs :: rest => (s.log (.entered folder programs)).perform stop rest
  | .analyse file :: rest =>
    match stop s.count with
    | some why => { s.log (.stopped why) with done := true }
    | none => (s.analyse file).perform stop rest

theorem along_analyse (h : s₀.Along s.session) (quiet : s₀.engine.draws = false) (file : Text) :
    s₀.Along (s.analyse file).session :=
  (h.run quiet file).1.pass Session.tick

theorem along_analyseAll (h : s₀.Along s.session) (quiet : s₀.engine.draws = false)
    (files : List Text) : s₀.Along (s.analyseAll stop files).session := by
  induction files generalizing s with
  | nil => exact h
  | cons file files ih =>
    rw [analyseAll]
    split
    · exact h
    · exact ih (along_analyse h quiet file)

theorem along_enter (h : s₀.Along s.session) (quiet : s₀.engine.draws = false) (path : Text) :
    s₀.Along (s.enter stop path).session := by
  unfold enter
  split
  · exact h
  · refine along_analyseAll ?_ quiet _
    split <;> exact h

/-! ### One loop -/

/-- The files of a path come first among the tasks. -/
theorem perform_files (going : s.done = false) (files : List Text) (rest : List Task) :
    s.perform stop (files.map .analyse ++ rest) =
      if (s.analyseAll stop files).done then s.analyseAll stop files
      else (s.analyseAll stop files).perform stop rest := by
  induction files generalizing s with
  | nil => simp [analyseAll, going]
  | cons file files ih =>
    rw [List.map_cons, List.cons_append, perform, analyseAll]
    cases stop s.count with
    | some why => rfl
    | none => exact ih going

theorem perform_tasks (going : s.done = false) (path : Text) (rest : List Task) :
    s.perform stop (tasks s.session.disk path ++ rest) =
      if (s.enter stop path).done then s.enter stop path
      else (s.enter stop path).perform stop rest := by
  unfold tasks enter
  cases expand s.session.disk path with
  | error failure => simp [perform, log, going]
  | ok found =>
    obtain ⟨isFolder, files⟩ := found
    cases isFolder with
    | false => exact perform_files going files rest
    | true => exact perform_files (s := s.log _) going files rest

/-- **The two loops are one**, over the tasks that the paths stand for. -/
theorem enterAll_eq (h : s₀.Along s.session) (quiet : s₀.engine.draws = false)
    (going : s.done = false) (paths : List Text) :
    s.enterAll stop paths = s.perform stop (paths.flatMap (tasks s₀.disk)) := by
  induction paths generalizing s with
  | nil => rfl
  | cons path paths ih =>
    rw [enterAll, List.flatMap_cons, ← h.disk, perform_tasks going, h.disk]
    cases done : (s.enter stop path).done with
    | true => simp
    | false =>
      simp only [Bool.false_eq_true, ↓reduceIte]
      exact ih (along_enter h quiet path) done

/-- **Tasks leave a log.** -/
theorem log_perform (stop : Nat → Option Interrupt) (h : s₀.Along s.session)
    (quiet : s₀.engine.draws = false) (tasks : List Task) : ∃ events, Log stop s₀ s.count tasks events ∧
      (s.perform stop tasks).events = events.reverse ++ s.events := by
  induction tasks generalizing s with
  | nil => exact ⟨[], .nil, rfl⟩
  | cons task tasks ih =>
    cases task with
    | refuse failure =>
      obtain ⟨events, logged, eq⟩ := ih (s := s.log (.unusable failure)) h
      exact ⟨_, .refuse logged, by rw [perform, eq]; simp [log]⟩
    | enter folder programs =>
      obtain ⟨events, logged, eq⟩ := ih (s := s.log (.entered folder programs)) h
      exact ⟨_, .enter logged, by rw [perform, eq]; simp [log]⟩
    | analyse file =>
      rw [perform]
      cases stopped : stop s.count with
      | some why => exact ⟨_, .stopped stopped, rfl⟩
      | none =>
        obtain ⟨events, logged, eq⟩ := ih (along_analyse h quiet file)
        refine ⟨_, .analyse stopped (h.run quiet file).2 logged, ?_⟩
        simp only [eq]
        simp [analyse]

end State

/-- **A batch leaves the log of its tasks**, if nothing is drawn. -/
theorem run_log (stop : Nat → Option Interrupt) {s : Session} (quiet : s.engine.draws = false)
    (paths : List Text) : Log stop s 0 (paths.flatMap (tasks s.disk)) (run stop s paths).1 := by
  have along := Session.Along.start s
  obtain ⟨events, logged, eq⟩ :=
    State.log_perform (s := { session := s }) stop along quiet (paths.flatMap (tasks s.disk))
  have same : (run stop s paths).1 = events := by
    rw [run, State.enterAll_eq along quiet rfl, eq]
    simp
  rw [same]
  exact logged

end Batch

end TealAudit
