import TealAudit.CommandLine.Analysis
import TealAudit.Proofs.Batches
import TealAudit.Proofs.JsonGrammar
import TealAudit.Proofs.Writing

/-!
# What a command says of its programs

The command that looks for findings works through a batch and then says how it went: all is well, there
are findings, or something failed. `CommandLine.detect_agrees` says what its verdict and its output tell
about the disk.

* **Failures.** Those of a batch are the ones that the disk has for its paths (`Disk.failures`): a path
  that cannot be accessed or searched, and each file with no program in it (`Batch.failures_run`).
* **Reports.** There is one for each occurrence of a file with a program in it, in order, and it is one
  that the session has on the file (`Batch.reports_run`).
* **The verdict** is decided by these two, and both ways to show the reports have the same one.
* **The object** that is printed has the files of the reports as its keys. Their names come out as they
  are because all of a path that leads to a file is valid when the names on the disk are
  (`Disk.isValid_of_read`).
-/

namespace TealAudit

/-! ## Failures and programs of paths -/

namespace Disk

variable {d : Disk}

/-- Why there is no program in a file. -/
def fault? (d : Disk) (file : Text) : Option Failure :=
  match d.program file with
  | .error failure => some failure
  | .ok _ => none

/-- **The failures of a path**: it cannot be accessed or searched, or there is no program in some of its
files. -/
def failures (d : Disk) (path : Text) : List Failure :=
  match d.programs path with
  | .error failure => [failure]
  | .ok files => files.filterMap d.fault?

/-- **The programs that paths lead to**: the files they stand for that have a program in them. -/
def sound (d : Disk) (paths : List Text) : List Text :=
  (paths.flatMap fun path => (d.programs path).toOption.getD []).filter fun file =>
    (d.program file).isOk

/-- **All is well with paths**: each of them can be accessed and, if it is a folder, searched, and there
is a program in each file that it stands for. -/
def Builds (d : Disk) (paths : List Text) : Prop :=
  ∀ path ∈ paths, ∃ files, d.programs path = .ok files ∧
    ∀ file ∈ files, ∃ p, d.program file = .ok p

theorem fault?_eq_none_iff {file : Text} : d.fault? file = none ↔ ∃ p, d.program file = .ok p := by
  unfold fault?
  cases d.program file with
  | error failure => exact ⟨nofun, nofun⟩
  | ok p => exact ⟨fun _ => ⟨p, rfl⟩, fun _ => rfl⟩

theorem failures_eq_nil_iff {path : Text} : d.failures path = [] ↔
    ∃ files, d.programs path = .ok files ∧ ∀ file ∈ files, ∃ p, d.program file = .ok p := by
  unfold failures
  cases d.programs path with
  | error fault => exact ⟨nofun, nofun⟩
  | ok files =>
    simp only [List.filterMap_eq_nil_iff, fault?_eq_none_iff, Except.ok.injEq, exists_eq_left']

/-- All is well with paths that have no failures. -/
theorem flatMap_failures_eq_nil_iff {paths : List Text} :
    paths.flatMap d.failures = [] ↔ d.Builds paths := by
  rw [List.flatMap_eq_nil_iff]
  exact forall₂_congr fun path _ => failures_eq_nil_iff

end Disk

namespace Batch

variable {stop : Nat → Option Interrupt} {s : Session} {n : Nat} {ts : List Task}
  {events : List Event}

/-- The failure that a task comes to. -/
def Task.failure? (d : Disk) : Task → Option Failure
  | refuse failure => some failure
  | enter _ _ => none
  | analyse file => d.fault? file

/-- The file that a task is to analyse. -/
def Task.file? : Task → Option Text
  | analyse file => some file
  | _ => none

theorem filterMap_failure?_tasks (d : Disk) (path : Text) :
    (tasks d path).filterMap (Task.failure? d) = d.failures path := by
  unfold Disk.failures
  cases found : d.programs path with
  | error fault =>
    rw [tasks_of_error found]
    rfl
  | ok files =>
    rcases tasks_of_ok found with eq | eq <;> rw [eq]
    · exact List.filterMap_map ..
    · exact List.filterMap_map ..

theorem filterMap_file?_tasks (d : Disk) (path : Text) :
    (tasks d path).filterMap Task.file? = (d.programs path).toOption.getD [] := by
  have own (files : List Text) : (files.map Task.analyse).filterMap Task.file? = files := by
    rw [List.filterMap_map]
    exact List.filterMap_some
  cases found : d.programs path with
  | error fault =>
    rw [tasks_of_error found]
    rfl
  | ok files =>
    rcases tasks_of_ok found with eq | eq <;> rw [eq]
    · exact own files
    · exact own files

/-- The failures in a log that goes to the end are those of its tasks. -/
theorem Log.failures_eq (logged : Log stop s n ts events) (on : ∀ n, stop n = none)
    (genuine : s.Genuine) : failures events = ts.filterMap (Task.failure? s.disk) := by
  induction logged with
  | nil => rfl
  | refuse _ ih => simpa [failures, Task.failure?] using ih
  | enter _ ih =>
    rw [List.filterMap_cons_none rfl]
    exact ih
  | @analyse _ file result _ _ _ told _ ih =>
    cases result with
    | error failure =>
      have fault : s.disk.fault? file = some failure := by
        rw [Disk.fault?, show s.disk.program file = .error failure from told]
      simpa [failures, Task.failure?, fault] using ih
    | ok r =>
      have none := Disk.fault?_eq_none_iff.mpr ⟨_, (Session.Tells.report told genuine).1⟩
      simpa [failures, Task.failure?, none] using ih
  | @stopped n _ _ why stopped =>
    rw [on n] at stopped
    cases stopped

/-- The reports in a log that goes to the end are those on the files with a program in them. -/
theorem Log.reports (logged : Log stop s n ts events) (on : ∀ n, stop n = none)
    (genuine : s.Genuine) : List.Forall₂ s.Tells
      ((ts.filterMap Task.file?).filter fun file => (s.disk.program file).isOk)
      (Batch.reports events) := by
  induction logged with
  | nil => exact .nil
  | refuse _ ih => exact ih
  | enter _ ih => exact ih
  | @analyse _ file result _ _ _ told _ ih =>
    cases result with
    | error failure =>
      have fault : (s.disk.program file).isOk = false := by
        rw [show s.disk.program file = .error failure from told]
        rfl
      simpa [Batch.reports, Task.file?, fault] using ih
    | ok r =>
      have built : (s.disk.program file).isOk = true := by
        rw [(Session.Tells.report told genuine).1]
        rfl
      simpa [Batch.reports, Task.file?, built] using ⟨told, ih⟩
  | @stopped n _ _ why stopped =>
    rw [on n] at stopped
    cases stopped

/-- **The failures of a batch** are those of its paths. -/
theorem failures_run (quiet : s.engine.draws = false) (genuine : s.Genuine) (paths : List Text) :
    failures (run unstopped s paths).1 = paths.flatMap s.disk.failures := by
  rw [(run_log unstopped quiet paths).failures_eq (fun _ => rfl) genuine, List.filterMap_flatMap]
  exact List.flatMap_congr fun path _ => filterMap_failure?_tasks s.disk path

/-- **The reports of a batch** are on the programs that its paths lead to. -/
theorem reports_run (quiet : s.engine.draws = false) (genuine : s.Genuine) (paths : List Text) :
    List.Forall₂ s.Tells (s.disk.sound paths) (reports (run unstopped s paths).1) := by
  have reports := (run_log unstopped quiet paths).reports (fun _ => rfl) genuine
  simp only [List.filterMap_flatMap, filterMap_file?_tasks] at reports
  exact reports

end Batch

/-! ## Names -/

namespace Text

theorem isValid_append (t : Text) {u : Text} (boundary : Boundary u) :
    (t ++ u).isValid = (t.isValid && u.isValid) := by
  rw [isValid, points_append t boundary, List.all_append]
  rfl

theorem isValid_slash (t : Text) : isValid (Path.slash :: t) = t.isValid := by
  have slash : String.utf8EncodeChar '/' = [Path.slash] := by decide
  rw [← List.singleton_append, ← slash, isValid, points_encode]
  rfl

/-- A path is valid when its names are. -/
theorem isValid_join {names : List Text} (valid : ∀ name ∈ names, name.isValid = true) :
    (join [Path.slash] names).isValid = true := by
  induction names with
  | nil => rfl
  | cons name names ih =>
    obtain ⟨first, rest⟩ := List.forall_mem_cons.mp valid
    cases names with
    | nil => exact first
    | cons next names =>
      rw [join, List.append_assoc, List.singleton_append,
        isValid_append _ (boundary_cons (by decide) _), isValid_slash, first, ih rest]
      rfl

end Text

namespace Disk

variable {d : Disk}

/-- **The names on a disk are valid.** -/
def NamesValid (d : Disk) : Prop :=
  ∀ place entries, d.root.at? place = some (.folder entries) →
    ∀ e ∈ entries, e.1.isValid = true

theorem isValid_of_follow (valid : d.NamesValid) {names place q : List Text}
    (led : d.follow place names = .ok q) : ∀ name ∈ names, name.isValid = true := by
  induction names generalizing place with
  | nil => exact nofun
  | cons name names ih =>
    obtain ⟨entries, found, way⟩ := follow_cons.mp led
    rw [List.forall_mem_cons]
    rcases way with ⟨rfl, onward⟩ | ⟨-, ⟨rfl, onward⟩ | ⟨rfl, onward⟩ | ⟨-, -, -, -, listed, onward⟩⟩
    · exact ⟨rfl, ih onward⟩
    · exact ⟨by decide, ih onward⟩
    · exact ⟨by decide, ih onward⟩
    · obtain ⟨e, mem, same⟩ := List.any_eq_true.mp (FileTree.lists_iff.mp listed)
      refine ⟨?_, ih onward⟩
      rw [← of_decide_eq_true same]
      exact valid place entries found e mem

/-- **A path that leads to a file is valid.** -/
theorem isValid_of_read (valid : d.NamesValid) {file source : Text}
    (read : d.read file = .ok source) : file.isValid = true := by
  obtain ⟨place, opened, -⟩ := read_eq_ok.mp read
  have located := (openPlace_eq_ok.mp opened).1
  unfold locate at located
  split at located
  · cases located
  · rw [← Text.join_splitOn Path.slash file]
    exact Text.isValid_join (isValid_of_follow valid located)

end Disk

theorem Session.Tells.isValid {s : Session} {file : Text} {r : Report} (told : s.Tells file r)
    (valid : s.disk.NamesValid) : file.isValid = true := by
  cases told with
  | made read _ => exact Disk.isValid_of_read valid read
  | kept read _ _ _ => exact Disk.isValid_of_read valid read

/-- Reports that are told of files are on these files, in order, with nothing drawn. -/
theorem Session.files_of_tells {s : Session} {files : List Text} {reports : List Report}
    (told : List.Forall₂ s.Tells files reports) (genuine : s.Genuine) (valid : s.disk.NamesValid) :
    reports.map (·.file) = files ∧
      ∀ r ∈ reports, r.file.isValid = true ∧ r.drawings = .empty := by
  induction told with
  | nil => exact ⟨rfl, nofun⟩
  | cons first _ ih =>
    obtain ⟨-, same, plain⟩ := first.report genuine
    refine ⟨by rw [List.map_cons, same, ih.1], List.forall_mem_cons.mpr ⟨⟨?_, plain⟩, ih.2⟩⟩
    rw [same]
    exact first.isValid valid

/-! ## The object of reports -/

namespace Report

/-- **An index of findings**: the fields of an object in the order of their names, which are the files
of the reports; under each of them stand the findings of the last report on the file, in order. -/
structure IsIndex (rs : List Report) (fields : List (Text × Json)) : Prop where
  ascending : (fields.map (·.1)).Pairwise (· < ·)
  files : ∀ file, file ∈ fields.map (·.1) ↔ ∃ r ∈ rs, r.file = file
  findings : ∀ file value, (file, value) ∈ fields →
    ∃ r, rs.reverse.find? (·.file = file) = some r ∧
      value = .list (r.findings.map fun f => (f.json []).legible)

theorem jsonFindings_eq {r : Report} (empty : r.drawings = .empty) :
    r.jsonFindings = r.findings.map fun f => f.json [] := by
  unfold jsonFindings
  rw [empty]
  rfl

theorem find?_byFile (rs : List Report) (file : Text) :
    (byFile rs).find? file = (rs.reverse.find? (·.file = file)).map jsonFindings := by
  rw [byFile, Dict.find?_ofList, ← List.map_reverse, List.find?_map, Option.map_map]
  rfl

/-- **The object of reports is an index of their findings**, where the names of files are valid and
nothing is drawn. -/
theorem exists_index {rs : List Report} (valid : ∀ r ∈ rs, r.file.isValid = true)
    (plain : ∀ r ∈ rs, r.drawings = .empty) :
    ∃ fields, (jsonOf rs).legible = .object fields ∧ IsIndex rs fields := by
  have last : ∀ e ∈ (byFile rs).entries, ∃ r ∈ rs, r.file = e.1 ∧
      rs.reverse.find? (·.file = e.1) = some r ∧ r.jsonFindings = e.2 := by
    intro e mem
    obtain ⟨r, found, findings⟩ := Option.map_eq_some_iff.mp
      ((find?_byFile rs e.1).symm.trans (Dict.mem_entries_iff.mp mem))
    have file : r.file = e.1 := by simpa using List.find?_some found
    exact ⟨r, List.mem_reverse.mp (List.mem_of_find?_eq_some found), file, found, findings⟩
  have legible : ∀ e ∈ (byFile rs).entries, e.1.legible = e.1 := by
    intro e mem
    obtain ⟨r, reported, file, -⟩ := last e mem
    rw [← file]
    exact Text.legible_of_isValid (valid r reported)
  refine ⟨(byFile rs).entries.map fun e => (e.1, .list (e.2.map Json.legible)), ?_, ?_, ?_, ?_⟩
  · rw [jsonOf, Json.legible, Json.legibleFields_eq, List.map_map]
    congr 1
    refine List.map_congr_left fun e mem => ?_
    simp only [Function.comp_apply, legible e mem, Json.legible, Json.legibleItems_eq]
  · rw [List.map_map, List.pairwise_map]
    exact (byFile rs).ascending
  · intro file
    rw [List.map_map, List.mem_map]
    constructor
    · rintro ⟨e, mem, rfl⟩
      obtain ⟨r, reported, file, -⟩ := last e mem
      exact ⟨r, reported, file⟩
    · rintro ⟨r, reported, rfl⟩
      have some : (rs.reverse.find? (·.file = r.file)).isSome = true :=
        List.find?_isSome.mpr ⟨r, List.mem_reverse.mpr reported, by simp⟩
      obtain ⟨r', found⟩ := Option.isSome_iff_exists.mp some
      have entered : (byFile rs).find? r.file = .some r'.jsonFindings := by
        rw [find?_byFile, found]
        rfl
      exact ⟨_, Dict.mem_entries_iff.mpr entered, rfl⟩
  · intro file value mem
    obtain ⟨e, entered, same⟩ := List.mem_map.mp mem
    cases same
    obtain ⟨r, reported, -, found, findings⟩ := last e entered
    refine ⟨r, found, ?_⟩
    rw [← findings, jsonFindings_eq (plain r reported), List.map_map]
    rfl

end Report

/-! ## The command -/

/-- Failures in words, told group by group. -/
theorem Failure.messages_flatten (groups : List (List Failure)) :
    messages groups.flatten =
      Text.join "\n" ((groups.filter fun group => !group.isEmpty).map messages) := by
  induction groups with
  | nil => rfl
  | cons group groups ih =>
    cases group with
    | nil => exact ih
    | cons failure group =>
      rw [List.filter_cons_of_pos rfl, List.map_cons, List.flatten_cons]
      cases rest : groups.filter fun group => !group.isEmpty with
      | nil =>
        have none : groups.flatten = [] := by
          rw [List.flatten_eq_nil_iff]
          intro other mem
          simpa using List.filter_eq_nil_iff.mp rest other mem
        rw [none, List.append_nil]
        rfl
      | cons other others =>
        have some : groups.flatten ≠ [] := by
          obtain ⟨mem, filled⟩ := List.mem_filter.mp (rest ▸ List.mem_cons_self)
          intro none
          rw [List.flatten_eq_nil_iff.mp none other mem] at filled
          cases filled
        rw [rest] at ih
        unfold messages at ih ⊢
        rw [List.map_append, Text.join_append (by simp) (by simpa using some), ih]
        rfl

namespace CommandLine

variable {events : List Batch.Event}

theorem verdictOn_of_failures (some : Batch.failures events ≠ []) :
    verdictOn events = .failed (.analysis (Batch.failures events)) := by
  unfold verdictOn
  rw [if_pos (by simpa using some)]

theorem verdictOn_of_reports (none : Batch.failures events = []) : verdictOn events =
    if (Batch.reports events).any (!·.findings.isEmpty) then .findings else .clean := by
  unfold verdictOn
  rw [if_neg (by simp [none])]

theorem verdictOn_eq_clean_iff : verdictOn events = .clean ↔
    Batch.failures events = [] ∧ ∀ r ∈ Batch.reports events, r.findings = [] := by
  by_cases none : Batch.failures events = []
  · rw [verdictOn_of_reports none, ite_eq_right_iff]
    simp [none]
  · rw [verdictOn_of_failures none]
    exact ⟨nofun, fun h => absurd h.1 none⟩

theorem verdictOn_eq_findings_iff : verdictOn events = .findings ↔
    Batch.failures events = [] ∧ ∃ r ∈ Batch.reports events, r.findings ≠ [] := by
  by_cases none : Batch.failures events = []
  · rw [verdictOn_of_reports none, ite_eq_left_iff]
    simp [none]
  · rw [verdictOn_of_failures none]
    exact ⟨nofun, fun h => absurd h.1 none⟩

/-- **Both ways to show reports have one verdict**, and in JSON the reports are printed. -/
theorem detect_eq {o : Options} (on : 0 < o.timeout) (printed : o.json = true → o.output = [])
    (s : Session) (paths : List Text) :
    (detect o s paths).verdict = verdictOn (Batch.run Batch.unstopped s paths).1 ∧
      (o.json = true → (detect o s paths).output =
        (Report.jsonOf (Batch.reports (Batch.run Batch.unstopped s paths).1)).render ++
          Text.ofString "\n") := by
  have unstopped : (fun _ => o.interrupt?) = Batch.unstopped := by
    funext n
    rw [Options.interrupt?, if_neg (by omega)]
    rfl
  unfold detect
  rw [unstopped]
  cases json : o.json with
  | false => exact ⟨rfl, nofun⟩
  | true => simp [jsonOutcome, printed json]

/-- **The verdict and the output agree with the analysis.** There is a report on each occurrence of a
program that the paths lead to. All is well exactly if every path can be accessed, every file it stands
for can be found, read and built, and no report has a finding; there are findings exactly if the first two hold
and some report has one; and otherwise the failures of the paths are told, path by path. As long as the
time is not over, this does not depend on how the reports are shown. Where they are printed in JSON, the
text is an object with the files of the reports as its keys and a list of the findings of each. -/
theorem detect_agrees {s : Session} (quiet : s.engine.draws = false) (genuine : s.Genuine)
    (valid : s.disk.NamesValid) (paths : List Text) :
    ∃ reports verdict, List.Forall₂ s.Tells (s.disk.sound paths) reports ∧
      reports.map (·.file) = s.disk.sound paths ∧
      (verdict = .clean ↔ s.disk.Builds paths ∧ ∀ r ∈ reports, r.findings = []) ∧
      (verdict = .findings ↔ s.disk.Builds paths ∧ ∃ r ∈ reports, r.findings ≠ []) ∧
      (¬ s.disk.Builds paths → ∃ e, verdict = .failed e ∧
        e = .analysis (paths.flatMap s.disk.failures) ∧
        e.message = Text.join "\n"
          (((paths.map s.disk.failures).filter (!·.isEmpty)).map Failure.messages)) ∧
      ∀ o : Options, 0 < o.timeout → (o.json = true → o.output = []) →
        (detect o s paths).verdict = verdict ∧
        (o.json = true → ∃ fields text,
          (detect o s paths).output = text ++ Text.ofString "\n" ∧
          Json.Spelled (.object fields) text ∧ Report.IsIndex reports fields) := by
  have failures := Batch.failures_run quiet genuine paths
  have reports := Batch.reports_run quiet genuine paths
  have built : Batch.failures (Batch.run Batch.unstopped s paths).1 = [] ↔ s.disk.Builds paths := by
    rw [failures]
    exact Disk.flatMap_failures_eq_nil_iff
  obtain ⟨files, named⟩ := Session.files_of_tells reports genuine valid
  refine ⟨_, verdictOn (Batch.run Batch.unstopped s paths).1, reports, files, ?_, ?_, ?_, ?_⟩
  · rw [verdictOn_eq_clean_iff, built]
  · rw [verdictOn_eq_findings_iff, built]
  · intro broken
    refine ⟨_, verdictOn_of_failures (mt built.mp broken), by rw [failures], ?_⟩
    rw [failures, CommandError.message, List.flatMap_def]
    exact Failure.messages_flatten _
  · intro o on printed
    obtain ⟨verdict, output⟩ := detect_eq on printed s paths
    refine ⟨verdict, fun json => ?_⟩
    obtain ⟨fields, eq, index⟩ :=
      Report.exists_index (fun r mem => (named r mem).1) (fun r mem => (named r mem).2)
    refine ⟨fields, _, output json, ?_, index⟩
    rw [← eq]
    exact Json.spelled_render _

/-- A program with dead code, whose report is in the cache from an earlier request, and a path at which
there is nothing. -/
theorem detect_agrees_kept : ∃ (s : Session) (file missing : Text), s.engine.draws = false ∧
    s.Genuine ∧ s.disk.NamesValid ∧ s.engine.cache.map Cache.size = some 1 ∧
      ∀ o : Options, 0 < o.timeout → (o.json = true → o.output = []) →
        (detect o s [file]).verdict = .findings ∧
        (detect o s [file, missing]).verdict =
          .failed (.analysis [.accessing missing ⟨.inspecting, missing, .notFound⟩]) := by
  let file := Text.ofString "a.teal"
  let missing := Text.ofString "b.teal"
  let source := Text.ofString "err\nerr"
  let e := Engine.ofSettings [.noDrawings, .cache 0]
  let start : Session := { engine := e, disk := { root := .folder [(file, .file source)] } }
  let calls := [Call.run ⟨0, file, source⟩]
  let s := start.performAll calls
  have remembers : Session.Remembers e id ([] ++ calls) s := by
    refine Session.Remembers.performAll (.start _ _ fun c cached => ?_) calls
    cases cached
    exact ⟨rfl, rfl⟩
  have quiet : s.engine.draws = false := remembers.draws_eq
  have genuine : s.Genuine := remembers.genuine rfl fun _ _ _ _ _ same => same
  have disk : s.disk = start.disk := rfl
  have valid : s.disk.NamesValid := by
    rw [disk]
    intro place entries found
    cases place with
    | nil =>
      cases found
      decide +kernel
    | cons name rest =>
      obtain ⟨entry, first, found⟩ := Option.bind_eq_some_iff.mp found
      rw [List.mem_singleton.mp (List.mem_of_find?_eq_some first)] at found
      cases rest with
      | nil => cases found
      | cons _ _ => cases found
  obtain ⟨size, made, kept⟩ : s.engine.cache.map Cache.size = some 1 ∧
      (s.engine.analyse file source).toOption.all (!·.findings.isEmpty) = true ∧
      (s.engine.cache.bind (·.entries.find? file)).all (!·.result.findings.isEmpty) = true := by
    decide +kernel
  obtain ⟨sound, builds, failures⟩ : start.disk.sound [file] = [file] ∧
      [file].flatMap start.disk.failures = [] ∧ [file, missing].flatMap start.disk.failures =
        [.accessing missing ⟨.inspecting, missing, .notFound⟩] := by
    decide +kernel
  rw [← disk] at sound builds failures
  refine ⟨s, file, missing, quiet, genuine, valid, size, fun o on printed => ⟨?_, ?_⟩⟩
  · obtain ⟨reports, verdict, told, -, -, findings, -, all⟩ := detect_agrees quiet genuine valid [file]
    rw [(all o on printed).1, findings]
    rw [sound] at told
    obtain ⟨r, others, first, rest, rfl⟩ := List.forall₂_cons_left_iff.mp told
    refine ⟨Disk.flatMap_failures_eq_nil_iff.mp builds, r, List.mem_cons_self, ?_⟩
    cases first with
    | made read analysed =>
      rw [disk] at read
      cases read
      rw [analysed] at made
      simpa [Except.toOption] using made
    | kept _ cached found _ =>
      rw [cached, Option.bind_some, found] at kept
      simpa using kept
  · obtain ⟨reports, verdict, -, -, -, -, failed, all⟩ :=
      detect_agrees quiet genuine valid [file, missing]
    have broken : ¬ s.disk.Builds [file, missing] := by
      intro builds
      rw [Disk.flatMap_failures_eq_nil_iff.mpr builds] at failures
      cases failures
    obtain ⟨e, told, rfl, -⟩ := failed broken
    rw [(all o on printed).1, told, failures]

end CommandLine

end TealAudit
