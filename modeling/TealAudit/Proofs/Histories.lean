import TealAudit.Proofs.Layout

/-!
# What a session answers after other calls

A session is called in three ways: it is asked for a report, it is told to leave a detector out from
now on, and it is told to drop all that its cache holds. A report that it gives out may have been made
at any of the requests before, by the engine as it was set at that request.

**What is remembered** (`Session.Remembers`): every entry of the cache goes back to a request in the
history, and its report is the analysis by the engine with the detectors left out that had been left
out by then. Each call keeps this (`Remembers.perform`), so a history does (`Remembers.performAll`).

Two laws follow. Without a call that leaves a detector out, there is only one engine in the history,
and the answers are those of a session without a cache (`Session.answers_of_cache`). With such calls,
a report is that of the present engine exactly as far as none of them came after the request at which
the report was made (`Session.report_of_past`). A report that is kept from before such a call still
has the findings of the detector that was left out since (`Session.kept_over_ignore`).
-/

namespace TealAudit

/-- **A call to a session**: a request, to leave out a detector, or to drop what is kept. -/
inductive Call where
  | run (r : Request)
  | ignore (detector : Text)
  | invalidate

namespace Call

/-- The detector that a call leaves out. -/
def ignored? : Call → Option Text
  | ignore detector => some detector
  | _ => none

/-- The request that a call is. -/
def request? : Call → Option Request
  | run r => some r
  | _ => none

end Call

/-- The engine after calls: as it was, without the detectors that they leave out. -/
def Engine.ignoring (e : Engine) (calls : List Call) : Engine :=
  { e with ignored := (calls.filterMap Call.ignored?).reverse ++ e.ignored }

/-- What an engine that makes no drawings has to say about a program. -/
def Engine.verdict (e : Engine) (name source : Text) : Except Failure Report :=
  match e.analyse name source with
  | .error fault => .error (.refused fault)
  | .ok made => .ok made

/-- **A report that an engine makes of a source**: its analysis, with drawings only if it draws. -/
def Report.MadeBy (e : Engine) (name source : Text) (r : Report) : Prop :=
  r.Answers e name source ∧ (e.draws = false → r.drawings = .empty)

namespace Session

/-- The session with nothing kept. -/
def invalidate (s : Session) : Session :=
  { s with engine := { s.engine with cache := s.engine.cache.map Cache.invalidateAll } }

/-- The session after a call. -/
def perform (s : Session) : Call → Session
  | .run r => (s.serve r).2
  | .ignore detector => { s with engine := s.engine.ignore detector }
  | .invalidate => s.invalidate

/-- The session after calls. -/
def performAll (s : Session) (calls : List Call) : Session := calls.foldl perform s

/-- The answers to the requests among calls, in order. -/
def answers (s : Session) : List Call → List (Except Failure Report)
  | [] => []
  | .run r :: rest => ((·.report) <$> (s.serve r).1) :: (s.perform (.run r)).answers rest
  | call :: rest => (s.perform call).answers rest

end Session

/-! ## Engines -/

namespace Engine

variable {e : Engine} {name source : Text}

theorem ignoring_append (e : Engine) (past later : List Call) :
    e.ignoring (past ++ later) = (e.ignoring past).ignoring later := by
  simp [ignoring]

theorem ignoring_of_none {calls : List Call} (none : ∀ d, Call.ignore d ∉ calls) :
    e.ignoring calls = e := by
  have quiet : calls.filterMap Call.ignored? = [] := by
    rw [List.filterMap_eq_nil_iff]
    intro call mem
    cases call with
    | run r => rfl
    | ignore d => exact absurd mem (none d)
    | invalidate => rfl
  simp [ignoring, quiet]

theorem mem_ignoring {calls : List Call} {d : Text} :
    d ∈ (e.ignoring calls).ignored ↔ Call.ignore d ∈ calls ∨ d ∈ e.ignored := by
  have called : d ∈ calls.filterMap Call.ignored? ↔ Call.ignore d ∈ calls := by
    rw [List.mem_filterMap]
    constructor
    · rintro ⟨call, mem, left⟩
      cases call with
      | ignore d' => cases left; exact mem
      | run r => cases left
      | invalidate => cases left
    · exact fun mem => ⟨_, mem, rfl⟩
  simp [ignoring, called]

end Engine

theorem Report.MadeBy.analyse_eq {e : Engine} {name source : Text} {r : Report}
    (h : r.MadeBy e name source) (quiet : e.draws = false) : e.analyse name source = .ok r := by
  obtain ⟨⟨made, drawings, analysed, rfl⟩, empty⟩ := h
  have same : drawings = made.drawings :=
    (empty quiet).trans (Engine.analyse_eq_ok analysed).2.1.symm
  rw [analysed, same]

/-! ## Histories -/

namespace Session

variable {e : Engine} {hash : Text → Text} {done : List Call} {s : Session} {name source : Text}

theorem Ran.madeBy {r : Report} {s' : Session} (ran : Ran s name source (.ok ⟨r, false⟩) s') :
    r.MadeBy s.engine name source := by
  refine ⟨ran.answers, fun quiet => ?_⟩
  cases ran with
  | drawn _ draws _ => rw [quiet] at draws; cases draws
  | plain analysed _ => exact (Engine.analyse_eq_ok analysed).2.1

/-- **What a session remembers after calls**: it has the settings of the engine it started with, less
the detectors left out since, and every entry of its cache goes back to a request. -/
structure Remembers (e : Engine) (hash : Text → Text) (done : List Call) (s : Session) : Prop where
  settings : ∃ cache, s.engine = { e.ignoring done with cache }
  sourced : s.Sourced hash fun name source r => ∃ past wait later,
    done = past ++ .run ⟨wait, name, source⟩ :: later ∧ r.MadeBy (e.ignoring past) name source

namespace Remembers

theorem start (disk : Disk) (now : Nat)
    (fresh : ∀ c ∈ e.cache, c.fingerprint = hash ∧ c.entries = .empty) :
    Remembers e hash [] ⟨e, disk, now⟩ :=
  ⟨⟨e.cache, rfl⟩, .start disk now fresh⟩

theorem analyse_eq (h : Remembers e hash done s) :
    s.engine.analyse name source = (e.ignoring done).analyse name source := by
  obtain ⟨cache, eq⟩ := h.settings
  rw [eq]
  rfl

theorem draws_eq (h : Remembers e hash done s) : s.engine.draws = e.draws := by
  obtain ⟨cache, eq⟩ := h.settings
  rw [eq]
  rfl

theorem madeBy (h : Remembers e hash done s) {r : Report} (made : r.MadeBy s.engine name source) :
    r.MadeBy (e.ignoring done) name source := by
  obtain ⟨⟨made, drawings, analysed, rfl⟩, empty⟩ := made
  refine ⟨⟨made, drawings, h.analyse_eq ▸ analysed, rfl⟩, fun quiet => empty ?_⟩
  rw [h.draws_eq]
  exact quiet

/-- **A call keeps what is remembered.** -/
theorem perform (h : Remembers e hash done s) (call : Call) :
    Remembers e hash (done ++ [call]) (s.perform call) := by
  -- A longer history has the requests of the shorter one, after the same calls.
  have older : s.Sourced hash fun name source r => ∃ past wait later,
      done ++ [call] = past ++ .run ⟨wait, name, source⟩ :: later ∧
        r.MadeBy (e.ignoring past) name source := by
    refine h.sourced.mono fun name source r => ?_
    rintro ⟨past, wait, later, split, made⟩
    exact ⟨past, wait, later ++ [call], by rw [split]; simp, made⟩
  obtain ⟨cache, eq⟩ := h.settings
  have left := e.ignoring_append done [call]
  cases call with
  | run r =>
    have ran := s.ran_serve r
    obtain ⟨cache', eq'⟩ := ran.settings
    refine ⟨⟨cache', ?_⟩, (older.pass r.wait).ran ran fun report new => ?_⟩
    · rw [left, show (s.perform (.run r)).engine = _ from eq',
        show (s.pass r.wait).engine = s.engine from rfl, eq]
      rfl
    · rw [new] at ran
      exact ⟨done, r.wait, [], rfl, h.madeBy ran.madeBy⟩
  | ignore d =>
    -- The cache stays as it is, with reports that the detector had a part in.
    refine ⟨⟨cache, ?_⟩, older⟩
    rw [left, Session.perform, eq]
    rfl
  | invalidate =>
    refine ⟨⟨s.engine.cache.map Cache.invalidateAll, ?_⟩, fun c cached => ?_⟩
    · rw [left, Session.perform, invalidate, eq]
      rfl
    · obtain ⟨old, before, rfl⟩ := Option.map_eq_some_iff.mp cached
      exact ⟨(h.sourced old before).1, fun name entry found => by cases found⟩

theorem performAll (h : Remembers e hash done s) (calls : List Call) :
    Remembers e hash (done ++ calls) (s.performAll calls) := by
  induction calls generalizing done s with
  | nil =>
    rw [List.append_nil]
    exact h
  | cons call rest ih =>
    rw [List.append_cons]
    exact ih (h.perform call)

/-- **A report goes back to the analysis at which it was made**: the present one, or one for an earlier
request. -/
theorem serve (h : Remembers e hash done s) {r : Request} {o : Outcome}
    (apart : ∀ r', .run r' ∈ done → hash r'.source = hash r.source → r'.source = r.source)
    (answered : (s.serve r).1 = .ok o) :
    ∃ past later, done = past ++ later ∧ (o.kept = false → later = []) ∧
      (o.kept = true → ∃ wait rest, later = .run ⟨wait, r.name, r.source⟩ :: rest) ∧
      o.report.MadeBy (e.ignoring past) r.name r.source := by
  have ran := s.ran_serve r
  rw [answered] at ran
  obtain ⟨report, kept⟩ := o
  cases kept with
  | false => exact ⟨done, [], by simp, fun _ => rfl, nofun, h.madeBy ran.madeBy⟩
  | true =>
    obtain ⟨source, same, past, wait, later, split, made⟩ :=
      (h.sourced.pass r.wait).of_kept ran
    have asked : .run ⟨wait, r.name, source⟩ ∈ done := by
      rw [split]
      exact List.mem_append_right _ List.mem_cons_self
    obtain rfl : source = r.source := apart _ asked same
    exact ⟨past, _, split, nofun, fun _ => ⟨wait, later, rfl⟩, made⟩

end Remembers

/-! ## Without a cache and with one -/

/-- What the cache of a session has under a name. -/
def kept? (s : Session) (name : Text) : Option (Cache.Entry Text Report) :=
  s.engine.cache.bind fun c => c.entries.find? name

theorem kept?_drop (s : Session) (name other : Text) :
    (s.drop name).kept? other = if other = name then none else s.kept? other := by
  unfold kept? drop
  cases s.engine.cache with
  | none => simp
  | some c => exact Dict.find?_erase c.entries name other

theorem Ran.kept?_eq {failure : Failure} {s' : Session} (ran : Ran s name source (.error failure) s')
    (other : Text) : s'.kept? other = if other = name then none else s.kept? other := by
  cases ran with
  | refused _ => exact s.kept?_drop name other
  | failed _ _ _ => exact s.kept?_drop name other

theorem Ran.verdict_eq {o : Except Failure Outcome} {s' : Session} (ran : Ran s name source o s')
    (quiet : s.engine.draws = false) (new : ∀ r, o ≠ .ok ⟨r, true⟩) :
    (·.report) <$> o = s.engine.verdict name source := by
  unfold Engine.verdict
  cases ran with
  | kept _ _ _ => exact absurd rfl (new _)
  | refused analysed => rw [analysed]; rfl
  | failed _ draws _ => rw [quiet] at draws; cases draws
  | drawn _ draws _ => rw [quiet] at draws; cases draws
  | plain analysed _ => rw [analysed]; rfl

namespace Remembers

variable {r : Request}

/-- With one engine in the history, an answer is what that engine has to say. -/
theorem report_eq (h : Remembers e hash done s) (quiet : e.draws = false)
    (fixed : ∀ d, Call.ignore d ∉ done)
    (apart : ∀ r', .run r' ∈ done → hash r'.source = hash r.source → r'.source = r.source) :
    (·.report) <$> (s.serve r).1 = e.verdict r.name r.source := by
  have same : e.ignoring done = e := Engine.ignoring_of_none fixed
  by_cases old : ∃ report, (s.serve r).1 = .ok ⟨report, true⟩
  · obtain ⟨report, answered⟩ := old
    obtain ⟨past, later, rfl, -, -, made⟩ := h.serve apart answered
    have before : e.ignoring past = e :=
      Engine.ignoring_of_none fun d mem => fixed d (List.mem_append_left _ mem)
    rw [before] at made
    rw [answered, Engine.verdict, made.analyse_eq quiet]
    rfl
  · have told := (s.ran_serve r).verdict_eq (h.draws_eq.trans quiet) fun report eq => old ⟨report, eq⟩
    rw [told, Engine.verdict, Engine.verdict, show (s.pass r.wait).engine = s.engine from rfl,
      h.analyse_eq, same]

theorem answers_eq (h : Remembers e hash done s) (quiet : e.draws = false) {calls : List Call}
    (fixed : ∀ d, Call.ignore d ∉ done ++ calls)
    (apart : ∀ r r', .run r ∈ done ++ calls → .run r' ∈ done ++ calls →
      hash r.source = hash r'.source → r.source = r'.source) :
    s.answers calls =
      (calls.filterMap Call.request?).map fun r => e.verdict r.name r.source := by
  induction calls generalizing done s with
  | nil => rfl
  | cons call rest ih =>
    have answered := ih (h.perform call) (by simpa using fixed) (by simpa using apart)
    cases call with
    | run r =>
      have first : (·.report) <$> (s.serve r).1 = e.verdict r.name r.source := by
        refine h.report_eq quiet (fun d mem => fixed d (List.mem_append_left _ mem)) ?_
        exact fun r' mem => apart r' r (List.mem_append_left _ mem) (by simp)
      rw [answers, first, answered]
      rfl
    | ignore d => exact absurd (by simp) (fixed d)
    | invalidate => exact answered

end Remembers

/-- **A cache does not show.** Take an engine that makes no drawings, and calls to it among which none
leaves a detector out. With a cache of any age limit, whose fingerprints tell the sources of the calls
apart, every request has the same answer as without a cache. A request that fails leaves nothing in
the cache under its name, and everything else as it was. -/
theorem answers_of_cache {e : Engine} {hash : Text → Text} {calls : List Call}
    (quiet : e.draws = false) (fixed : ∀ d, Call.ignore d ∉ calls)
    (apart : ∀ r r', .run r ∈ calls → .run r' ∈ calls → hash r.source = hash r'.source →
      r.source = r'.source) (maxAge : Int) (disk : Disk) (now : Nat) :
    let cached : Session := ⟨{ e with cache := some ⟨hash, maxAge, .empty⟩ }, disk, now⟩
    let plain : Session := ⟨{ e with cache := none }, disk, now⟩
    cached.answers calls = plain.answers calls ∧
    ∀ before r after failure, calls = before ++ .run r :: after →
      ((cached.performAll before).serve r).1 = .error failure →
      (cached.performAll (before ++ [.run r])).kept? r.name = none ∧
      ∀ other ≠ r.name, (cached.performAll (before ++ [.run r])).kept? other =
        (cached.performAll before).kept? other := by
  intro cached plain
  have kept : Remembers cached.engine hash [] cached := .start disk now fun c given => by
    cases given
    exact ⟨rfl, rfl⟩
  have bare : Remembers plain.engine hash [] plain := .start disk now nofun
  refine ⟨?_, fun before r after failure split failed => ?_⟩
  · rw [kept.answers_eq quiet fixed apart, bare.answers_eq quiet fixed apart]
    rfl
  · have ran := (cached.performAll before).ran_serve r
    rw [failed] at ran
    have entries := ran.kept?_eq
    rw [show cached.performAll (before ++ [.run r]) = ((cached.performAll before).serve r).2 by
      simp [performAll, perform]]
    refine ⟨(entries r.name).trans (if_pos rfl), fun other ne => ?_⟩
    exact (entries other).trans (if_neg ne)

/-- A hit, a changed source, an entry that is too old, a program that is refused, and a cache that is
emptied; the fingerprints are the first eight bytes. -/
theorem answers_of_cache_history :
    let source := Text.ofString "b x\nerr\nx: sha256"
    let changed := Text.ofString "sha256\nerr"
    let a := Text.ofString "a"
    let b := Text.ofString "b"
    let before : List Call := [.run ⟨0, a, source⟩, .run ⟨5, a, source⟩, .run ⟨0, b, source⟩,
      .run ⟨1, a, changed⟩, .run ⟨20, a, changed⟩]
    let r : Request := ⟨1, a, Text.ofString "b nowhere"⟩
    let calls := before ++ .run r :: [.invalidate, .run ⟨0, b, source⟩]
    let e := Engine.ofSettings [.noDrawings]
    let cached : Session := ⟨{ e with cache := some ⟨List.take 8, 10, .empty⟩ }, {}, 0⟩
    let plain : Session := ⟨{ e with cache := none }, {}, 0⟩
    e.draws = false ∧ (∀ d, Call.ignore d ∉ calls) ∧
    (cached.answers calls).length = 7 ∧ cached.answers calls = plain.answers calls ∧
    ((cached.performAll before).kept? a).isSome = true ∧
    ((cached.performAll before).kept? b).isSome = true ∧
    (cached.performAll (before ++ [.run r])).kept? a = none ∧
    (cached.performAll (before ++ [.run r])).kept? b = (cached.performAll before).kept? b := by
  intro source changed a b before r calls e cached plain
  have fixed : ∀ d, Call.ignore d ∉ calls := by simp [calls, before]
  have apart : ∀ r r', .run r ∈ calls → .run r' ∈ calls →
      List.take 8 r.source = List.take 8 r'.source → r.source = r'.source := by
    have sources : ∀ r, .run r ∈ calls → r.source ∈ [source, changed, Text.ofString "b nowhere"] := by
      intro r mem
      simp only [calls, before, List.mem_append, List.mem_cons, List.not_mem_nil, or_false,
        Call.run.injEq, reduceCtorEq, false_or] at mem
      rcases mem with (rfl | rfl | rfl | rfl | rfl) | rfl | rfl
      all_goals decide +kernel
    have told : ∀ x ∈ [source, changed, Text.ofString "b nowhere"],
        ∀ y ∈ [source, changed, Text.ofString "b nowhere"],
          List.take 8 x = List.take 8 y → x = y := by
      decide +kernel
    exact fun r r' mem mem' => told _ (sources r mem) _ (sources r' mem')
  obtain ⟨same, failing⟩ := answers_of_cache (e := e) rfl fixed apart 10 {} 0
  obtain ⟨failure, failed⟩ : ∃ failure, ((cached.performAll before).serve r).1 = .error failure := by
    have refused : ((cached.performAll before).serve r).1.isOk = false := by decide +kernel
    cases given : ((cached.performAll before).serve r).1 with
    | error failure => exact ⟨failure, rfl⟩
    | ok o => rw [given] at refused; cases refused
  obtain ⟨gone, others⟩ := failing before r _ failure rfl failed
  exact ⟨rfl, fixed, by decide +kernel, same, by decide +kernel, by decide +kernel, gone,
    others b (by decide +kernel)⟩

end Session

/-! ## Detectors that are left out -/

theorem Engine.mem_detect {e : Engine} {p : Program} {name : Text} {f : Finding} :
    f ∈ e.detect p name ↔ ∃ x ∈ e.registry.descriptors, x.name ∉ e.ignored ∧
      ∃ detector, e.detector? x.name = some detector ∧ f ∈ detector.detect p name := by
  simp only [detect, enabled, List.mem_flatMap, List.mem_filterMap, List.mem_filter,
    List.contains_eq_mem, Bool.not_eq_true', decide_eq_false_iff_not]
  constructor
  · rintro ⟨detector, ⟨x, ⟨registered, runs⟩, found⟩, mem⟩
    exact ⟨x, registered, runs, detector, found, mem⟩
  · rintro ⟨x, registered, runs, detector, found, mem⟩
    exact ⟨detector, ⟨x, ⟨registered, runs⟩, found⟩, mem⟩

/-- It does not matter in which order, and how often, detectors are left out. -/
theorem Engine.analyse_congr {e : Engine} {ignored ignored' : List Text}
    (same : ∀ d, d ∈ ignored ↔ d ∈ ignored') (name source : Text) :
    { e with ignored }.analyse name source =
      { e with ignored := ignored' }.analyse name source := by
  have runs : { e with ignored }.enabled = { e with ignored := ignored' }.enabled := by
    refine List.filter_congr fun x _ => ?_
    simp [same]
  unfold analyse detect
  rw [runs]
  rfl

theorem Report.Answers.findings_eq {e : Engine} {name source : Text} {r r' : Report}
    (h : r.Answers e name source) (h' : r'.Answers e name source) : r.findings = r'.findings := by
  obtain ⟨made, drawings, analysed, rfl⟩ := h
  obtain ⟨made', drawings', analysed', rfl⟩ := h'
  rw [analysed] at analysed'
  cases analysed'
  rfl

theorem Report.Answers.detected {e : Engine} {name source : Text} {r : Report}
    (h : r.Answers e name source) : Program.ofSource name source = .ok r.program ∧
      ∀ f ∈ r.findings, f ∈ e.detect r.program name := by
  obtain ⟨made, drawings, analysed, rfl⟩ := h
  obtain ⟨built, -, findings⟩ := Engine.analyse_eq_ok analysed
  refine ⟨built, fun f mem => ?_⟩
  change f ∈ made.findings at mem
  rw [findings] at mem
  exact List.mem_of_mem_filter (List.mem_of_mem_filter mem)

namespace Session

/-- **A report shows the detectors that were left out when it was made.** A report that is given out
after a history of calls is the analysis by the engine as it was at one moment of that history: now, if
the report is new, and otherwise at the request for the same source under the same name at which it was
made. If no detector has been left out since, then

* its findings are those of a fresh engine with the same settings that leaves out the same detectors,
  in whatever order and however often they were named;
* each of them comes from a detector that is registered under a name that is not left out. -/
theorem report_of_past {e : Engine} {hash : Text → Text} {disk : Disk} {now : Nat} {done : List Call}
    {r : Request} {o : Outcome}
    (fresh : ∀ c ∈ e.cache, c.fingerprint = hash ∧ c.entries = .empty)
    (apart : ∀ r', .run r' ∈ done → hash r'.source = hash r.source → r'.source = r.source)
    (answered : ((performAll ⟨e, disk, now⟩ done).serve r).1 = .ok o) :
    ∃ past later, done = past ++ later ∧ (o.kept = false → later = []) ∧
      (o.kept = true → ∃ wait rest, later = .run ⟨wait, r.name, r.source⟩ :: rest) ∧
      o.report.Answers (e.ignoring past) r.name r.source ∧
      ((∀ d, Call.ignore d ∉ later) →
        (∀ ignored, (∀ d, d ∈ ignored ↔ Call.ignore d ∈ done ∨ d ∈ e.ignored) →
          o.report.Answers { e with ignored } r.name r.source ∧
          ∀ disk' now' wait o',
            (serve ⟨{ e with ignored }, disk', now'⟩ ⟨wait, r.name, r.source⟩).1 = .ok o' →
            o'.report.findings = o.report.findings) ∧
        ∀ f ∈ o.report.findings, ∃ x ∈ e.registry.descriptors,
          Call.ignore x.name ∉ done ∧ x.name ∉ e.ignored ∧
          ∃ detector, e.detector? x.name = some detector ∧
            f ∈ detector.detect o.report.program r.name) := by
  have remembers : Remembers e hash done (performAll ⟨e, disk, now⟩ done) :=
    (Remembers.start disk now fresh).performAll done
  obtain ⟨past, later, split, new, old, made⟩ := remembers.serve apart answered
  refine ⟨past, later, split, new, old, made.1, fun since => ?_⟩
  have present : e.ignoring past = e.ignoring done := by
    rw [split, Engine.ignoring_append, Engine.ignoring_of_none since]
  have answers : o.report.Answers (e.ignoring done) r.name r.source := present ▸ made.1
  refine ⟨fun ignored same => ?_, fun f mem => ?_⟩
  · have alike : o.report.Answers { e with ignored } r.name r.source := by
      obtain ⟨report, drawings, analysed, eq⟩ := answers
      refine ⟨report, drawings, ?_, eq⟩
      rw [← analysed]
      exact Engine.analyse_congr (fun d => (same d).trans Engine.mem_ignoring.symm) _ _
    refine ⟨alike, fun disk' now' wait o' again => ?_⟩
    have start : Remembers { e with ignored } hash [] ⟨{ e with ignored }, disk', now'⟩ :=
      .start disk' now' fresh
    obtain ⟨past', later', nothing, -, -, made'⟩ := start.serve nofun again
    obtain ⟨rfl, rfl⟩ := List.append_eq_nil_iff.mp nothing.symm
    exact made'.1.findings_eq alike
  · obtain ⟨x, registered, runs, found⟩ := Engine.mem_detect.mp (answers.detected.2 f mem)
    rw [Engine.mem_ignoring, not_or] at runs
    exact ⟨x, registered, runs.1, runs.2, found⟩

/-- A report that is kept since after a detector was left out. -/
theorem report_of_past_kept :
    let source := Text.ofString "bz x\nb x\nerr\nx: sha256"
    let a := Text.ofString "a"
    let e := Engine.ofSettings [.noDrawings, .cache 0, .threshold 1]
    let dead := Detector.DeadCode.descriptor.name
    let done : List Call := [.ignore dead, .run ⟨0, a, source⟩]
    ∃ o, ((performAll ⟨e, {}, 0⟩ done).serve ⟨5, a, source⟩).1 = .ok o ∧ o.kept = true ∧
      o.report.findings.map (·.detector) = [Detector.HighComplexity.descriptor.name] ∧
      ∀ disk' now' wait o',
        (serve ⟨{ e with ignored := [dead, dead] }, disk', now'⟩ ⟨wait, a, source⟩).1 = .ok o' →
        o'.report.findings = o.report.findings := by
  intro source a e dead done
  obtain ⟨o, answered, seen⟩ := Program.exists_of_any
    (q := fun o => o.kept &&
      o.report.findings.map (·.detector) = [Detector.HighComplexity.descriptor.name])
    (r := ((performAll ⟨e, {}, 0⟩ done).serve ⟨5, a, source⟩).1) (by decide +kernel)
  obtain ⟨kept, findings⟩ := Bool.and_eq_true_iff.mp seen
  have fresh : ∀ c ∈ e.cache, c.fingerprint = id ∧ c.entries = .empty := by
    intro c given
    cases given
    exact ⟨rfl, rfl⟩
  obtain ⟨past, later, split, -, old, -, since⟩ :=
    report_of_past fresh (fun r' _ same => same) answered
  obtain ⟨wait, rest, rfl⟩ := old kept
  have none : ∀ d, Call.ignore d ∉ .run ⟨wait, a, source⟩ :: rest := by
    intro d mem
    rcases past with _ | ⟨c, past⟩
    · simp [done] at split
    · simp only [done, List.cons_append, List.cons.injEq] at split
      have tail : Call.ignore d ∈ [.run ⟨0, a, source⟩] := by
        rw [split.2]
        exact List.mem_append_right _ mem
      simp at tail
  exact ⟨o, answered, kept, of_decide_eq_true findings, fun disk' now' wait o' again =>
    ((since none).1 [dead, dead] (by simp [done, e, Engine.ofSettings, Engine.configure])).2
      disk' now' wait o' again⟩

/-- **A report that is kept from before a detector was left out still has its findings**, where a fresh
engine that leaves the detector out reports none. -/
theorem kept_over_ignore :
    let source := Text.ofString "b x\nerr\nx: sha256"
    let a := Text.ofString "a"
    let e := Engine.ofSettings [.noDrawings, .cache 0]
    let dead := Detector.DeadCode.descriptor.name
    let done : List Call := [.run ⟨0, a, source⟩, .ignore dead]
    ∃ o o', ((performAll ⟨e, {}, 0⟩ done).serve ⟨0, a, source⟩).1 = .ok o ∧
      (serve ⟨e.ignore dead, {}, 0⟩ ⟨0, a, source⟩).1 = .ok o' ∧
      o.report.findings.map (·.detector) = [dead] ∧ o'.report.findings.map (·.detector) = [] := by
  intro source a e dead done
  obtain ⟨o, answered, seen⟩ := Program.exists_of_any
    (q := fun o => o.report.findings.map (·.detector) = [dead])
    (r := ((performAll ⟨e, {}, 0⟩ done).serve ⟨0, a, source⟩).1) (by decide +kernel)
  obtain ⟨o', answered', seen'⟩ := Program.exists_of_any
    (q := fun o => o.report.findings.map (·.detector) = [])
    (r := (serve ⟨e.ignore dead, {}, 0⟩ ⟨0, a, source⟩).1) (by decide +kernel)
  exact ⟨o, o', answered, answered', of_decide_eq_true seen, of_decide_eq_true seen'⟩

end Session

end TealAudit
