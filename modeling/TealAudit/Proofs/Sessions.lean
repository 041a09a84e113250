import TealAudit.Engine

/-!
# What a session answers

A request to a session goes one of five ways (`Session.Ran`): its report is kept from before, its
program is refused, a drawing fails, or the report is new, with drawings or without. All but the first
start by dropping what the cache has under the name (`Cache.get_eq`); to drop a name that is not there
changes nothing, so it does not matter why the cache did not serve.

What a session answers may be what it was asked for earlier. **The law** is that its answers do not
show this (`Session.Faithful.runSource`): as long as the settings of its engine stay as they are, each
report is the analysis of the source that was asked for, but for the drawings, which are made on the
way. The invariant is `Session.Faithful`: every report in the cache answers for the content it is kept
for. Each way that a request goes keeps it (`Faithful.ran`), and so does a history of requests
(`Faithful.after`).

`Session.Sourced` is the shape that other invariants of a cache have: each entry has the fingerprint
of a source that its result belongs to.
-/

namespace TealAudit

/-- **A report that answers for a source**: it is the analysis of the source but for the drawings. -/
def Report.Answers (e : Engine) (name source : Text) (r : Report) : Prop :=
  ∃ made drawings, e.analyse name source = .ok made ∧ r = { made with drawings }

/-- **An analysis that succeeds**: its program is that of the source, and nothing is drawn yet. -/
theorem Engine.analyse_eq_ok {e : Engine} {name source : Text} {made : Report}
    (analysed : e.analyse name source = .ok made) :
    Program.ofSource name source = .ok made.program ∧ made.drawings = .empty ∧
      made.findings = (Suppression.ofSource source).filter
        ((e.detect made.program name).filter fun f => e.least.level ≤ f.impact.level) := by
  unfold analyse at analysed
  cases built : Program.ofSource name source with
  | error fault => rw [built] at analysed; cases analysed
  | ok p =>
    rw [built] at analysed
    cases analysed
    exact ⟨rfl, rfl, rfl⟩

/-- A request to a session: how long after the one before, under which name, for which source. -/
structure Request where
  wait : Nat
  name : Text
  source : Text

namespace Cache

variable {δ ρ : Type}

/-- The cache without the entry of a name. -/
def drop (c : Cache δ ρ) (name : Text) : Cache δ ρ := { c with entries := c.entries.erase name }

/-- **A request is served by the entry of its name, or drops it.** -/
theorem get_eq [DecidableEq δ] (c : Cache δ ρ) (now : Nat) (name content : Text) :
    (∃ e, c.entries.find? name = some e ∧ c.serves e now content = true ∧
        c.get now name content = (some e.result, c)) ∨
      c.get now name content = (none, c.drop name) := by
  unfold get
  cases found : c.entries.find? name with
  | none =>
    right
    simp only [drop, Dict.erase_eq_self found]
  | some e =>
    by_cases serves : c.serves e now content = true
    · left
      exact ⟨e, rfl, serves, by simp [serves]⟩
    · right
      simp [serves, drop]

end Cache

/-! ## One request -/

namespace Session

/-- The answer to a request, and the session after it. -/
def serve (s : Session) (r : Request) : Except Failure Outcome × Session :=
  (s.pass r.wait).runSource r.name r.source

/-- The session after requests. -/
def after (s : Session) (requests : List Request) : Session :=
  requests.foldl (fun s r => (s.serve r).2) s

/-- The session with the entry of a name dropped from its cache. -/
def drop (s : Session) (name : Text) : Session :=
  { s with engine := { s.engine with cache := s.engine.cache.map fun c => c.drop name } }

/-- **The ways a request goes**: its answer, and the session after it. -/
inductive Ran (s : Session) (name source : Text) : Except Failure Outcome → Session → Prop
  | kept {c : Cache Text Report} {entry : Cache.Entry Text Report} :
      s.engine.cache = some c → c.entries.find? name = some entry →
      c.serves entry s.now source = true → Ran s name source (.ok ⟨entry.result, true⟩) s
  | refused {fault : SyntaxError} : s.engine.analyse name source = .error fault →
      Ran s name source (.error (.refused fault)) (s.drop name)
  | failed {made : Report} {failure : Failure} {disk : Disk} :
      s.engine.analyse name source = .ok made → s.engine.draws = true →
      s.disk.drawAll s.engine.folder made.program .empty made.findings = (.error failure, disk) →
      Ran s name source (.error failure) { s.drop name with disk }
  | drawn {made : Report} {drawings : Dict Text} {disk : Disk} :
      s.engine.analyse name source = .ok made → s.engine.draws = true →
      s.disk.drawAll s.engine.folder made.program .empty made.findings = (.ok drawings, disk) →
      Ran s name source (.ok ⟨{ made with drawings }, false⟩)
        (keep { s.drop name with disk } name source { made with drawings })
  | plain {made : Report} : s.engine.analyse name source = .ok made → s.engine.draws = false →
      Ran s name source (.ok ⟨made, false⟩) ((s.drop name).keep name source made)

theorem lookUp_eq (s : Session) (name source : Text) :
    (∃ c entry, s.engine.cache = some c ∧ c.entries.find? name = some entry ∧
        c.serves entry s.now source = true ∧ s.lookUp name source = (some entry.result, s)) ∨
      s.lookUp name source = (none, s.drop name) := by
  obtain ⟨⟨registry, overrides, ignored, folder, draws, least, cache⟩, disk, now⟩ := s
  cases cache with
  | none => exact .inr rfl
  | some c =>
    rcases c.get_eq now name source with ⟨entry, found, serves, eq⟩ | eq
    · exact .inl ⟨c, entry, rfl, found, serves, by simp [lookUp, eq]⟩
    · exact .inr (by simp [lookUp, drop, eq])

theorem ran (s : Session) (name source : Text) :
    Ran s name source (s.runSource name source).1 (s.runSource name source).2 := by
  unfold runSource
  rcases s.lookUp_eq name source with ⟨c, entry, cached, found, serves, eq⟩ | eq
  · rw [eq]
    exact .kept cached found serves
  · rw [eq]
    -- What is kept has no part in an analysis.
    have settings : (s.drop name).engine.analyse name source = s.engine.analyse name source := rfl
    simp only [settings]
    cases analysed : s.engine.analyse name source with
    | error fault => exact .refused analysed
    | ok made =>
      simp only [drawReport]
      cases draws : (s.drop name).engine.draws with
      | false => exact .plain analysed draws
      | true =>
        cases drawn : (s.drop name).disk.drawAll (s.drop name).engine.folder made.program .empty
            made.findings with
        | mk outcome disk =>
          cases outcome with
          | error failure => exact .failed analysed draws drawn
          | ok drawings => exact .drawn analysed draws drawn

theorem ran_serve (s : Session) (r : Request) :
    Ran (s.pass r.wait) r.name r.source (s.serve r).1 (s.serve r).2 :=
  ran (s.pass r.wait) r.name r.source

variable {name source : Text} {s s' : Session} {o : Except Failure Outcome}

theorem Ran.settings (ran : Ran s name source o s') :
    ∃ cache, s'.engine = { s.engine with cache } := by
  cases ran with
  | kept _ _ _ => exact ⟨s.engine.cache, rfl⟩
  | refused _ => exact ⟨_, rfl⟩
  | failed _ _ _ => exact ⟨_, rfl⟩
  | drawn _ _ _ => exact ⟨_, rfl⟩
  | plain _ _ => exact ⟨_, rfl⟩

/-- A new report is that of the engine at work. -/
theorem Ran.answers {r : Report} (ran : Ran s name source (.ok ⟨r, false⟩) s') :
    r.Answers s.engine name source := by
  cases ran with
  | @drawn made drawings _ analysed _ _ => exact ⟨made, drawings, analysed, rfl⟩
  | plain analysed _ => exact ⟨r, r.drawings, analysed, rfl⟩

/-! ## Faithful sessions -/

/-- **A session that is faithful to an engine**: it has the settings of the engine, and each report in
its cache answers for the content it is kept for. -/
structure Faithful (e : Engine) (s : Session) : Prop where
  settings : ∃ cache, s.engine = { e with cache }
  kept : ∀ c ∈ s.engine.cache, c.fingerprint = id ∧ ∀ entry ∈ c.entries.entries,
    Report.Answers e entry.1 entry.2.fingerprint entry.2.result

namespace Faithful

variable {e : Engine}

/-- A session is faithful when it starts with nothing in its cache. -/
theorem start (e : Engine) (disk : Disk) (now : Nat)
    (empty : ∀ c ∈ e.cache, c.fingerprint = id ∧ c.entries = .empty) : Faithful e ⟨e, disk, now⟩ := by
  refine ⟨⟨e.cache, rfl⟩, fun c mem => ?_⟩
  obtain ⟨identity, nothing⟩ := empty c mem
  refine ⟨identity, fun entry entered => ?_⟩
  rw [nothing] at entered
  cases entered

theorem pass (h : Faithful e s) (n : Nat) : Faithful e (s.pass n) := ⟨h.settings, h.kept⟩

theorem onDisk (h : Faithful e s) (disk : Disk) : Faithful e { s with disk } := ⟨h.settings, h.kept⟩

theorem drop (h : Faithful e s) (name : Text) : Faithful e (s.drop name) := by
  obtain ⟨cache, eq⟩ := h.settings
  refine ⟨⟨_, by rw [Session.drop, eq]⟩, fun c cached => ?_⟩
  obtain ⟨old, before, rfl⟩ := Option.map_eq_some_iff.mp cached
  obtain ⟨identity, answers⟩ := h.kept old before
  exact ⟨identity, fun entry mem => answers entry (List.mem_filter.mp mem).1⟩

theorem keep (h : Faithful e s) {r : Report} (new : r.Answers e name source) :
    Faithful e (s.keep name source r) := by
  obtain ⟨cache, eq⟩ := h.settings
  refine ⟨⟨_, by rw [Session.keep, eq]⟩, fun c cached => ?_⟩
  obtain ⟨old, before, rfl⟩ := Option.map_eq_some_iff.mp cached
  obtain ⟨identity, answers⟩ := h.kept old before
  refine ⟨identity, fun entry mem => ?_⟩
  rcases Dict.eq_or_mem_of_insertEntry mem with rfl | mem
  · rw [identity]
    exact new
  · exact answers entry mem

theorem analyse_eq (h : Faithful e s) : s.engine.analyse name source = e.analyse name source := by
  obtain ⟨cache, eq⟩ := h.settings
  rw [eq]
  rfl

/-- **Each way that a request goes keeps a session faithful, and its answer is the analysis of what was
asked for.** -/
theorem ran (h : Faithful e s) (ran : Ran s name source o s') :
    Faithful e s' ∧ ∀ out, o = .ok out → out.report.Answers e name source := by
  cases ran with
  | @kept c entry cached found serves =>
    refine ⟨h, fun out given => ?_⟩
    cases given
    obtain ⟨identity, answers⟩ := h.kept c cached
    obtain ⟨named, first, rfl⟩ := Option.map_eq_some_iff.mp found
    have same : named.1 = name := by simpa using List.find?_some first
    have content : named.2.fingerprint = source := by
      simpa [Cache.serves, identity] using (Bool.and_eq_true_iff.mp serves).2
    have answer := answers named (List.mem_of_find?_eq_some first)
    rwa [same, content] at answer
  | refused _ => exact ⟨h.drop name, nofun⟩
  | failed _ _ _ => exact ⟨(h.drop name).onDisk _, nofun⟩
  | @drawn made drawings _ analysed _ _ =>
    have new : Report.Answers e name source { made with drawings } :=
      ⟨made, drawings, h.analyse_eq ▸ analysed, rfl⟩
    refine ⟨((h.drop name).onDisk _).keep new, fun out given => ?_⟩
    cases given
    exact new
  | @plain made analysed _ =>
    have new : made.Answers e name source := ⟨made, made.drawings, h.analyse_eq ▸ analysed, rfl⟩
    refine ⟨(h.drop name).keep new, fun out given => ?_⟩
    cases given
    exact new

/-- **A request keeps a session faithful, and its answer is the analysis of what was asked for.** -/
theorem runSource (h : Faithful e s) : Faithful e (s.runSource name source).2 ∧
    ∀ o, (s.runSource name source).1 = .ok o → o.report.Answers e name source :=
  h.ran (s.ran name source)

theorem after (h : Faithful e s) (requests : List Request) : Faithful e (s.after requests) := by
  induction requests generalizing s with
  | nil => exact h
  | cons r rest ih => exact ih (h.pass r.wait).runSource.1

theorem serve (h : Faithful e s) {r : Request} {o : Outcome} (answered : (s.serve r).1 = .ok o) :
    o.report.Answers e r.name r.source :=
  (h.pass r.wait).runSource.2 o answered

end Faithful

/-! ## What a cache holds -/

/-- **Every entry has a source**: the cache of a session takes fingerprints by `hash`, and each of its
entries has the fingerprint of a source that goes with its name and its result. -/
def Sourced (hash : Text → Text) (q : Text → Text → Report → Prop) (s : Session) : Prop :=
  ∀ c ∈ s.engine.cache, c.fingerprint = hash ∧ ∀ name entry, c.entries.find? name = some entry →
    ∃ source, entry.fingerprint = hash source ∧ q name source entry.result

variable {hash : Text → Text} {q : Text → Text → Report → Prop}

theorem Sourced.start {e : Engine} (disk : Disk) (now : Nat)
    (fresh : ∀ c ∈ e.cache, c.fingerprint = hash ∧ c.entries = .empty) :
    Sourced hash q ⟨e, disk, now⟩ := by
  intro c cached
  refine ⟨(fresh c cached).1, fun name entry found => ?_⟩
  rw [(fresh c cached).2] at found
  cases found

theorem Sourced.mono {q' : Text → Text → Report → Prop} (h : s.Sourced hash q)
    (more : ∀ name source r, q name source r → q' name source r) : s.Sourced hash q' := by
  intro c cached
  refine ⟨(h c cached).1, fun name entry found => ?_⟩
  obtain ⟨source, same, holds⟩ := (h c cached).2 name entry found
  exact ⟨source, same, more _ _ _ holds⟩

theorem Sourced.pass (h : s.Sourced hash q) (n : Nat) : (s.pass n).Sourced hash q := h

theorem Sourced.onDisk (h : s.Sourced hash q) (disk : Disk) : Sourced hash q { s with disk } := h

theorem Sourced.drop (h : s.Sourced hash q) (name : Text) : (s.drop name).Sourced hash q := by
  intro c cached
  obtain ⟨old, before, rfl⟩ := Option.map_eq_some_iff.mp cached
  refine ⟨(h old before).1, fun other entry found => ?_⟩
  simp only [Cache.drop, Dict.find?_erase] at found
  split at found
  · cases found
  · exact (h old before).2 other entry found

theorem Sourced.keep (h : s.Sourced hash q) {r : Report} (holds : q name source r) :
    (s.keep name source r).Sourced hash q := by
  intro c cached
  obtain ⟨old, before, rfl⟩ := Option.map_eq_some_iff.mp cached
  obtain ⟨prints, entries⟩ := h old before
  refine ⟨prints, fun other entry found => ?_⟩
  simp only [Cache.set, Dict.find?_insert] at found
  split at found
  · next same =>
    cases found
    exact ⟨source, congrFun prints source, same ▸ holds⟩
  · exact entries other entry found

/-- **A request keeps the sources of entries**, if the new report it makes, if any, goes with its own
source. -/
theorem Sourced.ran (h : s.Sourced hash q)
    (ran : Ran s name source o s') (new : ∀ r, o = .ok ⟨r, false⟩ → q name source r) :
    s'.Sourced hash q := by
  cases ran with
  | kept _ _ _ => exact h
  | refused _ => exact h.drop name
  | failed _ _ _ => exact (h.drop name).onDisk _
  | drawn _ _ _ => exact ((h.drop name).onDisk _).keep (new _ rfl)
  | plain _ _ => exact (h.drop name).keep (new _ rfl)

/-- A report that is kept from before goes with a source of the same fingerprint. -/
theorem Sourced.of_kept (h : s.Sourced hash q) {r : Report}
    (ran : Ran s name source (.ok ⟨r, true⟩) s') :
    ∃ source', hash source' = hash source ∧ q name source' r := by
  cases ran with
  | @kept c entry cached found serves =>
    obtain ⟨prints, entries⟩ := h c cached
    obtain ⟨source', same, holds⟩ := entries name entry found
    refine ⟨source', ?_, holds⟩
    rw [← same, ← prints]
    simpa [Cache.serves] using (Bool.and_eq_true_iff.mp serves).2

end Session

end TealAudit
