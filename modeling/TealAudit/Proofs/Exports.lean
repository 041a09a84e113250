import TealAudit.Proofs.Histories
import TealAudit.Proofs.Writing

/-!
# What the files of drawings hold

A report names a file for each detector whose findings were drawn. The file is named after the
program, with its slashes made harmless, and after what is drawn. **The law** (`Session.drawings_hold`)
is that after any number of further requests each of these files holds what the report is about: the
program, with the blocks of the detector's finding highlighted.

It holds as long as no later program has a name that comes out the same. Two names that differ in their
slashes only share a file, and the later drawing is the one that stays (`Session.drawings_collide`).

While the drawings of one report are written, `Disk.Shows` is kept: every file named so far holds its
drawing. A drawing changes one file of the folder (`Disk.draw_spec`), and two findings that are drawn
into one file are drawn alike (`Finding.Fit`). Later requests write other files of the folder
(`Session.Ran.read_eq`).
-/

namespace TealAudit

/-! ## File names -/

namespace Drawing

/-- A flat name holds no separator of paths. -/
theorem not_mem_flatName {b : UInt8} (separates : b = Path.slash ∨ b = Text.byte '\\') (name : Text) :
    b ∉ flatName name := by
  intro mem
  obtain ⟨c, -, eq⟩ := List.mem_map.mp mem
  split at eq
  · rcases separates with rfl | rfl
    · exact absurd eq (by decide)
    · exact absurd eq (by decide)
  · next plain =>
    subst eq
    rw [Bool.or_eq_true, decide_eq_true_eq, decide_eq_true_eq] at plain
    exact plain separates

theorem isName_fileName {suffix : Text} (plain : Path.slash ∉ suffix) (name : Text) :
    Path.IsName (fileName name suffix) := by
  have long : Path.dotDot.length < (fileName name suffix).length := by
    simp only [fileName, List.length_append]
    exact Nat.lt_of_lt_of_le (by decide) (Nat.le_add_left (List.length (".dot" : Text)) _)
  refine ⟨?_, ?_, ?_, ?_⟩
  · intro eq
    rw [eq] at long
    exact absurd long (by decide)
  · simp only [fileName, List.mem_append, not_or]
    exact ⟨⟨⟨not_mem_flatName (.inl rfl) name, by decide⟩, plain⟩, by decide⟩
  · intro eq
    rw [eq] at long
    exact absurd long (by decide)
  · intro eq
    rw [eq] at long
    exact absurd long (by decide)

theorem fileName_inj {name name' suffix : Text} :
    fileName name suffix = fileName name' suffix ↔ flatName name = flatName name' := by
  simp [fileName]

end Drawing

/-! ## Drawings of one report -/

/-- The drawing of a program for a finding: the blocks of the finding are highlighted. -/
def Finding.picture (f : Finding) (p : Program) : Text :=
  (Drawing.highlighting p (f.blocks.map (·.index))).render

/-- **Findings that are drawn side by side**: what is drawn under one suffix is drawn alike. -/
structure Finding.Fit (p : Program) (fs : List Finding) : Prop where
  plain : ∀ f ∈ fs, ∀ suffix, f.drawing = some suffix → Path.slash ∉ suffix
  alike : ∀ f ∈ fs, ∀ g ∈ fs, ∀ suffix, f.drawing = some suffix → g.drawing = some suffix →
    f.picture p = g.picture p

namespace Disk

variable {d d' : Disk} {folder path suffix : Text} {p : Program} {drawings drawings' : Dict Text}
  {fs : List Finding}

theorem draw_eq_ok {highlighted : List Nat} : d.draw folder suffix p highlighted = .ok (path, d') ↔
    path = Path.join folder (Drawing.fileName p.name suffix) ∧
    d.write path (Drawing.highlighting p highlighted).render = .ok d' := by
  simp only [draw]
  cases written : d.write (Path.join folder (Drawing.fileName p.name suffix))
      (Drawing.highlighting p highlighted).render with
  | error fault =>
    constructor
    · exact nofun
    · rintro ⟨rfl, made⟩
      rw [written] at made
      cases made
  | ok after =>
    constructor
    · intro made
      cases made
      exact ⟨rfl, written⟩
    · rintro ⟨rfl, made⟩
      rw [written] at made
      cases made
      rfl

theorem draw_eq_error {highlighted : List Nat} {e : FileError} :
    d.draw folder suffix p highlighted = .error e ↔
      d.write (Path.join folder (Drawing.fileName p.name suffix))
        (Drawing.highlighting p highlighted).render = .error e := by
  simp only [draw]
  cases d.write (Path.join folder (Drawing.fileName p.name suffix))
      (Drawing.highlighting p highlighted).render with
  | error fault => exact ⟨fun failed => by cases failed; rfl, fun failed => by cases failed; rfl⟩
  | ok after => exact ⟨nofun, nofun⟩

theorem draw_spec {highlighted : List Nat} (plain : Path.slash ∉ suffix)
    (drawn : d.draw folder suffix p highlighted = .ok (path, d')) :
    path = Path.join folder (Drawing.fileName p.name suffix) ∧
    d'.read path = .ok (Drawing.highlighting p highlighted).render ∧
    ∀ other, Path.IsName other → other ≠ Drawing.fileName p.name suffix → ∀ content,
      d.read (Path.join folder other) = .ok content →
      d'.read (Path.join folder other) = .ok content := by
  obtain ⟨rfl, written⟩ := draw_eq_ok.mp drawn
  exact ⟨rfl, read_write (Drawing.isName_fileName plain p.name) written⟩

/-- **A file stays as the drawings of a report are written**, if what is drawn into it is what it
holds. -/
theorem read_drawAll {name content : Text} (named : Path.IsName name)
    (plain : ∀ f ∈ fs, ∀ suffix, f.drawing = some suffix → Path.slash ∉ suffix)
    (apart : ∀ f ∈ fs, ∀ suffix, f.drawing = some suffix →
      name = Drawing.fileName p.name suffix → f.picture p = content)
    (held : d.read (Path.join folder name) = .ok content) :
    (drawAll folder p d drawings fs).2.read (Path.join folder name) = .ok content := by
  induction fs generalizing d drawings with
  | nil => exact held
  | cons f rest ih =>
    obtain ⟨plain, later⟩ := List.forall_mem_cons.mp plain
    obtain ⟨apart, laterApart⟩ := List.forall_mem_cons.mp apart
    unfold drawAll
    cases asks : f.drawing with
    | none => exact ih later laterApart held
    | some suffix =>
      simp only
      cases drawn : d.draw folder suffix p (f.blocks.map (·.index)) with
      | error fault => exact held
      | ok made =>
        obtain ⟨path, d'⟩ := made
        obtain ⟨rfl, shown, others⟩ := draw_spec (plain suffix asks) drawn
        refine ih later laterApart ?_
        by_cases same : name = Drawing.fileName p.name suffix
        · rw [same, ← apart suffix asks same]
          exact shown
        · exact others name named same content held

/-- **The files of drawings hold what was drawn**: each is named for a finding of its detector. -/
def Shows (d : Disk) (folder : Text) (p : Program) (fs : List Finding) (drawings : Dict Text) : Prop :=
  ∀ detector path, drawings.find? detector = some path → ∃ f ∈ fs, ∃ suffix,
    f.drawing = some suffix ∧ f.detector = detector ∧
    path = Path.join folder (Drawing.fileName p.name suffix) ∧ d.read path = .ok (f.picture p)

theorem Shows.draw (shows : d.Shows folder p fs drawings) (fit : Finding.Fit p fs) {f : Finding}
    (mem : f ∈ fs) (asks : f.drawing = some suffix)
    (drawn : d.draw folder suffix p (f.blocks.map (·.index)) = .ok (path, d')) :
    d'.Shows folder p fs (drawings.insert f.detector path) := by
  obtain ⟨rfl, shown, others⟩ := draw_spec (fit.plain f mem suffix asks) drawn
  intro detector path found
  rw [Dict.find?_insert] at found
  split at found
  · next same =>
    cases found
    exact ⟨f, mem, suffix, asks, same.symm, rfl, shown⟩
  · obtain ⟨g, member, suffix', asks', named, rfl, held⟩ := shows detector path found
    refine ⟨g, member, suffix', asks', named, rfl, ?_⟩
    -- An earlier drawing is in another file, or it was just drawn again and looks the same.
    by_cases same : suffix' = suffix
    · subst same
      rw [fit.alike g member f mem suffix' asks' asks]
      exact shown
    · refine others _ (Drawing.isName_fileName (fit.plain g member suffix' asks') p.name) ?_ _ held
      simpa [Drawing.fileName] using same

/-- **All drawings of a report are held by their files** once the last one is written. -/
theorem Shows.drawAll (shows : d.Shows folder p fs drawings) (fit : Finding.Fit p fs)
    {rest : List Finding} (sub : ∀ f ∈ rest, f ∈ fs)
    (drawn : Disk.drawAll folder p d drawings rest = (.ok drawings', d')) :
    d'.Shows folder p fs drawings' := by
  induction rest generalizing d drawings with
  | nil =>
    cases drawn
    exact shows
  | cons f rest ih =>
    obtain ⟨mem, sub⟩ := List.forall_mem_cons.mp sub
    unfold Disk.drawAll at drawn
    cases asks : f.drawing with
    | none =>
      rw [asks] at drawn
      exact ih shows sub drawn
    | some suffix =>
      simp only [asks] at drawn
      cases made : d.draw folder suffix p (f.blocks.map (·.index)) with
      | error fault => rw [made] at drawn; cases drawn
      | ok made' =>
        obtain ⟨path, d''⟩ := made'
        rw [made] at drawn
        exact ih (shows.draw fit mem asks made) sub drawn

/-- Each finding that asks for a drawing has a file. -/
theorem isSome_drawAll {rest : List Finding}
    (drawn : Disk.drawAll folder p d drawings rest = (.ok drawings', d')) :
    (∀ detector, (drawings.find? detector).isSome = true → (drawings'.find? detector).isSome = true) ∧
    ∀ f ∈ rest, f.drawing.isSome = true → (drawings'.find? f.detector).isSome = true := by
  induction rest generalizing d drawings with
  | nil =>
    cases drawn
    exact ⟨fun _ => id, nofun⟩
  | cons f rest ih =>
    unfold Disk.drawAll at drawn
    cases asks : f.drawing with
    | none =>
      rw [asks] at drawn
      obtain ⟨old, new⟩ := ih drawn
      refine ⟨old, fun g mem some => ?_⟩
      rcases List.mem_cons.mp mem with rfl | mem
      · rw [asks] at some
        cases some
      · exact new g mem some
    | some suffix =>
      simp only [asks] at drawn
      cases made : d.draw folder suffix p (f.blocks.map (·.index)) with
      | error fault => rw [made] at drawn; cases drawn
      | ok made' =>
        rw [made] at drawn
        obtain ⟨old, new⟩ := ih drawn
        refine ⟨fun detector some => old detector ?_, fun g mem some => ?_⟩
        · rw [Dict.find?_insert]
          split
          · rfl
          · exact some
        · rcases List.mem_cons.mp mem with rfl | mem
          · exact old _ (by rw [Dict.find?_insert, if_pos rfl]; rfl)
          · exact new g mem some

end Disk

/-! ## Detectors of the library -/

theorem Detector.Builtin.drawing_eq {d : Detector} (h : d.Builtin) {p : Program} {file : Text}
    {f : Finding} (mem : f ∈ d.detect p file) :
    f.drawing = none ∧ f.detector = HighComplexity.descriptor.name ∨
    f.drawing = some DeadCode.descriptor.name ∧ f.detector = DeadCode.descriptor.name ∧
      f.blocks = DeadCode.deadBlocks p := by
  cases h with
  | deadCode =>
    right
    change f ∈ DeadCode.detect p file at mem
    unfold DeadCode.detect at mem
    split at mem
    · cases mem
    · rw [List.mem_singleton.mp mem]
      exact ⟨rfl, rfl, rfl⟩
  | highComplexity threshold =>
    left
    change f ∈ HighComplexity.detect threshold p file at mem
    unfold HighComplexity.detect at mem
    simp only at mem
    split at mem
    · cases mem
    · rw [List.mem_singleton.mp mem]
      exact ⟨rfl, rfl⟩

theorem Program.name_of_source {name source : Text} {p : Program}
    (built : ofSource name source = .ok p) : p.name = name := by
  unfold ofSource at built
  cases parsed : Listing.parse name source with
  | error fault => rw [parsed] at built; cases built
  | ok l =>
    rw [parsed] at built
    change ofListing name source l = .ok p at built
    simp only [ofListing] at built
    split at built
    · cases built
    · cases built
      rfl

namespace Engine.Stock

variable {e : Engine} {name source : Text} {r : Report} {f : Finding}

theorem drawing_eq (stock : e.Stock) (answers : r.Answers e name source) (mem : f ∈ r.findings) :
    f.drawing = none ∧ f.detector = Detector.HighComplexity.descriptor.name ∨
    f.drawing = some Detector.DeadCode.descriptor.name ∧
      f.detector = Detector.DeadCode.descriptor.name ∧
      f.blocks = Detector.DeadCode.deadBlocks r.program := by
  obtain ⟨x, -, -, detector, found, mem⟩ := mem_detect.mp (answers.detected.2 f mem)
  exact (stock.detector?_builtin found).drawing_eq mem

/-- Only dead code is drawn. -/
theorem eq_of_drawing (stock : e.Stock) (answers : r.Answers e name source) (mem : f ∈ r.findings)
    {suffix : Text} (asks : f.drawing = some suffix) :
    suffix = Detector.DeadCode.descriptor.name ∧ f.detector = Detector.DeadCode.descriptor.name := by
  rcases stock.drawing_eq answers mem with ⟨silent, -⟩ | ⟨drawn, named, -⟩
  · rw [silent] at asks
    cases asks
  · rw [drawn] at asks
    exact ⟨(Option.some.inj asks).symm, named⟩

theorem blocks_eq (stock : e.Stock) (answers : r.Answers e name source) (mem : f ∈ r.findings)
    (named : f.detector = Detector.DeadCode.descriptor.name) :
    f.blocks = Detector.DeadCode.deadBlocks r.program := by
  rcases stock.drawing_eq answers mem with ⟨-, other⟩ | ⟨-, -, blocks⟩
  · exact absurd (named.symm.trans other) (by decide)
  · exact blocks

theorem fit (stock : e.Stock) (answers : r.Answers e name source) :
    Finding.Fit r.program r.findings := by
  constructor
  · intro f mem suffix asks
    rw [(stock.eq_of_drawing answers mem asks).1]
    decide
  · intro f mem g member suffix asks asks'
    have named := (stock.eq_of_drawing answers mem asks).2
    have named' := (stock.eq_of_drawing answers member asks').2
    rw [Finding.picture, Finding.picture, stock.blocks_eq answers mem named,
      stock.blocks_eq answers member named']

end Engine.Stock

/-! ## Sessions -/

namespace Session

variable {e : Engine} {s s' : Session} {name source : Text} {o : Except Failure Outcome}

/-- **A request leaves the drawings of other programs as they are.** -/
theorem Ran.read_eq (ran : Ran s name source o s') (faithful : Faithful e s) (stock : e.Stock)
    {file content : Text} (named : Path.IsName file)
    (apart : file ≠ Drawing.fileName name Detector.DeadCode.descriptor.name)
    (held : s.disk.read (Path.join e.folder file) = .ok content) :
    s'.disk.read (Path.join e.folder file) = .ok content := by
  have folder : s.engine.folder = e.folder := by
    obtain ⟨cache, eq⟩ := faithful.settings
    rw [eq]
  have drawn {made : Report} (analysed : s.engine.analyse name source = .ok made) :
      (s.disk.drawAll s.engine.folder made.program .empty made.findings).2.read
        (Path.join e.folder file) = .ok content := by
    have answers : made.Answers e name source :=
      ⟨made, made.drawings, faithful.analyse_eq ▸ analysed, rfl⟩
    rw [folder]
    refine Disk.read_drawAll named (stock.fit answers).plain (fun f mem suffix asks same => ?_) held
    rw [(stock.eq_of_drawing answers mem asks).1, Program.name_of_source answers.detected.1] at same
    exact absurd same apart
  cases ran with
  | kept _ _ _ => exact held
  | refused _ => exact held
  | failed analysed _ failed =>
    have kept := drawn analysed
    rw [failed] at kept
    exact kept
  | drawn analysed _ done =>
    have kept := drawn analysed
    rw [done] at kept
    exact kept
  | plain _ _ => exact held

theorem read_after (faithful : Faithful e s) (stock : e.Stock) {requests : List Request}
    {file content : Text} (named : Path.IsName file)
    (apart : ∀ r ∈ requests, file ≠ Drawing.fileName r.name Detector.DeadCode.descriptor.name)
    (held : s.disk.read (Path.join e.folder file) = .ok content) :
    (s.after requests).disk.read (Path.join e.folder file) = .ok content := by
  induction requests generalizing s with
  | nil => exact held
  | cons r rest ih =>
    obtain ⟨first, apart⟩ := List.forall_mem_cons.mp apart
    have passed := faithful.pass r.wait
    exact ih passed.runSource.1 apart ((s.ran_serve r).read_eq passed stock named first held)

/-- What the cache has was asked for. -/
theorem sourced_after {q : Text → Text → Report → Prop} {requests : List Request}
    (start : s.Sourced id q) (asked : ∀ r ∈ requests, ∀ report, q r.name r.source report) :
    (s.after requests).Sourced id q := by
  induction requests generalizing s with
  | nil => exact start
  | cons r rest ih =>
    obtain ⟨first, asked⟩ := List.forall_mem_cons.mp asked
    exact ih ((start.pass r.wait).ran (s.ran_serve r) fun report _ => first report) asked

/-- A report under a name that was not asked for before is new. -/
theorem new_of_name (fresh : ∀ c ∈ e.cache, c.fingerprint = id ∧ c.entries = .empty) {disk : Disk}
    {now : Nat} {before : List Request} {r : Request} {o : Outcome}
    (unknown : r.name ∉ before.map (·.name))
    (answered : ((Session.after ⟨e, disk, now⟩ before).serve r).1 = .ok o) : o.kept = false := by
  have sourced : (Session.after ⟨e, disk, now⟩ before).Sourced id
      fun name _ _ => name ∈ before.map (·.name) :=
    sourced_after (.start disk now fresh) fun r mem _ => List.mem_map_of_mem mem
  have ran := (Session.after ⟨e, disk, now⟩ before).ran_serve r
  rw [answered] at ran
  obtain ⟨report, kept⟩ := o
  cases kept with
  | false => rfl
  | true =>
    obtain ⟨source', -, earlier⟩ := (sourced.pass r.wait).of_kept ran
    exact absurd earlier unknown

/-- **A new report names the files that its drawings are in.** -/
theorem Ran.shows {r : Report} (ran : Ran s name source (.ok ⟨r, false⟩) s') (faithful : Faithful e s)
    (stock : e.Stock) (draws : e.draws = true) :
    s'.disk.Shows e.folder r.program r.findings r.drawings ∧
    ∀ f ∈ r.findings, f.drawing.isSome = true → (r.drawings.find? f.detector).isSome = true := by
  obtain ⟨cache, eq⟩ := faithful.settings
  cases ran with
  | @drawn made drawings disk analysed _ done =>
    have answers : made.Answers e name source :=
      ⟨made, made.drawings, faithful.analyse_eq ▸ analysed, rfl⟩
    rw [eq] at done
    have nothing : s.disk.Shows e.folder made.program made.findings .empty := by
      intro detector path found
      cases found
    exact ⟨nothing.drawAll (stock.fit answers) (fun _ => id) done, (Disk.isSome_drawAll done).2⟩
  | plain _ quiet =>
    rw [eq] at quiet
    exact absurd (quiet.symm.trans draws) (by decide)

/-- **The files of drawings hold the drawings that reports name them for.** Take an engine with the
detectors of the library that makes drawings, and requests for programs of different names. In every
report, each finding that asks for a drawing has a file. After the last request, the file that a
report names for a detector holds the report's program with the blocks of the detector's finding
highlighted, if no later program has a name that differs from this one in its slashes only. -/
theorem drawings_hold (stock : e.Stock) (draws : e.draws = true) {disk : Disk} {now : Nat}
    {before after : List Request} {r : Request} {o : Outcome}
    (distinct : ((before ++ r :: after).map (·.name)).Nodup)
    (answered : (((⟨e, disk, now⟩ : Session).after before).serve r).1 = .ok o) :
    (∀ f ∈ o.report.findings, f.drawing.isSome = true →
      (o.report.drawings.find? f.detector).isSome = true) ∧
    ∀ detector path, o.report.drawings.find? detector = some path →
      (∀ r' ∈ after, Drawing.flatName r'.name ≠ Drawing.flatName r.name) →
      (∃ f ∈ o.report.findings, f.detector = detector) ∧
      ∀ f ∈ o.report.findings, f.detector = detector →
        ((⟨e, disk, now⟩ : Session).after (before ++ r :: after)).disk.read path =
          .ok (Drawing.highlighting o.report.program (f.blocks.map (·.index))).render := by
  have start : Faithful e ⟨e, disk, now⟩ := .start e disk now stock.cache
  have faithful := start.after before
  rw [List.map_append, List.map_cons, List.nodup_append] at distinct
  have unknown : r.name ∉ before.map (·.name) :=
    fun earlier => distinct.2.2 _ earlier _ List.mem_cons_self rfl
  have new : o.kept = false := new_of_name stock.cache unknown answered
  have answers : o.report.Answers e r.name r.source := faithful.serve answered
  have ran := (Session.after ⟨e, disk, now⟩ before).ran_serve r
  rw [answered, show o = ⟨o.report, false⟩ by rw [← new]] at ran
  obtain ⟨shows, complete⟩ := ran.shows (faithful.pass r.wait) stock draws
  refine ⟨complete, fun detector path found apart => ?_⟩
  obtain ⟨f, mem, suffix, asks, named, rfl, held⟩ := shows detector path found
  obtain ⟨rfl, dead⟩ := stock.eq_of_drawing answers mem asks
  refine ⟨⟨f, mem, named⟩, fun g member same => ?_⟩
  have alike : g.blocks = f.blocks := by
    rw [stock.blocks_eq answers member (same.trans (named.symm.trans dead)),
      stock.blocks_eq answers mem dead]
  have program : o.report.program.name = r.name := Program.name_of_source answers.detected.1
  have rest : Session.after ⟨e, disk, now⟩ (before ++ r :: after) =
      ((Session.after ⟨e, disk, now⟩ before).serve r).2.after after := by
    simp [Session.after]
  rw [rest, alike]
  refine read_after (faithful.pass r.wait).runSource.1 stock
    (Drawing.isName_fileName (by decide) o.report.program.name) (fun r' later eq => ?_) held
  rw [program, Drawing.fileName_inj] at eq
  exact apart r' later eq.symm

/-- Two programs with dead code; the second leaves the drawing of the first as it is. -/
theorem drawings_hold_two :
    let e := Engine.setUp [.cache 0] []
    let s : Session := ⟨e, {}, 0⟩
    let r : Request := ⟨0, Text.ofString "a/b", Text.ofString "b x\nerr\nx: sha256"⟩
    let r' : Request := ⟨0, Text.ofString "a.b", Text.ofString "err\nerr"⟩
    let dead := Detector.DeadCode.descriptor.name
    ∃ o, (s.serve r).1 = .ok o ∧
      o.report.drawings.find? dead = some (Text.ofString "a_b.deadCode.dot") ∧
      (∃ f ∈ o.report.findings, f.detector = dead) ∧
      ∀ f ∈ o.report.findings, f.detector = dead →
        (s.after [r, r']).disk.read (Text.ofString "a_b.deadCode.dot") =
          .ok (Drawing.highlighting o.report.program (f.blocks.map (·.index))).render := by
  intro e s r r' dead
  obtain ⟨o, answered, drawn⟩ := Program.exists_of_any
    (q := fun o => o.report.drawings.find? dead = some (Text.ofString "a_b.deadCode.dot"))
    (r := (s.serve r).1) (by decide +kernel)
  have stock : e.Stock := Engine.stock_setUp (by simp) []
  have distinct : (([] ++ r :: [r']).map Request.name).Nodup := by decide +kernel
  have held := (drawings_hold stock rfl distinct answered).2 dead _ (of_decide_eq_true drawn)
    (by decide +kernel)
  exact ⟨o, answered, of_decide_eq_true drawn, held⟩

/-- **Names that differ in their slashes share a file**: after two requests that succeed, for programs of
different names, the file of the first report does not hold its drawing. -/
theorem drawings_collide :
    let s : Session := ⟨Engine.setUp [] [], {}, 0⟩
    let r : Request := ⟨0, Text.ofString "a/b", Text.ofString "b x\nerr\nx: sha256"⟩
    let r' : Request := ⟨0, Text.ofString "a_b", Text.ofString "err\nerr"⟩
    let path := Text.ofString "a_b.deadCode.dot"
    let dead := Detector.DeadCode.descriptor.name
    r.name ≠ r'.name ∧ ∃ o o', (s.serve r).1 = .ok o ∧ ((s.after [r]).serve r').1 = .ok o' ∧
      o.report.drawings.find? dead = some path ∧ o'.report.drawings.find? dead = some path ∧
      ∃ f ∈ o.report.findings, f.detector = dead ∧
        (s.after [r, r']).disk.read path ≠
          .ok (Drawing.highlighting o.report.program (f.blocks.map (·.index))).render := by
  intro s r r' path dead
  obtain ⟨o, answered, drawn⟩ := Program.exists_of_any
    (q := fun o => o.report.drawings.find? dead = some path ∧ ∃ f ∈ o.report.findings,
      f.detector = dead ∧ ((s.after [r, r']).disk.read path).toOption ≠
        some (Drawing.highlighting o.report.program (f.blocks.map (·.index))).render)
    (r := (s.serve r).1) (by decide +kernel)
  obtain ⟨o', answered', drawn'⟩ := Program.exists_of_any
    (q := fun o => o.report.drawings.find? dead = some path) (r := ((s.after [r]).serve r').1)
    (by decide +kernel)
  obtain ⟨file, f, mem, named, other⟩ := of_decide_eq_true drawn
  refine ⟨by decide, o, o', answered, answered', file, of_decide_eq_true drawn', f, mem, named, ?_⟩
  intro same
  exact other (by rw [same]; rfl)

end Session

end TealAudit
