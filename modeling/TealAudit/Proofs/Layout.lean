import Mathlib.Data.List.Forall2
import TealAudit.Proofs.Partition
import TealAudit.Proofs.Scanning
import TealAudit.Proofs.Sessions

/-!
# Layout and comments do not count

Two lines are **alike** when they differ in the white space at their ends and in what their comment
says (`SourceLine.Alike`). Only of the first line is it asked where its comment starts; that the
second one has its comment there too, and the same words in front of it, is proved. So nothing that
a comment says, be it a quote, an opening bracket or another comment, gets into the reading of the
line. How a line ends, with a carriage return or without, is no part of the line at all (`Text.lines`).

Programs whose lines are alike have the same listing or are refused for the same reason. Their flow
graphs are the same but for the text they are made from, which the detectors of the library never
look at. What a session reports about them differs only by what each of the two suppresses.
-/

namespace TealAudit

namespace SourceLine

/-- **Lines that differ in layout and in what their comment says.** -/
inductive Alike : Text → Text → Prop
  /-- White space is different at the two ends. -/
  | layout {front back front' back' text : Text} : front.isBlank = true → back.isBlank = true →
      front'.isBlank = true → back'.isBlank = true →
      Alike (front ++ text ++ back) (front' ++ text ++ back')
  /-- So is what follows the mark at which the comment of the first line starts. -/
  | comment {front front' code rest rest' : Text} : front.isBlank = true → front'.isBlank = true →
      (Fields.split (Text.trim (front ++ code ++ commentMark ++ rest))).comment =
        Text.trim (commentMark ++ rest) →
      Alike (front ++ code ++ commentMark ++ rest) (front' ++ code ++ commentMark ++ rest')

theorem trim_code {front : Text} (blank : front.isBlank = true) (code rest : Text) :
    Text.trim (front ++ code ++ commentMark ++ rest) =
      Text.trimStart code ++ Text.trim (Text.byte '/' :: Text.byte '/' :: rest) := by
  have around := Text.trim_blank_append_blank blank (show Text.isBlank [] = true from rfl)
    (code ++ commentMark ++ rest)
  rw [List.append_nil, ← List.append_assoc, ← List.append_assoc] at around
  rw [around, commentMark_eq, List.append_assoc]
  exact Text.trim_append_slash code _

/-- A mark at the start of a text ends before a byte that it does not have. -/
theorem isPrefix_append_iff {mark t u : Text} (other : ∀ b ∈ u.head?, b ∉ mark) :
    mark <+: t ++ u ↔ mark <+: t := by
  refine ⟨fun h => ?_, fun h => h.trans (List.prefix_append t u)⟩
  rcases List.prefix_or_prefix_of_prefix h (List.prefix_append t u) with inside | ⟨more, rfl⟩
  · exact inside
  · cases more with
    | nil => exact ⟨[], by simp⟩
    | cons b more =>
      rw [List.prefix_append_right_inj] at h
      obtain ⟨rest, rfl⟩ := h
      exact absurd (List.mem_append_right t List.mem_cons_self) (other b rfl)

/-- **Alike lines are pragmas together and have the same words.** -/
theorem Alike.same {line line' : Text} (h : Alike line line') :
    (IsPragma line ↔ IsPragma line') ∧ words line = words line' := by
  cases h with
  | layout front back front' back' =>
    unfold IsPragma words
    rw [Text.trim_blank_append_blank front back, Text.trim_blank_append_blank front' back']
    exact ⟨Iff.rfl, rfl⟩
  | @comment _ _ code rest rest' blank blank' starts =>
    obtain ⟨kept, eq⟩ := Text.trim_slash_slash rest
    obtain ⟨kept', eq'⟩ := Text.trim_slash_slash rest'
    unfold IsPragma words
    have trimmed : Text.trim (Text.byte '/' :: Text.byte '/' :: rest) =
        Text.trim (Text.byte '/' :: Text.byte '/' :: kept) := by
      rw [← eq, Text.trim_trim]
    rw [trim_code blank, commentMark_eq] at starts
    change (Fields.split _).comment = Text.trim (Text.byte '/' :: Text.byte '/' :: rest) at starts
    rw [eq] at starts
    replace starts := starts.trans (eq.symm.trans trimmed)
    rw [trim_code blank, trim_code blank', eq, eq']
    have apart (kept : Text) : ∀ b ∈ (Text.byte '/' :: kept).head?, b ∉ pragmaMark := by
      rintro _ ⟨⟩
      decide
    refine ⟨(isPrefix_append_iff (apart _)).trans (isPrefix_append_iff (apart _)).symm, ?_⟩
    have other : Fields.split (Text.trimStart code ++ Text.byte '/' :: Text.byte '/' :: kept') = _ :=
      Fields.scan_comment_eq (.start false) (Text.trimStart code) starts kept'
    rw [other]
    rfl

/-- Lines are read alike when they are pragmas together and have the same words. -/
theorem read_congr {line line' : Text} (pragma : IsPragma line ↔ IsPragma line')
    (same : words line = words line') : read line = read line' := by
  classical
  rw [SourceLine.read_eq, SourceLine.read_eq line', same]
  simp only [pragma]

theorem Alike.read_eq {line line' : Text} (h : Alike line line') : read line = read line' :=
  read_congr h.same.1 h.same.2

end SourceLine

/-! ## Programs -/

variable {name source source' : Text}

theorem Listing.readFrom_congr {lines lines' : List Text}
    (same : List.Forall₂ (fun a b => SourceLine.read a = SourceLine.read b) lines lines') :
    ∀ (l : Listing) (n : Nat), l.readFrom n lines = l.readFrom n lines' := by
  induction same with
  | nil => intro l n; rfl
  | cons head _ ih =>
    intro l n
    rw [readFrom, readFrom, head]
    simp only [ih]

theorem Listing.parse_congr
    (same : List.Forall₂ (fun a b => SourceLine.read a = SourceLine.read b) source.lines source'.lines) :
    parse name source = parse name source' := by
  rw [parse, parse, readFrom_congr same]

theorem Listing.parse_alike (alike : List.Forall₂ SourceLine.Alike source.lines source'.lines) :
    parse name source = parse name source' :=
  parse_congr (alike.imp fun _ _ h => h.read_eq)

/-- Programs with one listing differ in their text only. -/
theorem Program.ofSource_alike (alike : List.Forall₂ SourceLine.Alike source.lines source'.lines) :
    ofSource name source' = (ofSource name source).map fun p => { p with source := source' } := by
  unfold ofSource
  rw [Listing.parse_alike alike]
  cases Listing.parse name source' with
  | error e => rfl
  | ok l =>
    change ofListing name source' l = (ofListing name source l).map _
    simp only [ofListing]
    cases l.directEdges l.blocks l.blocks <;> rfl

/-- **The detectors that come with the library**, with any threshold. -/
inductive Detector.Builtin : Detector → Prop
  | deadCode : Builtin .deadCode
  | highComplexity (threshold : Int) : Builtin (.highComplexity threshold)

/-- A detector of the library does not look at the text of a program. -/
theorem Detector.Builtin.detect_eq {d : Detector} (h : d.Builtin) (p : Program) (file : Text) :
    d.detect { p with source := source } file = d.detect p file := by
  cases h with
  | deadCode => rfl
  | highComplexity threshold => rfl

/-! ## Engines -/

namespace Engine

/-- **An engine as it is set up with the detectors of the library**: none of another origin, and
nothing in its cache. -/
structure Stock (e : Engine) : Prop where
  registry : e.registry = .builtin
  overrides : ∀ entry ∈ e.overrides.entries, entry.2.Builtin
  cache : ∀ c ∈ e.cache, c.fingerprint = id ∧ c.entries = .empty

theorem Stock.configure {e : Engine} (h : e.Stock) (setting : Setting)
    (keeps : ∀ r, setting ≠ .registry r) : (e.configure setting).Stock := by
  cases setting with
  | registry r => exact absurd rfl (keeps r)
  | threshold n =>
    simp only [Engine.configure]
    split
    · refine ⟨h.registry, fun entry mem => ?_, h.cache⟩
      rcases Dict.eq_or_mem_of_insertEntry mem with rfl | old
      · exact .highComplexity n
      · exact h.overrides entry old
    · exact h
  | cache maxAge =>
    refine ⟨h.registry, h.overrides, fun c mem => ?_⟩
    cases mem
    exact ⟨rfl, rfl⟩
  | least impact => exact ⟨h.registry, h.overrides, h.cache⟩
  | folder path => exact ⟨h.registry, h.overrides, h.cache⟩
  | noDrawings => exact ⟨h.registry, h.overrides, h.cache⟩

/-- **The engine of settings**, with some detectors left out. -/
def setUp (settings : List Setting) (ignored : List Text) : Engine :=
  ignored.foldl ignore (ofSettings settings)

theorem stock_setUp {settings : List Setting} (keeps : ∀ r, .registry r ∉ settings)
    (ignored : List Text) : (setUp settings ignored).Stock := by
  have configured (e : Engine) (h : e.Stock) : (settings.foldl Engine.configure e).Stock := by
    induction settings generalizing e with
    | nil => exact h
    | cons setting rest ih =>
      refine ih (fun r mem => keeps r (List.mem_cons_of_mem _ mem)) _ (h.configure setting ?_)
      rintro r rfl
      exact keeps r List.mem_cons_self
  have left (e : Engine) (h : e.Stock) : (ignored.foldl ignore e).Stock := by
    induction ignored generalizing e with
    | nil => exact h
    | cons name rest ih => exact ih _ ⟨h.registry, h.overrides, h.cache⟩
  refine left _ (configured {} ⟨rfl, fun entry mem => ?_, fun c mem => ?_⟩)
  · cases mem
  · cases mem

theorem Stock.detector?_builtin {e : Engine} (h : e.Stock) {name : Text} {d : Detector}
    (found : e.detector? name = some d) : d.Builtin := by
  rw [detector?, Option.orElse_eq_some] at found
  rcases found with replaced | ⟨_, registered⟩
  · obtain ⟨entry, first, rfl⟩ := Option.map_eq_some_iff.mp replaced
    exact h.overrides entry (List.mem_of_find?_eq_some first)
  · obtain ⟨registration, first, rfl⟩ := Option.map_eq_some_iff.mp registered
    have mem := Registry.mem_of_find? first
    rw [h.registry] at mem
    rcases List.mem_cons.mp mem with rfl | mem
    · exact .deadCode
    · rw [List.mem_singleton.mp mem]
      exact .highComplexity _

theorem Stock.detect_eq {e : Engine} (h : e.Stock) (p : Program) (name : Text) :
    e.detect { p with source := source } name = e.detect p name := by
  unfold detect
  refine List.flatMap_congr fun d mem => ?_
  obtain ⟨descriptor, _, found⟩ := List.mem_filterMap.mp mem
  exact (h.detector?_builtin found).detect_eq p name

/-- The findings of a program that are not too slight to report, before any is suppressed. -/
def weighty (e : Engine) (p : Program) (name : Text) : List Finding :=
  (e.detect p name).filter fun f => e.least.level ≤ f.impact.level

theorem findings_of_answers {e : Engine} {r : Report} (h : r.Answers e name source) :
    ∃ p, Program.ofSource name source = .ok p ∧
      r.findings = (Suppression.ofSource source).filter (e.weighty p name) := by
  obtain ⟨made, drawings, analysed, rfl⟩ := h
  obtain ⟨built, -, findings⟩ := analyse_eq_ok analysed
  exact ⟨made.program, built, findings⟩

end Engine

/-- **Layout and the words of comments have no part in an analysis.** For two sources whose lines are
alike,

* the listings are the same, or both are refused with the same error;
* the flow graphs have the same blocks, successors and predecessors, hence the same reachable blocks
  and the same complexity, and a detector of the library finds the same;
* the findings that an engine with these detectors reports, whatever it was asked for before, are
  those that each source leaves of one and the same list. -/
theorem Program.analysis_of_alike {source source' : Text}
    (alike : List.Forall₂ SourceLine.Alike source.lines source'.lines) (name : Text) :
    Listing.parse name source = Listing.parse name source' ∧
    (∀ e, ofSource name source = .error e ↔ ofSource name source' = .error e) ∧
    (∀ p p', ofSource name source = .ok p → ofSource name source' = .ok p' →
      p.blocks = p'.blocks ∧ (∀ k, p.next k = p'.next k ∧ p.prev k = p'.prev k) ∧
      p.reachable = p'.reachable ∧ p.complexity = p'.complexity ∧
      ∀ d : Detector, d.Builtin → ∀ file, d.detect p file = d.detect p' file) ∧
    (∀ (settings : List Setting) (ignored : List Text) (disk : Disk) (now : Nat)
      (earlier earlier' : List Request) (wait wait' : Nat) (o o' : Outcome),
      (∀ r, Setting.registry r ∉ settings) →
      let e := Engine.setUp settings ignored
      let s : Session := ⟨e, disk, now⟩
      ((s.after earlier).serve ⟨wait, name, source⟩).1 = .ok o →
      ((s.after earlier').serve ⟨wait', name, source'⟩).1 = .ok o' →
      ∃ p, ofSource name source = .ok p ∧
        o.report.findings = (Suppression.ofSource source).filter (e.weighty p name) ∧
        o'.report.findings = (Suppression.ofSource source').filter (e.weighty p name)) := by
  have graphs : ofSource name source' = _ := ofSource_alike alike
  refine ⟨Listing.parse_alike alike, fun e => ?_, fun p p' built built' => ?_, ?_⟩
  · rw [graphs]
    cases ofSource name source with
    | error fault => exact Iff.rfl
    | ok p => exact ⟨nofun, nofun⟩
  · rw [graphs, built] at built'
    cases built'
    exact ⟨rfl, fun k => ⟨rfl, rfl⟩, rfl, rfl, fun d known file => (known.detect_eq p file).symm⟩
  · intro settings ignored disk now earlier earlier' wait wait' o o' keeps e s answered answered'
    have stock : e.Stock := Engine.stock_setUp keeps ignored
    have faithful : Session.Faithful e s := .start e disk now stock.cache
    obtain ⟨p, built, findings⟩ :=
      Engine.findings_of_answers ((faithful.after earlier).serve answered)
    obtain ⟨p', built', findings'⟩ :=
      Engine.findings_of_answers ((faithful.after earlier').serve answered')
    refine ⟨p, built, findings, ?_⟩
    rw [graphs, built] at built'
    cases built'
    rw [findings', Engine.weighty, stock.detect_eq]
    rfl

/-- A quote in one comment and an opening bracket in the other change nothing; a word that suppresses
takes away the finding of dead code. -/
theorem Program.analysis_of_alike_dead_code :
    let source := Text.ofString "b x // \"no\nerr // dead\nx: sha256"
    let source' := Text.ofString "\t b x // base64(\r\nerr //nolint\r\n x: sha256 \r\n"
    let s : Session := ⟨Engine.setUp [.noDrawings] [], {}, 0⟩
    List.Forall₂ SourceLine.Alike source.lines source'.lines ∧
    ∃ o o' p, (s.serve ⟨0, [], source⟩).1 = .ok o ∧ (s.serve ⟨0, [], source'⟩).1 = .ok o' ∧
      ofSource [] source = .ok p ∧ o.report.findings.length = 1 ∧ o'.report.findings.length = 0 ∧
      o.report.findings = (Suppression.ofSource source).filter (s.engine.weighty p []) ∧
      o'.report.findings = (Suppression.ofSource source').filter (s.engine.weighty p []) := by
  intro source source' s
  have alike : List.Forall₂ SourceLine.Alike source.lines source'.lines := by
    have lines : source.lines =
        [[] ++ Text.ofString "b x " ++ SourceLine.commentMark ++ Text.ofString " \"no",
          [] ++ Text.ofString "err " ++ SourceLine.commentMark ++ Text.ofString " dead",
          [] ++ Text.ofString "x: sha256" ++ []] := by decide +kernel
    have lines' : source'.lines =
        [Text.ofString "\t " ++ Text.ofString "b x " ++ SourceLine.commentMark ++
            Text.ofString " base64(",
          [] ++ Text.ofString "err " ++ SourceLine.commentMark ++ Text.ofString "nolint",
          Text.ofString " " ++ Text.ofString "x: sha256" ++ Text.ofString " "] := by decide +kernel
    rw [lines, lines']
    refine .cons (.comment ?_ ?_ ?_) (.cons (.comment ?_ ?_ ?_) (.cons (.layout ?_ ?_ ?_ ?_) .nil))
    all_goals decide +kernel
  obtain ⟨o, answered, one⟩ := exists_of_any (q := fun o => o.report.findings.length = 1)
    (r := (s.serve ⟨0, [], source⟩).1) (by decide +kernel)
  obtain ⟨o', answered', none⟩ := exists_of_any (q := fun o => o.report.findings.length = 0)
    (r := (s.serve ⟨0, [], source'⟩).1) (by decide +kernel)
  obtain ⟨p, built, findings, findings'⟩ := (analysis_of_alike alike []).2.2.2 [.noDrawings] [] {} 0
    [] [] 0 0 o o' (by simp) answered answered'
  exact ⟨alike, o, o', p, answered, answered', built, of_decide_eq_true one, of_decide_eq_true none,
    findings, findings'⟩

end TealAudit
