import TealAudit.Config.File
import TealAudit.Proofs.Filling
import TealAudit.Proofs.Writing

/-!
# Saving and loading a configuration

A configuration is loaded on top of the default one, so what its document leaves out has to be as in
the default one, and what is not has to be there. Both formats leave out the empty table of detectors,
the empty folder and the flag that is not set; YAML leaves out the threshold zero too, and TOML has
its values before its tables. The document gives the configuration back all the same
(`Config.ofYaml_eq`, `Config.ofToml_eq`), except for the least impact: that is read again from its text
(`Config.reread`), and the text of an impact without a name is no name of an impact
(`Impact.parse_text_of_unnamed`).

So **what was saved is loaded** (`Config.load_save`), whatever the path and the format. A TOML text is
read back as it was written (`Toml.read_render`); that a YAML text is, is a hypothesis, which can be
decided for each document.

**What it does not establish.** The hypothesis is not true of every document, and nothing is said of the
others. It fails for a name, a folder or a detector that starts with a line feed, since a block of text
loses one line feed at its start, and for a detector that is named `<<`, which is read as a key that
merges another table.
-/

namespace TealAudit

/-! ## Impacts -/

namespace Impact

/-- The impacts that have a name. -/
def named : List Impact := [informational, optimization, low, medium, high]

/-- **The name of an impact is read as the impact.** -/
theorem parse_text : ∀ i ∈ named, Rank.parse i.text = .ok i := by decide

theorem name?_eq_none {i : Impact} (unnamed : i ∉ named) : i.name? = none := by
  obtain ⟨level⟩ := i
  unfold Rank.name?
  split
  · rfl
  · next below =>
    rw [List.getElem?_eq_none_iff]
    by_contra short
    have few : level.toNat < 5 := Nat.not_le.mp short
    have levels : level = 0 ∨ level = 1 ∨ level = 2 ∨ level = 3 ∨ level = 4 := by
      simp only at below
      omega
    rcases levels with rfl | rfl | rfl | rfl | rfl
    all_goals exact unnamed (by decide)

/-- **What an impact without a name is shown as is no name**, in any case. -/
theorem parse_text_of_unnamed {i : Impact} (unnamed : i ∉ named) :
    (Rank.parse i.text : Except UnknownRank Impact) = .error ⟨Scale.impact.noun, i.text⟩ := by
  have start : (i.text.points.map Point.fold).take 2 = [.scalar 'i', .scalar 'm'] := by
    unfold Rank.text
    rw [name?_eq_none unnamed]
    show ((Text.points (String.utf8EncodeChar 'I' ++ (String.utf8EncodeChar 'm' ++ _))).map
      Point.fold).take 2 = _
    rw [Text.points_encode, Text.points_encode]
    rfl
  have other : ∀ name ∈ Scale.impact.names, i.text.spells name = false := by
    have starts : ∀ name ∈ Scale.impact.names,
        (name.points.map Point.fold).take 2 ≠ [.scalar 'i', .scalar 'm'] := by decide
    intro name mem
    refine decide_eq_false fun same => starts name mem ?_
    rw [← same, start]
  rw [Rank.parse, List.findIdx?_eq_none_iff.mpr other]

end Impact

namespace Config

/-- **A configuration as it is read again**: with the impact that the text of its own one is read as, and
with a table of detectors. -/
def reread (c : Config) : Except UnknownRank Config :=
  (Rank.parse c.minImpact.text).map fun minImpact => { c with detectors := some c.off, minImpact }

theorem reread_of_named {c : Config} (named : c.minImpact ∈ Impact.named) :
    c.reread = .ok { c with detectors := some c.off } := by
  rw [reread, Impact.parse_text c.minImpact named]
  rfl

theorem reread_of_unnamed {c : Config} (unnamed : c.minImpact ∉ Impact.named) :
    c.reread = .error ⟨Scale.impact.noun, c.minImpact.text⟩ := by
  rw [reread, Impact.parse_text_of_unnamed unnamed]
  rfl

/-! ## The fields of a configuration -/

theorem sort_perm (format : Format) (names : List Text) : (format.sort names).Perm names := by
  cases format with
  | yaml => exact List.mergeSort_perm _ _
  | toml => exact List.mergeSort_perm _ _

theorem nodup_detectorFields (c : Config) (format : Format) :
    ((c.detectorFields format).map (·.1)).Nodup := by
  have names : (c.detectorFields format).map (·.1) = format.sort c.off.keys := by
    rw [detectorFields, List.map_map]
    exact List.map_id _
  rw [names]
  exact (sort_perm format _).nodup_iff.mpr c.off.nodup_keys

/-- **What the fields of a configuration are.** -/
theorem mem_document {c : Config} {format : Format} {field : Text × Document}
    (mem : field ∈ c.document format) :
    field = (nameField, .text c.name) ∨
    field = (detectorsField, .table (c.detectorFields format)) ∨
    field = (exportDirField, .text c.exportDir) ∨
    field = (noExportField, .flag true) ∨
    field = (minImpactField, .text c.minImpact.text) ∨
    field = (thresholdField, .number c.threshold) := by
  simp only [document, List.mem_append, List.mem_ite_nil_left, List.mem_ite_nil_right,
    List.mem_singleton] at mem
  rcases mem with ((((eq | ⟨-, eq⟩) | ⟨-, eq⟩) | ⟨-, eq⟩) | eq) | ⟨-, eq⟩
  · exact .inl eq
  · exact .inr (.inl eq)
  · exact .inr (.inr (.inl eq))
  · exact .inr (.inr (.inr (.inl eq)))
  · exact .inr (.inr (.inr (.inr (.inl eq))))
  · exact .inr (.inr (.inr (.inr (.inr eq))))

/-- **The names of the fields of a configuration**, some of them left out. -/
theorem names_sublist (c : Config) (format : Format) :
    ((c.document format).map (·.1)).Sublist fieldNames := by
  have optional (p : Prop) [Decidable p] (field : Text × Document) :
      (List.map (·.1) (if p then [] else [field])).Sublist [field.1] := by
    split
    · exact List.nil_sublist _
    · exact List.Sublist.refl _
  have flag : (List.map (·.1)
      (if c.noExport then [(noExportField, Document.flag true)] else [])).Sublist [noExportField] := by
    split
    · exact List.Sublist.refl _
    · exact List.nil_sublist _
  simp only [document, List.map_append]
  exact (((((List.Sublist.refl [nameField]).append (optional _ (detectorsField, _))).append
    (optional _ (exportDirField, _))).append flag).append (.refl [minImpactField])).append
    (optional _ (thresholdField, _))

theorem nodup_document (c : Config) (format : Format) : ((c.document format).map (·.1)).Nodup :=
  (c.names_sublist format).nodup (by decide)

/-! ## Filling from YAML -/

section Yaml

open Yaml (Node Tree)

variable (tree : Tree)

/-- Whether a detector is switched off, with one of its fields set. -/
def withOff (off : Bool) : Text × Document → Except ConfigFault Bool
  | (_, .flag b) => .ok b
  | _ => .ok off

/-- The detectors with one set. -/
def withDetector (off : Dict Bool) : Text × Document → Except ConfigFault (Dict Bool)
  | (name, .table [(_, .flag b)]) => .ok (off.insert name b)
  | _ => .ok off

/-- **A configuration with a field set.** -/
def withField (c : Config) : Text × Document → Except ConfigFault Config
  | (name, .text t) =>
    if name = nameField then .ok { c with name := t }
    else if name = exportDirField then .ok { c with exportDir := t }
    else
      match Rank.parse t with
      | .ok minImpact => .ok { c with minImpact }
      | .error u => .error (.unknownImpact u)
  | (_, .flag b) => .ok { c with noExport := b }
  | (_, .number n) => .ok { c with threshold := n }
  | (_, .table docs) => (docs.foldlM withDetector c.off).map fun off => { c with detectors := some off }

theorem setDetector_eq {value : Node} {b : Bool} (name : Text)
    (shown : value.shows (.table [(offField, .flag b)]) = true) (off : Dict Bool) :
    setDetector tree name value off = .ok ⟨off.insert name b, true⟩ := by
  obtain ⟨entries, rfl, shown⟩ := Node.exists_of_shows shown
  have agrees : ∀ field ∈ [(offField, Document.flag b)], ∀ value : Node, value.shows field.2 = true →
      ∀ off, setOff tree field.1 value off = (withOff off field).map fun off => ⟨off, true⟩ := by
    intro field mem value shown off
    obtain rfl := List.mem_singleton.mp mem
    rw [setOff, if_pos rfl, tree.flag_eq shown]
    rfl
  have filled := fillFrom_eq tree shown (List.nodup_singleton _) [offField] agrees false
  show (fillFrom tree [offField] (setOff tree) entries false >>= fun one =>
    pure (Filled.mk (off.insert name one.value) one.fitted)) = _
  rw [filled]
  rfl

theorem foldlM_withDetector (value : Text → Bool) (names : List Text) (off : Dict Bool) :
    (names.map fun name => (name, Document.table [(offField, .flag (value name))])).foldlM
      withDetector off =
    .ok ((names.map fun name => (name, value name)).foldl (fun off e => off.insert e.1 e.2) off) := by
  induction names generalizing off with
  | nil => rfl
  | cons name names ih => exact ih (off.insert name (value name))

/-- The table of the detectors gives them all back. -/
theorem foldlM_detectorFields (c : Config) (format : Format) :
    (c.detectorFields format).foldlM withDetector .empty = .ok c.off := by
  rw [detectorFields, foldlM_withDetector]
  exact congrArg _ (Dict.ofList_keys (sort_perm format _))

theorem setImpact_eq {value : Node} {t : Text} (shown : value.shows (.text t) = true) (c : Config) :
    setImpact tree value c =
      (c.withField (minImpactField, .text t)).map fun c => ⟨c, true⟩ := by
  obtain ⟨plain, rfl, means⟩ := Node.exists_of_shows shown
  have something : (plain && decide (Yaml.meaning t = .nothing)) = false := by
    cases plain with
    | false => rfl
    | true =>
      have means : Yaml.meaning t = .text t := Option.some.inj means
      rw [means]
      rfl
  rw [withField, if_neg (by decide), if_neg (by decide)]
  simp only [setImpact, Tree.target, something, Bool.false_eq_true, if_false]
  cases Rank.parse t <;> rfl

/-- **A field that a node shows is set.** -/
theorem setField_eq {c : Config} (fits : Word.fits c.threshold = true) {field : Text × Document}
    (mem : field ∈ c.document .yaml) {value : Node} (shown : value.shows field.2 = true) (a : Config) :
    setField tree field.1 value a = (a.withField field).map fun a => ⟨a, true⟩ := by
  rcases mem_document mem with rfl | rfl | rfl | rfl | rfl | rfl
  · show setField tree nameField value a = _
    rw [setField, if_pos rfl, tree.text_eq shown]
    rfl
  · show setField tree detectorsField value a = _
    obtain ⟨entries, rfl, shown⟩ := Node.exists_of_shows shown
    have agrees : ∀ field ∈ c.detectorFields .yaml, ∀ value : Node, value.shows field.2 = true →
        ∀ off, setDetector tree field.1 value off =
          (withDetector off field).map fun off => ⟨off, true⟩ := by
      intro field mem value shown off
      obtain ⟨name, _, rfl⟩ := List.mem_map.mp mem
      exact setDetector_eq tree name shown off
    have filled := fillFrom_eq tree shown (c.nodup_detectorFields .yaml) [] agrees a.off
    rw [setField, if_neg (by decide), if_pos rfl]
    show (fillFrom tree [] (setDetector tree) entries a.off >>= fun all =>
      pure (Filled.mk { a with detectors := some all.value } all.fitted)) = _
    rw [filled, withField]
    cases (c.detectorFields .yaml).foldlM withDetector a.off <;> rfl
  · show setField tree exportDirField value a = _
    rw [setField, if_neg (by decide), if_neg (by decide), if_pos rfl, tree.text_eq shown]
    rfl
  · show setField tree noExportField value a = _
    rw [setField, if_neg (by decide), if_neg (by decide), if_neg (by decide), if_pos rfl,
      tree.flag_eq shown]
    rfl
  · show setField tree minImpactField value a = _
    rw [setField, if_neg (by decide), if_neg (by decide), if_neg (by decide), if_neg (by decide),
      if_pos rfl, setImpact_eq tree shown]
  · show setField tree thresholdField value a = _
    rw [setField, if_neg (by decide), if_neg (by decide), if_neg (by decide), if_neg (by decide),
      if_neg (by decide), if_pos rfl, tree.whole_eq shown fits]
    rfl

theorem foldlM_unless {p : Prop} [Decidable p] {field : Text × Document} {a b : Config}
    (left : p → a = b) (set : a.withField field = .ok b) :
    (if p then [] else [field]).foldlM withField a = .ok b := by
  split
  · next out => exact congrArg Except.ok (left out)
  · rw [List.foldlM_cons, set]
    rfl

/-- **The fields of a configuration give it back**, as long as its impact is read from its name: what
is left out of the document is as in the configuration that is filled. -/
theorem foldlM_document (c : Config) :
    (c.document .yaml).foldlM withField {} = c.reread.mapError .unknownImpact := by
  have detectors : (if c.off.isEmpty then [] else
      [(detectorsField, Document.table (c.detectorFields .yaml))]).foldlM withField { name := c.name } =
      .ok { name := c.name, detectors := some c.off } := by
    refine foldlM_unless (fun empty => by rw [Dict.eq_empty empty]) ?_
    show ((c.detectorFields .yaml).foldlM withDetector .empty).map _ = _
    rw [foldlM_detectorFields]
    rfl
  have exportDir : (if c.exportDir.isEmpty then [] else
      [(exportDirField, Document.text c.exportDir)]).foldlM withField
        { name := c.name, detectors := some c.off } =
      .ok { name := c.name, detectors := some c.off, exportDir := c.exportDir } :=
    foldlM_unless (fun empty => by rw [List.isEmpty_iff.mp empty]) rfl
  have noExport : (if c.noExport then [(noExportField, Document.flag true)] else []).foldlM withField
        { name := c.name, detectors := some c.off, exportDir := c.exportDir } =
      .ok {
        name := c.name, detectors := some c.off, exportDir := c.exportDir, noExport := c.noExport } := by
    cases c.noExport <;> rfl
  have threshold (minImpact : Impact) : (if c.threshold = 0 ∧ Format.yaml = .yaml then [] else
      [(thresholdField, Document.number c.threshold)]).foldlM withField
        { c with detectors := some c.off, minImpact, threshold := 0 } =
      .ok { c with detectors := some c.off, minImpact } :=
    foldlM_unless (fun zero => by rw [zero.1]) rfl
  have name : [(nameField, Document.text c.name)].foldlM withField {} = .ok { name := c.name } := rfl
  rw [document, List.foldlM_append, List.foldlM_append, List.foldlM_append, List.foldlM_append,
    List.foldlM_append, name, Except.ok_bind, detectors, Except.ok_bind, exportDir, Except.ok_bind,
    noExport, Except.ok_bind, List.foldlM_cons, withField, if_neg (by decide), if_neg (by decide),
    reread]
  cases (Rank.parse c.minImpact.text : Except UnknownRank Impact) with
  | error u => rfl
  | ok minImpact => exact threshold minImpact

/-- **The configuration of a tree that shows a document** of a configuration. -/
theorem ofYaml_eq {c : Config} (fits : Word.fits c.threshold = true)
    (shown : tree.root.shows (.table (c.document .yaml)) = true) :
    ofYaml tree = c.reread.mapError .unknownImpact := by
  obtain ⟨entries, root, shown⟩ := Node.exists_of_shows shown
  have filled := fillFrom_eq tree shown (c.nodup_document .yaml) fieldNames
    (fun field mem value shown => setField_eq tree fits mem shown) {}
  have entered : tree.entries tree.root = .value entries := by
    rw [root]
    rfl
  rw [ofYaml, entered, ← foldlM_document]
  show (fillFrom tree fieldNames (setField tree) entries {} >>= _) = _
  rw [filled]
  cases (c.document .yaml).foldlM withField {} <;> rfl

end Yaml

/-! ## Filling from TOML -/

section Toml

open Toml (Value fieldsOf)

/-- No name of a field spells another one. -/
theorem isSpelledOnce {names : List Text} (known : names ⊆ fieldNames) {name : Text}
    (mem : name ∈ fieldNames) : Toml.IsSpelledOnce names name := by
  have apart : ∀ a ∈ fieldNames, ∀ b ∈ fieldNames, a.spells b = true → a = b := by decide
  exact fun other among => apart other (known among) name mem

theorem named_document (c : Config) {name : Text} (mem : name ∈ fieldNames) :
    (fieldsOf (c.document .toml)).named name =
      (((c.document .toml).lookup name).map Value.ofDocument).toList := by
  have perm := Toml.fieldsOf_perm (c.document .toml)
  have names := Toml.names_perm (c.document .toml)
  have known : (fieldsOf (c.document .toml)).map (·.1) ⊆ fieldNames :=
    fun other among => (c.names_sublist .toml).subset (names.mem_iff.mp among)
  have once := isSpelledOnce known mem
  cases found : (c.document .toml).lookup name with
  | none =>
    refine Toml.Fields.named_of_not_mem once fun among => ?_
    obtain ⟨field, mem, same⟩ := List.mem_map.mp (names.mem_iff.mp among)
    have other := List.lookup_eq_none_iff.mp found field mem
    rw [same, bne_self_eq_false] at other
    cases other
  | some doc =>
    refine Toml.Fields.named_of_mem once (names.nodup_iff.mpr (c.nodup_document .toml)) ?_
    obtain ⟨front, back, eq, -⟩ := List.lookup_eq_some_iff.mp found
    refine perm.mem_iff.mpr (List.mem_map.mpr ⟨(name, doc), ?_, rfl⟩)
    rw [eq]
    exact List.mem_append_right _ List.mem_cons_self

/-- **What a configuration's document has** under each name. -/
theorem lookup_document (c : Config) :
    (c.document .toml).lookup nameField = some (.text c.name) ∧
    (c.document .toml).lookup detectorsField =
      (if c.off.isEmpty then none else some (.table (c.detectorFields .toml))) ∧
    (c.document .toml).lookup exportDirField =
      (if c.exportDir.isEmpty then none else some (.text c.exportDir)) ∧
    (c.document .toml).lookup noExportField = (if c.noExport then some (.flag true) else none) ∧
    (c.document .toml).lookup minImpactField = some (.text c.minImpact.text) ∧
    (c.document .toml).lookup thresholdField = some (.number c.threshold) := by
  have always : ¬ (c.threshold = 0 ∧ Format.toml = .yaml) := fun both => by cases both.2
  rw [document, if_neg always]
  split_ifs <;> exact ⟨rfl, rfl, rfl, rfl, rfl, rfl⟩

theorem fieldsOf_tables (value : Text → Bool) (names : List Text) :
    fieldsOf (names.map fun name => (name, .table [(offField, .flag (value name))])) =
      names.map fun name => (name, .table [(offField, .flag (value name))]) := by
  have noValues : Toml.valuesOf (names.map fun name =>
      (name, .table [(offField, .flag (value name))])) = [] := by
    rw [Toml.valuesOf, List.filterMap_map]
    exact List.filterMap_eq_nil_iff.mpr fun _ _ => rfl
  rw [fieldsOf, noValues, List.nil_append]
  induction names with
  | nil => rfl
  | cons name names ih => exact congrArg _ (ih noValues)

theorem foldlM_tomlOff (value : Text → Bool) (names : List Text) (off : Dict Bool) :
    (names.map fun name => (name, Value.table [(offField, .flag (value name))])).foldlM
      (fun off (name, v) => (tomlOff v).map (off.insert name)) off =
    some ((names.map fun name => (name, value name)).foldl (fun off e => off.insert e.1 e.2) off) := by
  induction names generalizing off with
  | nil => rfl
  | cons name names ih => exact ih (off.insert name (value name))

theorem tomlDetectors_eq (c : Config) :
    tomlDetectors .empty (Value.ofDocument (.table (c.detectorFields .toml))) = some c.off := by
  show (fieldsOf (c.detectorFields .toml)).foldlM
    (fun (off : Dict Bool) (name, v) => (tomlOff v).map (off.insert name)) .empty = _
  rw [detectorFields, fieldsOf_tables fun name => (c.off.find? name).getD false, foldlM_tomlOff]
  exact congrArg some (Dict.ofList_keys (sort_perm .toml _))

theorem tomlImpact_text (t : Text) :
    tomlImpact (.text t) = (Rank.parse t : Except UnknownRank Impact).toOption := by
  show (match (Rank.parse t : Except UnknownRank Impact) with
    | .ok impact => some impact
    | .error _ => none) = _
  cases (Rank.parse t : Except UnknownRank Impact) <;> rfl

/-- **The configuration of a table that is read from a document** of a configuration. -/
theorem ofToml_eq (c : Config) : ofToml (fieldsOf (c.document .toml)) = c.reread.toOption := by
  obtain ⟨name, detectors, exportDir, noExport, minImpact, threshold⟩ := c.lookup_document
  have name : tomlField (fieldsOf (c.document .toml)) nameField Value.text? ({} : Config).name =
      some c.name := by
    rw [tomlField, named_document c (by decide), name]
    rfl
  have detectors : ((fieldsOf (c.document .toml)).named detectorsField).foldlM tomlDetectors
      ({} : Config).off = some c.off := by
    rw [named_document c (by decide), detectors]
    split
    · next empty => exact congrArg some (Dict.eq_empty empty).symm
    · exact (bind_pure _).trans c.tomlDetectors_eq
  have exportDir : tomlField (fieldsOf (c.document .toml)) exportDirField Value.text?
      ({} : Config).exportDir = some c.exportDir := by
    rw [tomlField, named_document c (by decide), exportDir]
    split
    · next empty => exact congrArg some (List.isEmpty_iff.mp empty).symm
    · rfl
  have noExport : tomlField (fieldsOf (c.document .toml)) noExportField Value.flag?
      ({} : Config).noExport = some c.noExport := by
    rw [tomlField, named_document c (by decide), noExport]
    cases c.noExport <;> rfl
  have minImpact : tomlField (fieldsOf (c.document .toml)) minImpactField tomlImpact
      ({} : Config).minImpact = (Rank.parse c.minImpact.text : Except UnknownRank Impact).toOption := by
    rw [tomlField, named_document c (by decide), minImpact]
    exact (bind_pure _).trans (tomlImpact_text _)
  have threshold : tomlField (fieldsOf (c.document .toml)) thresholdField Value.whole?
      ({} : Config).threshold = some c.threshold := by
    rw [tomlField, named_document c (by decide), threshold]
    rfl
  rw [ofToml, name, detectors, exportDir, noExport, minImpact, threshold, reread]
  cases (Rank.parse c.minImpact.text : Except UnknownRank Impact) <;> rfl

end Toml

/-! ## Files -/

/-- **A configuration of valid texts**, with a threshold that fits a word. -/
structure IsValid (c : Config) : Prop where
  name : c.name.isValid = true
  detectors : ∀ name ∈ c.off.keys, name.isValid = true
  exportDir : c.exportDir.isValid = true
  threshold : Word.fits c.threshold = true

theorem isValid_text (i : Impact) : i.text.isValid = true := by
  unfold Rank.text
  split
  · next name eq =>
    have names : ∀ name ∈ Scale.impact.names, name.isValid = true := by decide
    unfold Rank.name? at eq
    split at eq
    · cases eq
    · exact names name (List.mem_of_getElem? eq)
  · have front : Toml.Written (Text.ofString "Impact(") "Impact(".toList := .literal (by decide)
    have back : Toml.Written (Text.ofString ")") ")".toList := .literal (by decide)
    have whole := (front.append (Toml.written_ofInt i.level)).append back
    exact whole.eq ▸ Text.isValid_ofChars _

/-- The document of a valid configuration is a proper one. -/
theorem isProper_document {c : Config} (valid : c.IsValid) (format : Format) :
    (Document.table (c.document format)).IsProper := by
  have names : ∀ name ∈ fieldNames, name.isValid = true := by decide
  refine .table (c.nodup_document format) ?_ ?_
  · intro field mem
    exact names field.1 ((c.names_sublist format).subset (List.mem_map_of_mem mem))
  · intro field mem
    rcases mem_document mem with rfl | rfl | rfl | rfl | rfl | rfl
    · exact .text valid.name
    · refine .table (c.nodup_detectorFields format) ?_ ?_
      · intro field mem
        obtain ⟨name, among, rfl⟩ := List.mem_map.mp mem
        exact valid.detectors name ((sort_perm format _).mem_iff.mp among)
      · intro field mem
        obtain ⟨name, among, rfl⟩ := List.mem_map.mp mem
        have off : offField.isValid = true := by decide
        exact .table (List.nodup_singleton _) (List.forall_mem_singleton.mpr off)
          (List.forall_mem_singleton.mpr (.flag _))
    · exact .text valid.exportDir
    · exact .flag true
    · exact .text (isValid_text c.minImpact)
    · exact .number valid.threshold

/-- **What is parsed from the text of a configuration** is the configuration as it is read again. -/
theorem parse_render {c : Config} {format : Format} (valid : c.IsValid)
    (decodes : format = .yaml → Yaml.ReadsBack (c.document .yaml)) :
    ∃ fault : UnknownRank → ConfigFault, parse format (c.render format) = c.reread.mapError fault := by
  cases format with
  | yaml =>
    obtain ⟨tree, read, shown⟩ := decodes rfl
    refine ⟨.unknownImpact, ?_⟩
    simp only [parse, render, Format.render, read, ofYaml_eq tree valid.threshold shown]
  | toml =>
    have read := Toml.read_render (isProper_document valid .toml)
    refine ⟨fun _ => .malformed, ?_⟩
    simp only [parse, render, Format.render, read, Option.bind_some, ofToml_eq]
    cases c.reread <;> rfl

/-- **A configuration that is saved is loaded again.** Whatever the format, the configuration that is
loaded from the file at a path after it was saved there is the one that was saved, with a table of
detectors even if it had none. If its least impact has no name, the file cannot be used. In YAML this is
so for a document that reads back, which one with a text that starts with a line feed or with a detector
named `<<` does not. -/
theorem load_save (c : Config) {d d' : Disk} {path : Text} (valid : c.IsValid)
    (decodes : Format.ofPath path = .yaml → Yaml.ReadsBack (c.document .yaml))
    (saved : c.save d path = .ok d') :
    (c.minImpact ∈ Impact.named → load d' path = .ok { c with detectors := some c.off }) ∧
    (c.minImpact ∉ Impact.named → ∃ fault, load d' path = .error (.unusable path fault)) := by
  have read : d'.read path = .ok (c.render (.ofPath path)) := Disk.read_of_write saved
  obtain ⟨fault, parsed⟩ := parse_render valid decodes
  constructor
  · intro named
    rw [reread_of_named named] at parsed
    rw [load, read]
    simp only [parsed, Except.mapError]
  · intro unnamed
    rw [reread_of_unnamed unnamed] at parsed
    rw [load, read]
    simp only [parsed, Except.mapError]
    exact ⟨_, rfl⟩

/-- A name that is a flag if it is not quoted, a folder's name of two lines and a detector are loaded as
they were saved. An impact without a name is saved, and then its file cannot be used. -/
theorem load_save_quoted :
    (let c : Config := {
      name := "no", detectors := some (.ofList [(Text.ofString "dead-code", true)]),
      exportDir := "a\nb", minImpact := .high, threshold := 7 }
    ∃ d, c.save {} "tealer.yml" = .ok d ∧ load d "tealer.yml" = .ok c) ∧
    (let c : Config := { detectors := none, minImpact := ⟨9⟩ }
    ∃ d fault, c.save {} "tealer.TOML" = .ok d ∧
      load d "tealer.TOML" = .error (.unusable "tealer.TOML" fault)) := by
  constructor
  · intro c
    obtain ⟨d, saved⟩ : ∃ d, c.save {} "tealer.yml" = .ok d := ⟨_, rfl⟩
    have valid : c.IsValid := ⟨by decide, by decide, by decide, by decide⟩
    have decodes : Format.ofPath "tealer.yml" = .yaml → Yaml.ReadsBack (c.document .yaml) := by
      intro _
      decide +kernel
    exact ⟨d, saved, (load_save c valid decodes saved).1 (by decide)⟩
  · intro c
    obtain ⟨d, saved⟩ : ∃ d, c.save {} "tealer.TOML" = .ok d := ⟨_, rfl⟩
    have valid : c.IsValid := ⟨by decide, by decide, by decide, by decide⟩
    have toml : Format.ofPath "tealer.TOML" = .toml := by decide
    have decodes : Format.ofPath "tealer.TOML" = .yaml → Yaml.ReadsBack (c.document .yaml) := by
      rw [toml]
      nofun
    obtain ⟨fault, refused⟩ := (load_save c valid decodes saved).2 (by decide)
    exact ⟨d, fault, saved, refused⟩

end Config

end TealAudit
