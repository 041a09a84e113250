import TealAudit.Config.OfToml
import TealAudit.Proofs.TomlTables

/-!
# What a document fills in

Something is filled from a map of a YAML tree or from a table of TOML fields. Here is what that comes
to when the map or the table was written as a document: the fields of the document are set, each of
them once.

A YAML node **shows** a document when its scalars mean what the document has and its maps have the
fields of the tables in their order (`Yaml.Node.shows`). A map that shows a table has no key twice and
asks for no other map, so filling from it takes the fields of the table one after the other
(`Config.fillFrom_eq`).

A TOML table has the fields of the document in another order, its values before its tables
(`Toml.fieldsOf_perm`). The order does not matter: where no name spells another one, the value that is
meant for a field is the one under its name (`Toml.Fields.named_of_mem`).
-/

namespace TealAudit

/-! ## What a YAML tree shows -/

namespace Yaml

mutual

/-- **Whether a node shows a document**: a scalar without a tag what it means, and a map the fields of a
table in their order. -/
def Node.shows : Node → Document → Bool
  | .scalar none plain spelling, .text t => spelling = t && scalarValue none plain t = some (.text t)
  | .scalar none plain spelling, .flag b => scalarValue none plain spelling = some (.flag b)
  | .scalar none plain spelling, .number n => scalarValue none plain spelling = some (.whole n)
  | .map entries, .table fields => showsAll entries fields
  | _, _ => false

/-- Whether the entries of a map show the fields of a table. A key shows the name, and asks for no other
map. -/
def showsAll : List (Node × Node) → List (Text × Document) → Bool
  | [], [] => true
  | (key, value) :: entries, (name, doc) :: fields =>
    key.shows (.text name) && !isMergeKey key && value.shows doc && showsAll entries fields
  | _, _ => false

end

/-- **A table is read back** from its written form: what is read shows the table. -/
def ReadsBack (docs : List (Text × Document)) : Prop :=
  ∃ tree, read (render docs) = some tree ∧ tree.root.shows (.table docs) = true

instance (docs : List (Text × Document)) : Decidable (ReadsBack docs) :=
  decidable_of_iff ((read (render docs)).any (fun tree => tree.root.shows (.table docs)) = true) (by
    rw [ReadsBack, Option.any_eq_true])

/-- What a node that shows a document is. -/
theorem Node.exists_of_shows {n : Node} {doc : Document} (shown : n.shows doc = true) :
    match doc with
    | .text t => ∃ plain, n = .scalar none plain t ∧ scalarValue none plain t = some (.text t)
    | .flag b => ∃ plain s, n = .scalar none plain s ∧ scalarValue none plain s = some (.flag b)
    | .number k => ∃ plain s, n = .scalar none plain s ∧ scalarValue none plain s = some (.whole k)
    | .table fields => ∃ entries, n = .map entries ∧ showsAll entries fields = true := by
  unfold Node.shows at shown
  split at shown
  · rw [Bool.and_eq_true, decide_eq_true_eq, decide_eq_true_eq] at shown
    obtain ⟨rfl, means⟩ := shown
    exact ⟨_, rfl, means⟩
  · exact ⟨_, _, rfl, of_decide_eq_true shown⟩
  · exact ⟨_, _, rfl, of_decide_eq_true shown⟩
  · exact ⟨_, rfl, shown⟩
  · cases shown

namespace Tree

variable {n : Node} (tree : Tree)

theorem text_eq {t : Text} (shown : n.shows (.text t) = true) : tree.text n = .value t := by
  obtain ⟨plain, rfl, means⟩ := Node.exists_of_shows shown
  simp only [text, scalar, target, means]
  rfl

theorem flag_eq {b : Bool} (shown : n.shows (.flag b) = true) : tree.flag n = .value b := by
  obtain ⟨plain, s, rfl, means⟩ := Node.exists_of_shows shown
  simp only [flag, scalar, target, means]
  rfl

theorem whole_eq {k : Int} (shown : n.shows (.number k) = true) (fits : Word.fits k = true) :
    tree.whole n = .value k := by
  obtain ⟨plain, s, rfl, means⟩ := Node.exists_of_shows shown
  have low : k < (Word.half : Int) := of_decide_eq_true (Bool.and_eq_true_iff.mp fits).2
  simp only [whole, scalar, target, means, if_pos low]
  rfl

end Tree

/-- A key with a new name is a step of its own. -/
theorem Tree.ownSteps_cons (tree : Tree) (known : List Text) {met : List Text} {key value : Node}
    {name : Text} (own : isMergeKey key = false) (named : tree.text key = .value name)
    (new : name ∉ met) (entries : List (Node × Node)) :
    (tree.ownSteps known none met ((key, value) :: entries)).1 =
      .field name value :: (tree.ownSteps known none (name :: met) entries).1 := by
  have unmet : met.contains name = false := by simpa using new
  rw [ownSteps.eq_def]
  simp only [own, named, unmet, Bool.and_false, Bool.false_eq_true, if_false]

/-- **An entry of a map shows a field of a table.** -/
structure ShowsField (entry : Node × Node) (field : Text × Document) : Prop where
  key : entry.1.shows (.text field.1) = true
  own : isMergeKey entry.1 = false
  value : entry.2.shows field.2 = true

variable {entries : List (Node × Node)} {docs : List (Text × Document)}

theorem forall₂_of_showsAll (shown : showsAll entries docs = true) :
    List.Forall₂ ShowsField entries docs := by
  induction entries generalizing docs with
  | nil =>
    cases docs with
    | nil => exact .nil
    | cons field docs => cases shown
  | cons entry entries ih =>
    cases docs with
    | nil => cases shown
    | cons field docs =>
      simp only [showsAll, Bool.and_eq_true, Bool.not_eq_true'] at shown
      obtain ⟨⟨⟨key, own⟩, value⟩, rest⟩ := shown
      exact .cons ⟨key, own, value⟩ (ih rest)

theorem any_sameKey_eq_false (shown : List.Forall₂ ShowsField entries docs) {key : Node} {name : Text}
    (named : key.shows (.text name) = true) (new : name ∉ docs.map (·.1)) :
    entries.any (fun e => sameKey key e.1) = false := by
  obtain ⟨plain, rfl, -⟩ := Node.exists_of_shows named
  induction shown with
  | nil => rfl
  | cons field _ ih =>
    obtain ⟨plain', eq, -⟩ := Node.exists_of_shows field.key
    obtain ⟨other, new⟩ := not_or.mp (mt List.mem_cons.mpr new)
    rw [List.any_cons, eq, ih new, Bool.or_false]
    exact decide_eq_false other

/-- Entries that show fields of different names have different keys. -/
theorem hasRepeatedKey_eq_false (shown : List.Forall₂ ShowsField entries docs)
    (apart : (docs.map (·.1)).Nodup) : hasRepeatedKey entries = false := by
  induction shown with
  | nil => rfl
  | cons field rest ih =>
    obtain ⟨new, apart⟩ := List.nodup_cons.mp apart
    rw [hasRepeatedKey, any_sameKey_eq_false rest field.key new, ih apart, Bool.or_false]

theorem filter_isMergeKey_eq_nil (shown : List.Forall₂ ShowsField entries docs) :
    entries.filter (fun e => isMergeKey e.1) = [] := by
  induction shown with
  | nil => rfl
  | cons field _ ih => rw [List.filter_cons_of_neg (by rw [field.own]; exact Bool.false_ne_true), ih]

end Yaml

/-! ## Filling from YAML -/

namespace Config

open Yaml (Node Tree ShowsField showsAll)

variable {entries : List (Node × Node)} {docs : List (Text × Document)} (tree : Tree)

section Filling

variable {α : Type} {set : Text → Node → α → Except ConfigFault (Filled α)}
  {take : α → Text × Document → Except ConfigFault α}

theorem fill_ownSteps (shown : List.Forall₂ ShowsField entries docs) (apart : (docs.map (·.1)).Nodup)
    (known : List Text) {met : List Text} (new : ∀ field ∈ docs, field.1 ∉ met)
    (agrees : ∀ field ∈ docs, ∀ value : Node, value.shows field.2 = true → ∀ a,
      set field.1 value a = (take a field).map fun a => ⟨a, true⟩) (a : α) :
    fill set (tree.ownSteps known none met entries).1 a =
      (docs.foldlM take a).map fun a => ⟨a, true⟩ := by
  induction shown generalizing met a with
  | nil => rfl
  | @cons entry field entries docs first rest ih =>
    obtain ⟨key, value⟩ := entry
    obtain ⟨agree, agrees⟩ := List.forall_mem_cons.mp agrees
    obtain ⟨newName, new⟩ := List.forall_mem_cons.mp new
    obtain ⟨other, apart⟩ := List.nodup_cons.mp apart
    have newer : ∀ field' ∈ docs, field'.1 ∉ field.1 :: met := by
      intro field' mem
      refine List.not_mem_cons_of_ne_of_not_mem ?_ (new field' mem)
      intro same
      exact other (List.mem_map.mpr ⟨field', mem, same⟩)
    rw [tree.ownSteps_cons known first.own (tree.text_eq first.key) newName, fill,
      agree value first.value, List.foldlM_cons]
    cases take a field with
    | error fault => rfl
    | ok b =>
      show (do
        let all ← fill set (tree.ownSteps known none (field.1 :: met) entries).1 b
        return { all with fitted := true && all.fitted }) = (docs.foldlM take b).map _
      rw [ih apart newer agrees]
      cases docs.foldlM take b <;> rfl

/-- **A map that shows a table fills in the fields of the table**, one after the other. -/
theorem fillFrom_eq (shown : showsAll entries docs = true) (apart : (docs.map (·.1)).Nodup)
    (known : List Text)
    (agrees : ∀ field ∈ docs, ∀ value : Node, value.shows field.2 = true → ∀ a,
      set field.1 value a = (take a field).map fun a => ⟨a, true⟩) (a : α) :
    fillFrom tree known set entries a = (docs.foldlM take a).map fun a => ⟨a, true⟩ := by
  have all := Yaml.forall₂_of_showsAll shown
  have steps : (tree.steps known (tree.depth + 1) none entries).1 =
      (tree.ownSteps known none [] entries).1 := by
    rw [Tree.steps, Yaml.hasRepeatedKey_eq_false all apart, Yaml.filter_isMergeKey_eq_nil all]
    rfl
  rw [fillFrom, steps]
  exact fill_ownSteps tree all apart known (fun _ _ => List.not_mem_nil) agrees a

end Filling

end Config

/-! ## Filling from TOML -/

namespace Toml

/-- The fields of a table are read as the values of its documents, though in another order. -/
theorem fieldsOf_perm (docs : List (Text × Document)) :
    (fieldsOf docs).Perm (docs.map fun field => (field.1, Value.ofDocument field.2)) := by
  induction docs with
  | nil => rfl
  | cons field docs ih =>
    obtain ⟨name, doc⟩ := field
    cases doc with
    | table inner => exact List.perm_middle.trans (ih.cons _)
    | _ => exact ih.cons _

theorem names_perm (docs : List (Text × Document)) :
    ((fieldsOf docs).map (·.1)).Perm (docs.map (·.1)) := by
  have perm := (fieldsOf_perm docs).map (·.1)
  rwa [List.map_map] at perm

/-- Whether no other one of some names spells a name. -/
def IsSpelledOnce (names : List Text) (name : Text) : Prop :=
  ∀ other ∈ names, other.spells name = true → other = name

namespace Fields

variable {fields : Fields} {name : Text}

theorem named_eq (once : IsSpelledOnce (fields.map (·.1)) name) :
    fields.named name = (fields.filter (·.1 = name)).map (·.2) := by
  have spelled : fields.filter (fun field => field.1.spells name) = fields.filter (·.1 = name) := by
    refine List.filter_congr fun field mem => ?_
    rw [Bool.eq_iff_iff, decide_eq_true_eq]
    constructor
    · exact once field.1 (List.mem_map_of_mem mem)
    · intro same
      rw [same]
      exact decide_eq_true rfl
  have others : (fields.filter (·.1 = name)).filter (·.1 ≠ name) = [] := by
    rw [List.filter_filter, List.filter_eq_nil_iff]
    simp
  rw [named, spelled]
  simp only [others, List.nil_append, List.filter_filter, Bool.and_self]

/-- **The value that is meant for a field** is the one under its name. -/
theorem named_of_mem (once : IsSpelledOnce (fields.map (·.1)) name) (apart : (fields.map (·.1)).Nodup)
    {v : Value} (mem : (name, v) ∈ fields) : fields.named name = [v] := by
  have own : fields.filter (·.1 = name) = [(name, v)] := Dict.filter_of_nodup apart mem
  rw [named_eq once, own]
  rfl

theorem named_of_not_mem (once : IsSpelledOnce (fields.map (·.1)) name)
    (none : name ∉ fields.map (·.1)) : fields.named name = [] := by
  have own : fields.filter (·.1 = name) = [] := by
    rw [List.filter_eq_nil_iff]
    intro field mem same
    exact none (of_decide_eq_true same ▸ List.mem_map_of_mem mem)
  rw [named_eq once, own]
  rfl

end Fields

end Toml

end TealAudit
