import Mathlib.Data.List.Nodup
import TealAudit.Proofs.TomlValues

/-!
# Tables in TOML

A table is written as the lines of its values and then its tables, each of them behind a header with
the whole path to it. The reader has one table with all fields and the path of the last header, so that
each line changes the table at a place deep within it.

That place is always the last one, for the fields are set in the order in which they are written: all
but the last table on the way to it are finished. So it is the **hole** in a table (`Toml.Hole`), and a
line adds to the fields in the hole. Each line leads on from one place of the text to the next
(`Toml.Leads`), from the values of a table to its headers and so, by induction on the tables as they are
written, to the end. **A table is read back from its written form** (`Toml.read_render`), its values
before its tables, if its texts are valid, its numbers fit and no name stands twice in one table.
-/

namespace TealAudit

namespace Toml

/-! ## Fields -/

namespace Fields

variable {fields : Fields} {name : Text}

theorem get?_eq_none_iff : get? fields name = none ↔ ∀ field ∈ fields, field.1 ≠ name := by
  rw [get?, List.lookup_eq_none_iff]
  simp only [bne_iff_ne]
  exact forall₂_congr fun _ _ => ne_comm

theorem get?_concat (new : get? fields name = none) (v : Value) :
    get? (fields ++ [(name, v)]) name = some v := by
  rw [get?] at new ⊢
  rw [List.lookup_append, new, Option.none_or, List.lookup_cons_self]

theorem get?_concat_eq_none {other : Text} (none : get? fields other = .none) (ne : other ≠ name)
    (v : Value) : get? (fields ++ [(name, v)]) other = .none := by
  rw [get?_eq_none_iff] at none ⊢
  exact List.forall_mem_append.mpr ⟨none, List.forall_mem_singleton.mpr ne.symm⟩

theorem set_new (new : get? fields name = none) (v : Value) :
    set fields name v = fields ++ [(name, v)] := by
  rw [set, new]
  rfl

theorem set_concat (new : get? fields name = none) (v w : Value) :
    set (fields ++ [(name, v)]) name w = fields ++ [(name, w)] := by
  have others : fields.map (fun field => if field.1 = name then (name, w) else field) = fields :=
    (List.map_congr_left fun field mem => if_neg (get?_eq_none_iff.mp new field mem)).trans
      (List.map_id fields)
  rw [set, get?_concat new, Option.isSome_some, if_pos rfl, List.map_append, others]
  simp

theorem change_append {α : Type} (f : Fields → Option (Fields × α)) (front rest : List Text)
    (fields : Fields) : change f (front ++ rest) fields = change (change f rest) front fields := by
  induction front generalizing fields with
  | nil => rfl
  | cons name front ih =>
    rw [List.cons_append, change, change]
    simp only [ih]

end Fields

/-! ## Places in a table -/

/-- **A table with a hole** at a path: each name on it stands behind the fields before it, and leads to
a table. -/
inductive Hole : List Text → (Fields → Fields) → Prop
  | top : Hole [] id
  | inner {path : List Text} {hole : Fields → Fields} {fields : Fields} {name : Text}
    (outer : Hole path hole) (new : fields.get? name = none) :
    Hole (path ++ [name]) fun inner => hole (fields ++ [(name, .table inner)])

namespace Hole

variable {path : List Text} {hole : Fields → Fields} {fields : Fields} {name : Text}

/-- A change at the path of a hole is a change of what is in it. -/
theorem change (h : Hole path hole) {α : Type} (f : Fields → Option (Fields × α)) (fields : Fields) :
    (hole fields).change f path = (f fields).map fun (fields, a) => (hole fields, a) := by
  induction h generalizing f fields with
  | top =>
    show f fields = _
    cases f fields <;> rfl
  | @inner path hole before name outer new ih =>
    rw [Fields.change_append, ih, Fields.change, Fields.get?_concat new]
    simp only [Fields.change, Option.map_map]
    congr 1
    funext result
    simp only [Function.comp_apply, Fields.set_concat new]

/-- A value is set in a hole behind the fields that are there. -/
theorem set (h : Hole path hole) (new : fields.get? name = none) (v : Value) :
    Filling.set { fields := hole fields } path name v =
      some { fields := hole (fields ++ [(name, v)]) } := by
  rw [Filling.set, h.change]
  simp only [new, Option.isNone_none, if_true, Fields.set_new new]
  rfl

end Hole

theorem Filling.pass_append (f : Filling) (context front rest : List Text) :
    f.pass context (front ++ rest) =
      (f.pass context front).bind fun f => f.pass (context ++ front) rest := by
  induction front generalizing f context with
  | nil => rw [List.nil_append, pass, Option.bind_some, List.append_nil]
  | cons name front ih =>
    rw [List.cons_append, pass, pass]
    simp only [Option.bind_eq_bind, Option.bind_assoc, ih, List.append_assoc, List.singleton_append]

namespace Hole

variable {path : List Text} {hole : Fields → Fields} {fields : Fields} {name : Text}

/-- All tables on the way to a hole are there. -/
theorem pass (h : Hole path hole) (fields : Fields) :
    Filling.pass { fields := hole fields } [] path = some { fields := hole fields } := by
  induction h generalizing fields with
  | top => rfl
  | @inner path hole before name outer new ih =>
    rw [Filling.pass_append, ih, Option.bind_some, Filling.pass, List.nil_append, outer.change,
      Fields.get?_concat new]
    rfl

/-- **A table opened** by a header is a field behind those that are there. -/
theorem openTable (h : Hole path hole) (new : fields.get? name = none) :
    Filling.openTable { fields := hole fields } (path ++ [name]) false =
      some { fields := hole (fields ++ [(name, .table [])]) } := by
  rw [Filling.openTable, List.getLast?_concat, List.dropLast_concat]
  simp only [Option.bind_eq_bind, Option.bind_some, h.pass, Bool.false_eq_true, if_false, h.set new]

end Hole

/-! ## Lines -/

theorem skipLines_append {ws : List Char} (blank : ∀ w ∈ ws, (isBlank w || isLineEnd w) = true)
    {c : Char} (text : (isBlank c || isLineEnd c) = false) (comment : c ≠ '#') (n : Nat) (cs : List Char) :
    skipLines (n + 1) (ws ++ c :: cs) = c :: cs := by
  have skipped : (ws ++ c :: cs).dropWhile (fun c => isBlank c || isLineEnd c) = c :: cs := by
    rw [List.dropWhile_append_of_pos blank]
    exact List.dropWhile_cons_of_neg (by rw [text]; exact Bool.false_ne_true)
  rw [skipLines, skipped]
  split
  · next rest eq => exact absurd (List.cons.inj eq).1 comment
  · rfl

/-- **Lines that are read lead on** from one place in a text to another one. -/
def Leads (r s : Reading (List Text)) : Prop :=
  ∃ n, n + s.rest.length ≤ r.rest.length ∧
    ∀ k, linesFrom (k + n) r.value r.filling r.rest = linesFrom k s.value s.filling s.rest

namespace Leads

theorem refl (r : Reading (List Text)) : Leads r r := ⟨0, by omega, fun _ => rfl⟩

theorem trans {r s t : Reading (List Text)} (first : Leads r s) (second : Leads s t) : Leads r t := by
  obtain ⟨m, shorter, reads⟩ := first
  obtain ⟨n, shorter', reads'⟩ := second
  exact ⟨n + m, by omega, fun k => by rw [← Nat.add_assoc, reads, reads']⟩

/-- One line that is read leads on. -/
theorem line {context : List Text} {f : Filling} {ws cs : List Char} {c : Char}
    (blank : ∀ w ∈ ws, (isBlank w || isLineEnd w) = true) (text : (isBlank c || isLineEnd c) = false)
    (comment : c ≠ '#') {s : Reading (List Text)} (read : lineAt context f (c :: cs) = some s)
    (shorter : s.rest.length ≤ cs.length) : Leads ⟨context, f, ws ++ c :: cs⟩ s := by
  refine ⟨1, ?_, fun k => ?_⟩
  · simp only [List.length_append, List.length_cons]
    omega
  · rw [linesFrom, skipLines_append blank text comment]
    simp only [read]

/-- **A text that is read to its end** is read as what its lines have filled. -/
theorem read_eq {cs : List Char} {s : Reading (List Text)} (leads : Leads ⟨[], {}, cs⟩ s)
    (done : s.rest = []) : linesFrom (cs.length + 1) [] {} cs = some s.filling.fields := by
  obtain ⟨n, shorter, reads⟩ := leads
  obtain ⟨k, eq⟩ : ∃ k, cs.length + 1 = k + 1 + n := ⟨cs.length - n, by simp at shorter; omega⟩
  rw [eq, reads, done]
  rfl

end Leads

theorem text_of_startsName {c : Char} (starts : startsName c = true) :
    (isBlank c || isLineEnd c) = false ∧ c ≠ '#' ∧ c ≠ '[' := by
  have apart (x : Char) (other : startsName x = false) : c ≠ x := by
    rintro rfl
    rw [starts] at other
    cases other
  simp only [isBlank, isLineEnd, Bool.or_eq_false_iff, decide_eq_false_iff_not]
  exact ⟨⟨⟨apart _ (by decide), apart _ (by decide)⟩, apart _ (by decide), apart _ (by decide)⟩,
    apart _ (by decide), apart _ (by decide)⟩

theorem written_spaces (n : Nat) : Written (Text.spaces n) (List.replicate n ' ') where
  eq := by
    induction n with
    | zero => rfl
    | succ n ih => exact congrArg (Text.byte ' ' :: ·) ih
  isOpen c mem := by
    rw [List.eq_of_mem_replicate mem]
    decide

theorem isBlank_of_mem_spaces (n : Nat) :
    ∀ w ∈ List.replicate n ' ', (isBlank w || isLineEnd w) = true := by
  intro w mem
  rw [List.eq_of_mem_replicate mem]
  rfl

theorem skipLineEnd_newline (rest : List Char) : skipLineEnd ('\n' :: rest) = some rest := rfl

/-- A key and its value are set in the table in a hole. -/
theorem entryAt_value {path : List Text} {hole : Fields → Fields} {fields : Fields} (h : Hole path hole)
    {key : Text} (new : fields.get? key = none) {fuel : Nat} {cs rest behind : List Char} {v : Value}
    (single : ∀ items, v ≠ .list items)
    (readKey : keyAt (cs.length + 1) cs = some ([key], '=' :: rest))
    (readValue : valueAt fuel false path key { fields := hole fields } (skipBlanks rest) =
      some ⟨v, { fields := hole fields }, behind⟩) :
    entryAt (fuel + 1) path { fields := hole fields } cs =
      some ⟨([key], v), { fields := hole (fields ++ [(key, v)]) }, behind⟩ := by
  rw [entryAt, readKey]
  simp only [Option.bind_eq_bind, Option.bind_some, List.getLast?_singleton, List.dropLast_singleton,
    List.append_nil, Filling.openParts, readValue, h.set new]
  cases v with
  | list items => exact absurd rfl (single items)
  | _ => rfl

theorem lineAt_entry {context : List Text} {f : Filling} {c : Char} {cs rest : List Char}
    (other : c ≠ '[') {entry : List Text × Value} {g : Filling}
    (read : entryAt (cs.length + 2) context f (c :: cs) = some ⟨entry, g, '\n' :: rest⟩) :
    lineAt context f (c :: cs) = some ⟨context, g, rest⟩ := by
  unfold lineAt
  split
  · next eq => exact absurd (List.cons.inj eq).1 other
  · next eq => exact absurd (List.cons.inj eq).1 other
  · rw [List.length_cons, read]
    rfl

/-- **A line with a value is read** into the table in a hole. -/
theorem exists_valueLine {path : List Text} {hole : Fields → Fields} {fields : Fields}
    (h : Hole path hole) {key t : Text} (new : fields.get? key = none) (valid : key.isValid = true)
    {doc : Document} (proper : doc.IsProper) (scalar : value? doc = some t) (indent : Nat) :
    ∃ cs v, Written (Text.spaces indent ++ name key ++ " = " ++ t ++ "\n") cs ∧
      Value.ofScalar? doc = some v ∧
      ∀ rest, Leads ⟨path, { fields := hole fields }, cs ++ rest⟩
        ⟨path, { fields := hole (fields ++ [(key, v)]) }, rest⟩ := by
  obtain ⟨c, cs, writtenKey, starts, -, readKey⟩ :=
    exists_written_key (List.cons_ne_nil key []) (List.forall_mem_singleton.mpr valid)
  obtain ⟨d, ds, v, writtenValue, ofScalar, solid, readValue⟩ := exists_written_value proper scalar
  have equals : Written (Text.ofString " = ") [' ', '=', ' '] := .literal (s := " = ") (by decide)
  have newline : Written (Text.ofString "\n") ['\n'] := .literal (s := "\n") (by decide)
  have written := ((((written_spaces indent).append writtenKey).append equals).append writtenValue).append
    newline
  refine ⟨_, v, written, ofScalar, fun rest => ?_⟩
  obtain ⟨text, comment, header⟩ := text_of_startsName starts
  have single : ∀ items, v ≠ .list items := by
    rintro items rfl
    cases doc <;> cases ofScalar
  let tail := ' ' :: '=' :: ' ' :: (d :: ds ++ '\n' :: rest)
  have readKey : keyAt ((c :: (cs ++ tail)).length + 1) (c :: (cs ++ tail)) =
      some ([key], '=' :: ' ' :: (d :: ds ++ '\n' :: rest)) :=
    readKey tail (by rintro x ⟨⟩; decide) (by rintro x ⟨⟩; decide) _ (Nat.le_add_left 1 _)
  have behind : skipBlanks (' ' :: (d :: ds ++ '\n' :: rest)) = d :: ds ++ '\n' :: rest := by
    show skipBlanks (d :: (ds ++ '\n' :: rest)) = _
    exact List.dropWhile_cons_of_neg (by rw [solid]; exact Bool.false_ne_true)
  have readValue : valueAt ((cs ++ tail).length + 1) false path key { fields := hole fields }
      (skipBlanks (' ' :: (d :: ds ++ '\n' :: rest))) =
      some ⟨v, { fields := hole fields }, '\n' :: rest⟩ := by
    rw [behind]
    exact readValue _ _ _ _ _ _
  have line := lineAt_entry header (entryAt_value h new single readKey readValue)
  have leads := Leads.line (isBlank_of_mem_spaces indent) text comment line (by simp [tail]; omega)
  simpa [tail] using leads

theorem lineAt_header (context : List Text) {header : List Text} {f g : Filling} {c : Char}
    {cs rest : List Char} (other : c ≠ '[')
    (key : keyAt (cs.length + 2) (c :: cs) = some (header, ']' :: '\n' :: rest))
    (opened : f.openTable header false = some g) :
    lineAt context f ('[' :: c :: cs) = some ⟨header, g.setKind header [] false, rest⟩ := by
  unfold lineAt
  split
  · next eq => exact absurd (List.cons.inj (List.cons.inj eq).2).1 other
  · next eq =>
    cases eq
    rw [List.length_cons, key]
    simp only [Option.bind_eq_bind, Option.bind_some, opened, skipLineEnd_newline]
    rfl
  · next other => exact absurd rfl (other _)

/-- **The header of a table is read**: it opens a field of the table in a hole. -/
theorem exists_headerLine {path : List Text} {hole : Fields → Fields} {fields : Fields}
    (h : Hole path hole) {key : Text} (new : fields.get? key = none)
    (valid : ∀ t ∈ path ++ [key], t.isValid = true) {gap : Text} {ws : List Char} (written : Written gap ws)
    (blank : ∀ w ∈ ws, (isBlank w || isLineEnd w) = true) :
    ∃ cs, Written (gap ++ "[" ++ Text.join "." ((path ++ [key]).map name) ++ "]\n") cs ∧
      ∀ context rest, Leads ⟨context, { fields := hole fields }, cs ++ rest⟩
        ⟨path ++ [key], { fields := hole (fields ++ [(key, .table [])]) }, rest⟩ := by
  obtain ⟨c, cs, writtenKey, starts, long, readKey⟩ := exists_written_key (by simp) valid
  have opening : Written (Text.ofString "[") ['['] := .literal (s := "[") (by decide)
  have closing : Written (Text.ofString "]\n") [']', '\n'] := .literal (s := "]\n") (by decide)
  refine ⟨_, ((written.append opening).append writtenKey).append closing, fun context rest => ?_⟩
  let tail := ']' :: '\n' :: rest
  have readKey : keyAt ((cs ++ tail).length + 2) (c :: (cs ++ tail)) = some (path ++ [key], tail) :=
    readKey tail (by rintro x ⟨⟩; decide) (by rintro x ⟨⟩; decide) _ (by simp at long ⊢; omega)
  have line : lineAt context { fields := hole fields } ('[' :: c :: (cs ++ tail)) =
      some ⟨path ++ [key], { fields := hole (fields ++ [(key, .table [])]) }, rest⟩ :=
    lineAt_header context (text_of_startsName starts).2.2 readKey (h.openTable new)
  have leads := Leads.line blank (by decide) (by decide) line (by simp [tail]; omega)
  simpa [tail] using leads

/-! ## Tables -/

/-- The fields that are no tables. -/
def valuesOf (docs : List (Text × Document)) : Fields :=
  docs.filterMap fun field => (Value.ofScalar? field.2).map (field.1, ·)

mutual

/-- **The value of a document.** A table has its values before its tables. -/
def Value.ofDocument : Document → Value
  | .text t => .text t
  | .flag b => .flag b
  | .number n => .whole n
  | .table docs => .table (valuesOf docs ++ tablesOf docs)

/-- The fields that are tables. -/
def tablesOf : List (Text × Document) → Fields
  | [] => []
  | (key, doc) :: docs =>
    match Value.ofScalar? doc with
    | none => (key, Value.ofDocument doc) :: tablesOf docs
    | some _ => tablesOf docs

end

theorem value?_eq_none_iff {doc : Document} : value? doc = none ↔ Value.ofScalar? doc = none := by
  cases doc <;> simp [value?, Value.ofScalar?]

/-- **The values of a table are read** into the table in a hole. -/
theorem exists_valueLines {path : List Text} {hole : Fields → Fields} (h : Hole path hole) (indent : Nat)
    {docs : List (Text × Document)} (proper : (Document.table docs).IsProper) {fields : Fields}
    (new : ∀ field ∈ docs, fields.get? field.1 = none) :
    ∃ cs, Written (valueLines indent docs) cs ∧ ∀ rest,
      Leads ⟨path, { fields := hole fields }, cs ++ rest⟩
        ⟨path, { fields := hole (fields ++ valuesOf docs) }, rest⟩ := by
  cases proper with | table apart valid proper =>
  induction docs generalizing fields with
  | nil =>
    refine ⟨[], ⟨rfl, nofun⟩, fun rest => ?_⟩
    rw [valuesOf, List.filterMap_nil, List.append_nil]
    exact .refl _
  | cons field docs ih =>
    obtain ⟨key, doc⟩ := field
    obtain ⟨validKey, valid⟩ := List.forall_mem_cons.mp valid
    obtain ⟨properDoc, proper⟩ := List.forall_mem_cons.mp proper
    obtain ⟨newKey, new⟩ := List.forall_mem_cons.mp new
    obtain ⟨other, apart⟩ := List.nodup_cons.mp apart
    cases scalar : value? doc with
    | none =>
      have noValue := value?_eq_none_iff.mp scalar
      obtain ⟨cs, written, leads⟩ := ih new apart valid proper
      refine ⟨cs, ?_, ?_⟩
      · simpa [valueLines, scalar] using written
      · simpa [valuesOf, noValue] using leads
    | some t =>
      obtain ⟨cs, v, written, value, leads⟩ := exists_valueLine h newKey validKey properDoc scalar indent
      have newer : ∀ field ∈ docs, (fields ++ [(key, v)]).get? field.1 = none := by
        intro field mem
        refine Fields.get?_concat_eq_none (new field mem) ?_ v
        rintro rfl
        exact other (List.mem_map.mpr ⟨field, mem, rfl⟩)
      obtain ⟨ds, written', leads'⟩ := ih newer apart valid proper
      refine ⟨cs ++ ds, ?_, fun rest => ?_⟩
      · have whole := written.append written'
        simpa [valueLines, scalar] using whole
      · have both := (leads (ds ++ rest)).trans (leads' rest)
        simpa [valuesOf, value] using both

/-- A name of a table in a table is not that of a value in it. -/
theorem get?_valuesOf {docs : List (Text × Document)} (apart : (docs.map (·.1)).Nodup)
    {field : Text × Document} (mem : field ∈ docs) (table : Value.ofScalar? field.2 = none) :
    (valuesOf docs).get? field.1 = none := by
  refine Fields.get?_eq_none_iff.mpr fun value among same => ?_
  obtain ⟨other, mem', eq⟩ := List.mem_filterMap.mp among
  obtain ⟨v, scalar, rfl⟩ := Option.map_eq_some_iff.mp eq
  have equal : other = field := List.inj_on_of_nodup_map apart mem' mem same
  rw [equal, table] at scalar
  cases scalar

/-- **The tables of a table are read** into the table in a hole, each behind its header. -/
theorem exists_tables {path : List Text} {docs : List (Text × Document)}
    (names : ∀ t ∈ path, t.isValid = true) (proper : (Document.table docs).IsProper)
    {hole : Fields → Fields} (h : Hole path hole) {fields : Fields}
    (new : ∀ field ∈ docs, Value.ofScalar? field.2 = none → fields.get? field.1 = none) :
    ∃ cs, Written (tablesFrom path docs) cs ∧ ∀ context rest, ∃ context',
      Leads ⟨context, { fields := hole fields }, cs ++ rest⟩
        ⟨context', { fields := hole (fields ++ tablesOf docs) }, rest⟩ := by
  fun_induction tablesFrom path docs generalizing hole fields with
  | case1 path =>
    refine ⟨[], ⟨rfl, nofun⟩, fun context rest => ⟨context, ?_⟩⟩
    rw [tablesOf, List.append_nil]
    exact .refl _
  | case2 path key inner docs _ indent gap innerIH =>
    rename_i docsIH
    cases proper with | table apart valid proper =>
    obtain ⟨validKey, valid⟩ := List.forall_mem_cons.mp valid
    obtain ⟨properInner, proper⟩ := List.forall_mem_cons.mp proper
    obtain ⟨newKey, new⟩ := List.forall_mem_cons.mp new
    obtain ⟨other, apart⟩ := List.nodup_cons.mp apart
    have newKey := newKey rfl
    have names' := List.forall_mem_append.mpr ⟨names, List.forall_mem_singleton.mpr validKey⟩
    -- In front of the header there is white space only, for the first table an empty line too.
    obtain ⟨ws, writtenGap, blank⟩ : ∃ ws, Written (gap ++ Text.spaces indent) ws ∧
        ∀ w ∈ ws, (isBlank w || isLineEnd w) = true := by
      unfold gap
      split
      · have newline : Written (Text.ofString "\n") ['\n'] := .literal (s := "\n") (by decide)
        exact ⟨_, newline.append (written_spaces indent),
          List.forall_mem_cons.mpr ⟨rfl, isBlank_of_mem_spaces indent⟩⟩
      · exact ⟨_, written_spaces indent, isBlank_of_mem_spaces indent⟩
    obtain ⟨cs, written, leads⟩ := exists_headerLine h newKey names' writtenGap blank
    -- The header opens a hole of its own, which takes the values and then the tables.
    have h' := h.inner newKey
    have distinct : (inner.map (·.1)).Nodup := by cases properInner; assumption
    have empty : ∀ field ∈ inner, Fields.get? [] field.1 = none := fun _ _ => rfl
    obtain ⟨cs₁, written₁, leads₁⟩ := exists_valueLines h' (indent + 2) properInner empty
    obtain ⟨cs₂, written₂, leads₂⟩ := innerIH names' properInner h'
      (fun _ mem => get?_valuesOf distinct mem)
    have newer : ∀ field ∈ docs, Value.ofScalar? field.2 = none →
        Fields.get? (fields ++ [(key, .table (valuesOf inner ++ tablesOf inner))]) field.1 = none := by
      intro field mem table
      refine Fields.get?_concat_eq_none (new field mem table) ?_ _
      rintro rfl
      exact other (List.mem_map.mpr ⟨field, mem, rfl⟩)
    obtain ⟨cs₃, written₃, leads₃⟩ := docsIH names (.table apart valid proper) h newer
    refine ⟨cs ++ cs₁ ++ cs₂ ++ cs₃, ?_, fun context rest => ?_⟩
    · exact ((written.append written₁).append written₂).append written₃
    · obtain ⟨context₂, leads₂⟩ := leads₂ (path ++ [key]) (cs₃ ++ rest)
      obtain ⟨context₃, leads₃⟩ := leads₃ context₂ rest
      refine ⟨context₃, ?_⟩
      have all := ((leads context (cs₁ ++ (cs₂ ++ (cs₃ ++ rest)))).trans (leads₁ _)).trans
        (leads₂.trans leads₃)
      simpa [tablesOf, Value.ofScalar?, Value.ofDocument] using all
  | case3 path field docs other ih =>
    cases proper with | table apart valid proper =>
    obtain ⟨-, valid⟩ := List.forall_mem_cons.mp valid
    obtain ⟨-, proper⟩ := List.forall_mem_cons.mp proper
    obtain ⟨-, new⟩ := List.forall_mem_cons.mp new
    have same : tablesOf (field :: docs) = tablesOf docs := by
      obtain ⟨key, doc⟩ := field
      cases doc with
      | table inner => exact absurd rfl (other key inner)
      | _ => rfl
    rw [same]
    exact ih names (.table (List.nodup_cons.mp apart).2 valid proper) h new

/-- The fields of a table that is written, in the order in which they are read. -/
def fieldsOf (docs : List (Text × Document)) : Fields := valuesOf docs ++ tablesOf docs

theorem areAllowed_of_isOpen {cs : List Char} (allowed : ∀ c ∈ cs, isOpen c = true) :
    areAllowed cs = true := by
  induction cs with
  | nil => rfl
  | cons c cs ih =>
    obtain ⟨first, rest⟩ := List.forall_mem_cons.mp allowed
    rw [areAllowed, ih rest]
    simp only [isOpen, Bool.or_eq_true, Bool.and_eq_true, decide_eq_true_eq] at first
    rcases first with rfl | ⟨shown, other⟩
    · rfl
    · simp [shown, other]

/-! ### No mark in front -/

/-- Whether a text starts with an ASCII character, if it starts with anything. -/
def StartsLow (t : Text) : Prop := ∀ b ∈ t.head?, b.toNat < 0x80

theorem dropMark_eq {t : Text} (low : StartsLow t) : dropMark t = t := by
  unfold dropMark
  split
  · exact absurd (low 0xFF rfl) (by decide)
  · exact absurd (low 0xFE rfl) (by decide)
  · exact absurd (low 0xEF rfl) (by decide)
  · rfl

theorem startsLow_name (key rest : Text) : StartsLow (name key ++ rest) := by
  unfold name
  split
  · next bare =>
    rw [Bool.and_eq_true, Bool.not_eq_true', List.isEmpty_eq_false_iff] at bare
    obtain ⟨b, t, rfl⟩ := List.exists_cons_of_ne_nil bare.1
    rintro _ ⟨⟩
    exact lt_of_isBareByte (List.all_eq_true.mp bare.2 b List.mem_cons_self)
  · rintro _ ⟨⟩
    decide

theorem startsLow_valueLines (docs : List (Text × Document)) {rest : Text} (low : StartsLow rest) :
    StartsLow (valueLines 0 docs ++ rest) := by
  induction docs with
  | nil => exact low
  | cons field docs ih =>
    rw [valueLines, List.flatMap_cons]
    dsimp only
    split
    · have nothing : Text.spaces 0 = [] := rfl
      rw [nothing, List.nil_append]
      simp only [List.append_assoc]
      exact startsLow_name _ _
    · exact ih

theorem startsLow_tablesFrom (docs : List (Text × Document)) : StartsLow (tablesFrom [] docs) := by
  induction docs with
  | nil =>
    rw [tablesFrom]
    intro b first
    cases first
  | cons field docs ih =>
    obtain ⟨key, doc⟩ := field
    cases doc with
    | table inner =>
      rw [tablesFrom]
      rintro _ ⟨⟩
      decide
    | _ =>
      rw [tablesFrom.eq_def]
      exact ih

/-- **A table is read back from its written form**, its values before its tables. -/
theorem read_render {docs : List (Text × Document)} (proper : (Document.table docs).IsProper) :
    read (render docs) = some (fieldsOf docs) := by
  have distinct : (docs.map (·.1)).Nodup := by cases proper; assumption
  have empty : ∀ field ∈ docs, Fields.get? [] field.1 = none := fun _ _ => rfl
  obtain ⟨cs, written, leads⟩ := exists_valueLines .top 0 proper empty
  obtain ⟨ds, written', leads'⟩ := exists_tables (List.forall_mem_nil _) proper .top
    fun _ mem => get?_valuesOf distinct mem
  have whole := written.append written'
  obtain ⟨context, leads'⟩ := leads' [] []
  have ends := ((leads (ds ++ [])).trans leads').read_eq rfl
  rw [List.append_nil] at ends
  rw [read, render, dropMark_eq (startsLow_valueLines docs (startsLow_tablesFrom docs)), whole.eq,
    Text.chars?_ofChars]
  simp only [Option.bind_eq_bind, Option.bind_some, areAllowed_of_isOpen whole.isOpen, if_true]
  exact ends

end Toml

end TealAudit
