import TealAudit.Text

/-!
# Dictionaries

Values under texts, kept in the ascending order of the texts. Two dictionaries with the same values
under the same keys are equal, whatever the order in which they were filled.
-/

namespace TealAudit

/-- **A dictionary**: entries in strictly ascending order of their keys. -/
structure Dict (α : Type) where
  entries : List (Text × α)
  ascending : entries.Pairwise fun a b => a.1 < b.1
deriving DecidableEq, Repr

namespace Dict

variable {α : Type}

/-- The entries with one set: replaced when the key is there, put in its place when it is not. -/
def insertEntry (key : Text) (value : α) : List (Text × α) → List (Text × α)
  | [] => [(key, value)]
  | (k, v) :: rest =>
    if key < k then (key, value) :: (k, v) :: rest
    else if key = k then (key, value) :: rest
    else (k, v) :: insertEntry key value rest

theorem mem_insertEntry {key : Text} {value : α} {e : Text × α} :
    ∀ {entries : List (Text × α)}, e ∈ insertEntry key value entries → e.1 = key ∨ e ∈ entries
  | [], h => by
    rw [insertEntry, List.mem_singleton] at h
    exact .inl (by rw [h])
  | (k, v) :: rest, h => by
    rw [insertEntry] at h
    split at h
    · rcases List.mem_cons.mp h with h | h
      · exact .inl (by rw [h])
      · exact .inr h
    · split at h
      · rcases List.mem_cons.mp h with h | h
        · exact .inl (by rw [h])
        · exact .inr (List.mem_cons_of_mem _ h)
      · rcases List.mem_cons.mp h with h | h
        · exact .inr (h ▸ List.mem_cons_self)
        · exact (mem_insertEntry h).imp id (List.mem_cons_of_mem _)

theorem ascending_insertEntry (key : Text) (value : α) :
    ∀ {entries : List (Text × α)}, entries.Pairwise (fun a b => a.1 < b.1) →
      (insertEntry key value entries).Pairwise fun a b => a.1 < b.1
  | [], _ => List.pairwise_singleton _ _
  | (k, v) :: rest, h => by
    obtain ⟨hk, hrest⟩ := List.pairwise_cons.mp h
    rw [insertEntry]
    split
    · next lt =>
      refine List.pairwise_cons.mpr ⟨fun e he => ?_, h⟩
      rcases List.mem_cons.mp he with he | he
      · rw [he]; exact lt
      · exact List.lt_trans lt (hk e he)
    · next nlt =>
      split
      · next eq => exact List.pairwise_cons.mpr ⟨fun e he => eq ▸ hk e he, hrest⟩
      · next ne =>
        refine List.pairwise_cons.mpr ⟨fun e he => ?_, ascending_insertEntry key value hrest⟩
        rcases mem_insertEntry he with he | he
        · have le : k ≤ key := List.not_lt.mp nlt
          rw [he]
          exact Std.lt_of_le_of_ne le fun eq => ne eq.symm
        · exact hk e he

/-- The dictionary without entries. -/
def empty : Dict α := ⟨[], .nil⟩

instance : Inhabited (Dict α) := ⟨empty⟩

/-- The dictionary with a value set under a key. -/
def insert (d : Dict α) (key : Text) (value : α) : Dict α :=
  ⟨insertEntry key value d.entries, ascending_insertEntry key value d.ascending⟩

/-- The value under a key. -/
def find? (d : Dict α) (key : Text) : Option α := (d.entries.find? fun e => e.1 = key).map (·.2)

/-- The dictionary without a key. -/
def erase (d : Dict α) (key : Text) : Dict α :=
  ⟨d.entries.filter fun e => e.1 ≠ key, d.ascending.filter _⟩

/-- The dictionary filled with entries, the later ones over the earlier ones. -/
def ofList (entries : List (Text × α)) : Dict α :=
  entries.foldl (fun d e => d.insert e.1 e.2) empty

/-- The keys in ascending order. -/
def keys (d : Dict α) : List Text := d.entries.map (·.1)

/-- Whether there is no entry. -/
def isEmpty (d : Dict α) : Bool := d.entries.isEmpty

/-! ## Look-up -/

theorem find?_insertEntry (key : Text) (value : α) (entries : List (Text × α)) (k : Text) :
    (insertEntry key value entries).find? (fun e => e.1 = k) =
      if k = key then some (key, value) else entries.find? (fun e => e.1 = k) := by
  induction entries with
  | nil =>
    by_cases same : k = key
    · simp [insertEntry, same]
    · simp [insertEntry, same, Ne.symm same]
  | cons entry rest ih =>
    obtain ⟨first, v⟩ := entry
    unfold insertEntry
    by_cases same : k = key
    · subst same
      split
      · simp
      · split
        · simp
        · next other =>
          rw [List.find?_cons_of_neg (by simpa using Ne.symm other), ih, if_pos rfl, if_pos rfl]
    · rw [if_neg same] at ih ⊢
      split
      · rw [List.find?_cons_of_neg (by simpa using Ne.symm same)]
      · split
        · next here =>
          subst here
          rw [List.find?_cons_of_neg (by simpa using Ne.symm same),
            List.find?_cons_of_neg (by simpa using Ne.symm same)]
        · simp only [List.find?_cons, ih]

theorem find?_insert (d : Dict α) (key : Text) (value : α) (k : Text) :
    (d.insert key value).find? k = if k = key then some value else d.find? k := by
  unfold find? insert
  rw [find?_insertEntry]
  split
  · rfl
  · rfl

theorem find?_erase (d : Dict α) (key k : Text) :
    (d.erase key).find? k = if k = key then none else d.find? k := by
  unfold find? erase
  simp only [List.find?_filter]
  split
  · next same =>
    rw [Option.map_eq_none_iff, List.find?_eq_none]
    simp [same]
  · next other =>
    congr 2
    funext e
    by_cases here : e.1 = k
    · simp [here, other]
    · simp [here]

theorem erase_eq_self {d : Dict α} {key : Text} (none : d.find? key = none) : d.erase key = d := by
  unfold erase
  congr 1
  rw [find?, Option.map_eq_none_iff, List.find?_eq_none] at none
  exact List.filter_eq_self.mpr fun e mem => by simpa using none e mem

/-- **A dictionary filled with entries has the last one under each key.** -/
theorem find?_ofList (entries : List (Text × α)) (key : Text) :
    (ofList entries).find? key = (entries.reverse.find? fun e => e.1 = key).map (·.2) := by
  have filled : ∀ d : Dict α, (entries.foldl (fun d e => d.insert e.1 e.2) d).find? key =
      ((entries.reverse.find? fun e => e.1 = key).map (·.2)).or (d.find? key) := by
    induction entries with
    | nil => exact fun d => rfl
    | cons e entries ih =>
      intro d
      rw [List.foldl_cons, ih, find?_insert, List.reverse_cons, List.find?_append, Option.map_or,
        Option.or_assoc]
      congr 1
      by_cases here : e.1 = key
      · simp [here]
      · simp [here, Ne.symm here]
  rw [ofList, filled]
  exact Option.or_none

/-- The value under a key is that of its entry. -/
theorem mem_entries_iff {d : Dict α} {key : Text} {value : α} :
    (key, value) ∈ d.entries ↔ d.find? key = some value := by
  obtain ⟨entries, ascending⟩ := d
  rw [find?, Option.map_eq_some_iff]
  constructor
  · intro mem
    refine ⟨(key, value), ?_, rfl⟩
    induction entries with
    | nil => cases mem
    | cons e entries ih =>
      obtain ⟨before, ascending⟩ := List.pairwise_cons.mp ascending
      rcases List.mem_cons.mp mem with rfl | mem
      · exact List.find?_cons_of_pos (by simp)
      · have other : e.1 ≠ key := Std.ne_of_lt (before _ mem)
        rw [List.find?_cons_of_neg (by simpa using other)]
        exact ih ascending mem
  · rintro ⟨e, found, rfl⟩
    have same : e.1 = key := by simpa using List.find?_some found
    exact same ▸ List.mem_of_find?_eq_some found

theorem eq_or_mem_of_insertEntry {key : Text} {value : α} {e : Text × α}
    {entries : List (Text × α)} (mem : e ∈ insertEntry key value entries) :
    e = (key, value) ∨ e ∈ entries := by
  induction entries with
  | nil => exact .inl (List.mem_singleton.mp mem)
  | cons entry rest ih =>
    obtain ⟨k, v⟩ := entry
    rw [insertEntry] at mem
    split at mem
    · exact List.mem_cons.mp mem
    · split at mem
      · exact (List.mem_cons.mp mem).imp id (List.mem_cons_of_mem _)
      · rcases List.mem_cons.mp mem with rfl | mem
        · exact .inr List.mem_cons_self
        · exact (ih mem).imp id (List.mem_cons_of_mem _)

/-- No key is listed twice. -/
theorem nodup_keys (d : Dict α) : d.keys.Nodup := by
  refine List.pairwise_map.mpr (d.ascending.imp ?_)
  intro e e' before
  exact Std.ne_of_lt before

theorem mem_keys_iff {d : Dict α} {key : Text} :
    key ∈ d.keys ↔ ∃ value, d.find? key = some value := by
  simp only [keys, List.mem_map, ← mem_entries_iff]
  constructor
  · rintro ⟨⟨k, value⟩, mem, rfl⟩
    exact ⟨value, mem⟩
  · rintro ⟨value, mem⟩
    exact ⟨(key, value), mem, rfl⟩

/-- Where no key is listed twice, one entry has the key of an entry. -/
theorem filter_of_nodup {κ : Type} [DecidableEq κ] {key : α → κ} {xs : List α}
    (once : (xs.map key).Nodup) {x : α} (mem : x ∈ xs) :
    xs.filter (fun y => key y = key x) = [x] := by
  induction xs with
  | nil => cases mem
  | cons y xs ih =>
    obtain ⟨new, once⟩ := List.nodup_cons.mp once
    rcases List.mem_cons.mp mem with rfl | mem
    · have none : xs.filter (fun y => key y = key x) = [] := by
        rw [List.filter_eq_nil_iff]
        intro z inside same
        exact new (of_decide_eq_true same ▸ List.mem_map_of_mem inside)
      rw [List.filter_cons_of_pos (by simp), none]
    · have other : key y ≠ key x := by
        intro same
        exact new (same ▸ List.mem_map_of_mem mem)
      rw [List.filter_cons_of_neg (by simpa using other), ih once mem]

/-- Two dictionaries with the same values under the same keys are equal. -/
theorem ext_find? {d e : Dict α} (same : ∀ key, d.find? key = e.find? key) : d = e := by
  have once (d : Dict α) : d.entries.Nodup := by
    refine d.ascending.imp ?_
    intro e e' before same
    exact Std.ne_of_lt before (by rw [same])
  have perm : d.entries.Perm e.entries := by
    refine (List.perm_ext_iff_of_nodup (once d) (once e)).mpr fun entry => ?_
    rw [mem_entries_iff, mem_entries_iff, same]
  have equal : d.entries = e.entries := by
    refine perm.eq_of_pairwise ?_ d.ascending e.ascending
    intro a b _ _ before behind
    exact absurd (List.lt_trans before behind) (List.lt_irrefl _)
  cases d
  cases e
  cases equal
  rfl

theorem eq_empty {d : Dict α} (none : d.isEmpty = true) : d = empty := by
  obtain ⟨entries, ascending⟩ := d
  obtain rfl := List.isEmpty_iff.mp none
  rfl

/-- **A dictionary filled from its own keys**, listed in any order, is itself. -/
theorem ofList_keys {d : Dict Bool} {names : List Text} (perm : names.Perm d.keys) :
    ofList (names.map fun name => (name, (d.find? name).getD false)) = d := by
  apply ext_find?
  intro key
  rw [find?_ofList, ← List.map_reverse, List.find?_map, Option.map_map]
  cases first : names.reverse.find? ((fun e => decide (e.1 = key)) ∘
      fun name => (name, (d.find? name).getD false)) with
  | none =>
    rw [List.find?_eq_none] at first
    cases found : d.find? key with
    | none => rfl
    | some value =>
      have listed : key ∈ names := perm.mem_iff.mpr (mem_keys_iff.mpr ⟨value, found⟩)
      exact absurd (decide_eq_true rfl) (first key (List.mem_reverse.mpr listed))
  | some name =>
    obtain rfl : name = key := by simpa using List.find?_some first
    have listed : name ∈ names := List.mem_reverse.mp (List.mem_of_find?_eq_some first)
    obtain ⟨value, found⟩ := mem_keys_iff.mp (perm.mem_iff.mp listed)
    simp [found]

end Dict

end TealAudit
