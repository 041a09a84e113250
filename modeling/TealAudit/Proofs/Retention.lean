import Mathlib.Data.Finset.Card
import TealAudit.Proofs.Sessions

/-!
# What a cache keeps

A request to a cache also changes it: if it misses, the entry of its name is gone. So an answer depends
on all that was done under the name before, and not only on what was set last.

The history of a cache is a list of events, each with the answer if it was a request. A result that was
set **stands** (`Cache.Stands`) if no event since then ends it: no other result was set under the name,
no request for the name missed and not everything was dropped. Nothing in this looks into the cache.

**The invariant** (`Cache.Keeps`) is that the entries of the cache are the results that stand. One event
more ends some results and starts others (`Cache.stands_concat_iff`), and each operation does the same to
the entries (`Keeps.perform`); so the two agree after any operations (`Keeps.history`). The law
(`Cache.history_decides`) tells the next answer and the number of entries from the history alone.
-/

namespace TealAudit

namespace Cache

variable {δ ρ : Type}

/-! ## Histories -/

/-- **An operation on a cache**, with its time if it matters. -/
inductive Operation (ρ : Type) where
  | set (now : Nat) (name content : Text) (result : ρ)
  | get (now : Nat) (name content : Text)
  | invalidateAll

/-- **What is seen of an operation**: what was done, and what the answer was. -/
inductive Event (ρ : Type) where
  | set (now : Nat) (name content : Text) (result : ρ)
  | got (now : Nat) (name content : Text) (answer : Option ρ)
  | invalidated

/-- What is seen of an operation, and the cache after it. -/
def perform [DecidableEq δ] (c : Cache δ ρ) : Operation ρ → Event ρ × Cache δ ρ
  | .set now name content result => (.set now name content result, c.set now name content result)
  | .get now name content =>
    (.got now name content (c.get now name content).1, (c.get now name content).2)
  | .invalidateAll => (.invalidated, c.invalidateAll)

/-- What is seen of operations one after the other, and the cache after them. -/
def history [DecidableEq δ] (c : Cache δ ρ) : List (Operation ρ) → List (Event ρ) × Cache δ ρ
  | [] => ([], c)
  | o :: rest =>
    ((c.perform o).1 :: ((c.perform o).2.history rest).1, ((c.perform o).2.history rest).2)

/-- **Events that leave what is kept under a name**: not a result that is set under it, not a request
for it that misses, and not that everything is dropped. -/
def Event.Leaves (name : Text) : Event ρ → Prop
  | .set _ other _ _ => other ≠ name
  | .got _ asked _ answer => asked = name → answer ≠ none
  | .invalidated => False

/-- **A result that stands** in a history: it was set, and all events since then leave it. -/
def Stands (log : List (Event ρ)) (name : Text) (made : Nat) (content : Text) (result : ρ) : Prop :=
  ∃ before later, log = before ++ .set made name content result :: later ∧
    ∀ event ∈ later, event.Leaves name

section Stands

variable {log before later : List (Event ρ)} {name content content' : Text} {made made' : Nat}
  {result result' : ρ}

theorem not_stands_nil : ¬ Stands ([] : List (Event ρ)) name made content result := by
  rintro ⟨before, later, split, -⟩
  simp at split

/-- **One event more**: what stands then was set by it, or it stood before and is left. -/
theorem stands_concat_iff {event : Event ρ} :
    Stands (log ++ [event]) name made content result ↔
      event = .set made name content result ∨
        Stands log name made content result ∧ event.Leaves name := by
  constructor
  · rintro ⟨before, later, split, leaves⟩
    rcases List.eq_nil_or_concat later with rfl | ⟨later, last, rfl⟩
    · exact .inl (List.head_eq_of_cons_eq (List.append_inj' split rfl).2)
    · rw [List.concat_eq_append, ← List.cons_append, ← List.append_assoc] at split
      obtain ⟨rfl, same⟩ := List.append_inj' split rfl
      cases same
      exact .inr ⟨⟨before, later, rfl, fun e mem => leaves e (by simp [mem])⟩,
        leaves event (by simp)⟩
  · rintro (rfl | ⟨⟨before, later, rfl, leaves⟩, left⟩)
    · exact ⟨log, [], rfl, by simp⟩
    · refine ⟨before, later ++ [event], by simp, ?_⟩
      intro e mem
      rcases List.mem_append.mp mem with mem | mem
      · exact leaves e mem
      · exact List.mem_singleton.mp mem ▸ left

/-- What stands under a name is what was set last under the name. -/
theorem Stands.made_eq (stands : Stands log name made content result)
    (split : log = before ++ .set made' name content' result' :: later)
    (last : ∀ t content result, .set t name content result ∉ later) : made = made' := by
  obtain ⟨before', later', split', leaves⟩ := stands
  rw [split] at split'
  -- Of the two results, neither can be set after the other.
  rcases List.append_eq_append_iff.mp split' with ⟨between, -, same⟩ | ⟨between, -, same⟩
  · cases between with
    | nil => cases same; rfl
    | cons event between =>
      have mem : Event.set made name content result ∈ later := by
        rw [(List.cons.inj same).2]
        simp
      exact absurd mem (last made content result)
  · cases between with
    | nil => cases same; rfl
    | cons event between =>
      have mem : Event.set made' name content' result' ∈ later' := by
        rw [(List.cons.inj same).2]
        simp
      exact absurd rfl (leaves _ mem)

end Stands

/-! ## The invariant -/

/-- **The entries of a cache are the results that stand** in its history. -/
def Keeps (c : Cache δ ρ) (log : List (Event ρ)) : Prop :=
  ∀ name e, c.entries.find? name = some e ↔
    ∃ content, Stands log name e.createdAt content e.result ∧ e.fingerprint = c.fingerprint content

theorem keeps_nil (fingerprint : Text → δ) (maxAge : Int) :
    Keeps ({ fingerprint, maxAge } : Cache δ ρ) [] := by
  intro name e
  simp [Dict.find?, Dict.empty, not_stands_nil]

variable [DecidableEq δ] {c : Cache δ ρ} {log : List (Event ρ)}

/-- An operation leaves what is taken for a fingerprint, and the limit. -/
theorem perform_settings (c : Cache δ ρ) (o : Operation ρ) :
    (c.perform o).2.fingerprint = c.fingerprint ∧ (c.perform o).2.maxAge = c.maxAge := by
  cases o with
  | set now name content result => exact ⟨rfl, rfl⟩
  | invalidateAll => exact ⟨rfl, rfl⟩
  | get now name content =>
    rcases c.get_eq now name content with ⟨e, -, -, eq⟩ | eq
    · simp only [perform, eq, and_self]
    · simp only [perform, eq, drop, and_self]

theorem history_settings (c : Cache δ ρ) (operations : List (Operation ρ)) :
    (c.history operations).2.fingerprint = c.fingerprint ∧
      (c.history operations).2.maxAge = c.maxAge := by
  induction operations generalizing c with
  | nil => exact ⟨rfl, rfl⟩
  | cons o rest ih =>
    obtain ⟨fingerprint, maxAge⟩ := ih (c.perform o).2
    obtain ⟨fingerprint', maxAge'⟩ := c.perform_settings o
    exact ⟨fingerprint.trans fingerprint', maxAge.trans maxAge'⟩

/-- **Each operation does to the entries what its event does to the results that stand.** -/
theorem Keeps.perform (keeps : c.Keeps log) (o : Operation ρ) :
    (c.perform o).2.Keeps (log ++ [(c.perform o).1]) := by
  intro name e
  simp only [stands_concat_iff]
  cases o with
  | invalidateAll => simp [Cache.perform, invalidateAll, Event.Leaves, Dict.find?, Dict.empty]
  | set now other content result =>
    simp only [Cache.perform, Cache.set, Dict.find?_insert]
    by_cases same : name = other
    · subst same
      rw [if_pos rfl, Option.some.injEq]
      constructor
      · rintro rfl
        exact ⟨content, .inl rfl, rfl⟩
      · rintro ⟨content', set | ⟨-, left⟩, fingerprint⟩
        · cases set
          cases e
          cases fingerprint
          rfl
        · exact absurd rfl left
    · rw [if_neg same, keeps name e]
      simp [Event.Leaves, Ne.symm same]
  | get now asked content =>
    rcases c.get_eq now asked content with ⟨e', -, -, eq⟩ | eq
    · simp [Cache.perform, eq, Event.Leaves, keeps name e]
    · simp only [Cache.perform, eq, drop, Dict.find?_erase]
      by_cases same : name = asked
      · simp [Event.Leaves, same]
      · rw [if_neg same, keeps name e]
        simp [Event.Leaves, Ne.symm same]

/-- **After any operations** the entries are the results that stand. -/
theorem Keeps.history (keeps : c.Keeps log) (operations : List (Operation ρ)) :
    (c.history operations).2.Keeps (log ++ (c.history operations).1) := by
  induction operations generalizing c log with
  | nil => simpa [Cache.history] using keeps
  | cons o rest ih =>
    have next := ih (keeps.perform o)
    rwa [List.append_assoc, List.singleton_append] at next

/-! ## Answers -/

theorem serves_iff (c : Cache δ ρ) {e : Entry δ ρ} {now : Nat} {content : Text} :
    c.serves e now content = true ↔ e.fingerprint = c.fingerprint content ∧
      (c.maxAge ≤ 0 ∨ (now : Int) - e.createdAt ≤ c.maxAge) := by
  simp only [serves, Bool.and_eq_true, Bool.not_eq_true', Bool.and_eq_false_iff,
    decide_eq_false_iff_not, Int.not_lt, decide_eq_true_eq]
  exact and_comm

theorem get_eq_some_iff (c : Cache δ ρ) {now : Nat} {name content : Text} {result : ρ} :
    (c.get now name content).1 = some result ↔
      ∃ e, c.entries.find? name = some e ∧ c.serves e now content = true ∧ e.result = result := by
  rw [get]
  cases c.entries.find? name with
  | none => simp
  | some e =>
    by_cases serves : c.serves e now content = true
    · simp [serves]
    · simp [serves]

namespace Keeps

/-- **A request is answered from the results that stand.** -/
theorem get_iff (keeps : c.Keeps log) {now : Nat} {name content : Text} {result : ρ} :
    (c.get now name content).1 = some result ↔
      ∃ (made : Nat) (content' : Text), Stands log name made content' result ∧
        c.fingerprint content' = c.fingerprint content ∧
        (c.maxAge ≤ 0 ∨ (now : Int) - made ≤ c.maxAge) := by
  rw [get_eq_some_iff]
  constructor
  · rintro ⟨e, found, serves, rfl⟩
    obtain ⟨content', stands, fingerprint⟩ := (keeps name e).mp found
    obtain ⟨same, young⟩ := c.serves_iff.mp serves
    exact ⟨e.createdAt, content', stands, fingerprint.symm.trans same, young⟩
  · rintro ⟨made, content', stands, same, young⟩
    refine ⟨⟨c.fingerprint content', result, made⟩, ?_, c.serves_iff.mpr ⟨same, young⟩, rfl⟩
    exact (keeps name _).mpr ⟨content', stands, rfl⟩

omit [DecidableEq δ] in
theorem mem_keys_iff (keeps : c.Keeps log) {name : Text} :
    name ∈ c.entries.keys ↔ ∃ made content result, Stands log name made content result := by
  rw [Dict.mem_keys_iff]
  constructor
  · rintro ⟨e, found⟩
    obtain ⟨content, stands, -⟩ := (keeps name e).mp found
    exact ⟨e.createdAt, content, e.result, stands⟩
  · rintro ⟨made, content, result, stands⟩
    exact ⟨⟨c.fingerprint content, result, made⟩, (keeps name _).mpr ⟨content, stands, rfl⟩⟩

/-- **To ask for a result does not make it younger**: from the time at which it is too old, a request
misses, whatever was asked before. -/
theorem get_of_old (keeps : c.Keeps log) {before later : List (Event ρ)} {name content : Text}
    {made : Nat} {result : ρ} (split : log = before ++ .set made name content result :: later)
    (last : ∀ t content result, .set t name content result ∉ later) {now : Nat} {content' : Text}
    (limited : 0 < c.maxAge) (old : c.maxAge < (now : Int) - made) :
    (c.get now name content').1 = none := by
  rw [Option.eq_none_iff_forall_ne_some]
  intro result' hit
  obtain ⟨made', content'', stands, -, young⟩ := keeps.get_iff.mp hit
  have same := stands.made_eq split last
  omega

end Keeps

/-- **The history of a cache decides its answers.** Take any operations on a new cache.

* A request gives out a result exactly if the result stands under the name, was made from a content with
  the same fingerprint, and is not too old.
* The cache has one entry for each name under which a result stands.
* A result that is too old is not given out whatever was asked since it was made: to ask for a result
  does not make it younger.

The times of the operations need not ascend. -/
theorem history_decides (fingerprint : Text → δ) (maxAge : Int) (operations : List (Operation ρ)) :
    let new : Cache δ ρ := { fingerprint, maxAge }
    let log := (new.history operations).1
    let c := (new.history operations).2
    (∀ (now : Nat) name content result, (c.get now name content).1 = some result ↔
      ∃ (made : Nat) (content' : Text), Stands log name made content' result ∧
        fingerprint content' = fingerprint content ∧
        (maxAge ≤ 0 ∨ (now : Int) - made ≤ maxAge)) ∧
    (∃ names : Finset Text, c.size = names.card ∧
      ∀ name, name ∈ names ↔ ∃ made content result, Stands log name made content result) ∧
    ∀ before later name (made : Nat) content result,
      log = before ++ .set made name content result :: later →
      (∀ t content result, .set t name content result ∉ later) →
      ∀ (now : Nat) content', 0 < maxAge → maxAge < (now : Int) - made →
        (c.get now name content').1 = none := by
  intro new log c
  have keeps : c.Keeps log := (keeps_nil fingerprint maxAge).history operations
  have fingerprints : c.fingerprint = fingerprint := (new.history_settings operations).1
  have limit : c.maxAge = maxAge := (new.history_settings operations).2
  refine ⟨?_, ⟨⟨c.entries.keys, c.entries.nodup_keys⟩, ?_, ?_⟩, ?_⟩
  · intro now name content result
    rw [keeps.get_iff, fingerprints, limit]
  · exact (List.length_map _).symm
  · intro name
    exact keeps.mem_keys_iff
  · intro before later name made content result split last now content' limited old
    exact keeps.get_of_old split last (by rwa [limit]) (by rwa [limit])

/-- A result that was asked for at its last moment is given out then, and is too old a moment later. -/
theorem history_decides_expired :
    let new : Cache Text Nat := { fingerprint := id, maxAge := 10 }
    let c := (new.history [.set 5 "a" "int 1" 7, .get 9 "a" "int 1", .get 15 "a" "int 1"]).2
    (c.get 15 "a" "int 1").1 = some 7 ∧ (c.get 16 "a" "int 1").1 = none ∧ c.size = 1 := by
  intro new c
  let later : List (Event Nat) := [.got 9 "a" "int 1" (some 7), .got 15 "a" "int 1" (some 7)]
  have log : (new.history
      [.set 5 "a" "int 1" 7, .get 9 "a" "int 1", .get 15 "a" "int 1"]).1 =
      [] ++ .set 5 "a" "int 1" 7 :: later := by
    rfl
  have stands : ∀ event ∈ later, event.Leaves "a" := by simp [later, Event.Leaves]
  obtain ⟨hits, -, old⟩ := history_decides id 10
    [.set 5 "a" "int 1" 7, .get 9 "a" "int 1", .get 15 "a" "int 1"]
  refine ⟨?_, ?_, rfl⟩
  · exact (hits 15 "a" "int 1" 7).mpr
      ⟨5, "int 1", ⟨[], later, log, stands⟩, rfl, .inr (by decide)⟩
  · exact old [] later "a" 5 "int 1" 7 log (by simp [later]) 16 "int 1" (by decide) (by decide)

end Cache

end TealAudit
