import Mathlib.Data.List.Nodup
import TealAudit.Engine

/-!
# Registries after offers

A registry takes detectors one by one and may refuse them. It answers from two sides: in order, from its
list of registrations, and by name, from the places it keeps for names. `Registry.placed` holds the two
together, so that each can be told from the other: a look-up by name finds exactly what the list has
under the name (`Registry.find?_eq_some_iff`), and no name is listed twice (`Registry.nodup_names`).

One offer is taken or refused (`Registry.register_eq_ok`, `register_eq_error_iff`), and what is taken
goes behind the others. **After any offers** the list is that of the offers taken
(`Registry.registrations_afterAll`). The law (`Registry.ordered_set`) reads all answers of the registry
off the offers that were taken, and says for which offers that is. An engine that works with such a
registry runs a detector for each descriptor that is listed and not left out.
-/

namespace TealAudit

/-- **An offer** to a registry: a descriptor, with a detector unless there is none. -/
structure Offer where
  descriptor : Descriptor
  detector : Option Detector

/-- The offer that leads to a registration. -/
def Registration.offer (e : Registration) : Offer := ⟨e.descriptor, some e.detector⟩

namespace Registry

/-- The registry after an offer: with it if it is taken, and as it was if it is refused. -/
def after (r : Registry) (o : Offer) : Registry :=
  match r.register o.descriptor o.detector with
  | .ok r' => r'
  | .error _ => r

/-- The registry after offers. -/
def afterAll (r : Registry) (offers : List Offer) : Registry := offers.foldl after r

/-- The offers that are taken, in order. -/
def taken (r : Registry) : List Offer → List Offer
  | [] => []
  | o :: rest =>
    match r.register o.descriptor o.detector with
    | .ok r' => o :: r'.taken rest
    | .error _ => r.taken rest

variable {r r' : Registry} {name : Text} {o : Offer}

/-! ## The two sides of a registry -/

/-- **What is found by name is what is listed under the name.** -/
theorem find?_eq_some_iff {e : Registration} :
    r.find? name = some e ↔ e ∈ r.registrations ∧ e.name = name := by
  constructor
  · intro found
    obtain ⟨i, place, here⟩ := Option.bind_eq_some_iff.mp found
    have named := (r.placed name i).mp place
    rw [here] at named
    exact ⟨List.mem_of_getElem? here, Option.some.inj named⟩
  · rintro ⟨listed, rfl⟩
    obtain ⟨i, here⟩ := List.mem_iff_getElem?.mp listed
    have place := (r.placed e.name i).mpr (by rw [here]; rfl)
    rw [find?, place]
    exact here

/-- **No name is listed twice**, for a name has one place. -/
theorem nodup_names (r : Registry) : (r.registrations.map Registration.name).Nodup := by
  rw [List.nodup_iff_getElem?_ne_getElem?]
  intro i j before within same
  obtain ⟨name, here⟩ : ∃ name, (r.registrations.map Registration.name)[j]? = some name :=
    ⟨_, List.getElem?_eq_getElem within⟩
  rw [here, List.getElem?_map] at same
  rw [List.getElem?_map] at here
  have first := (r.placed name i).mpr same
  have second := (r.placed name j).mpr here
  rw [first] at second
  exact absurd (Option.some.inj second) (Nat.ne_of_lt before)

theorem isSome_places_iff :
    (r.places.find? name).isSome = true ↔ ∃ e ∈ r.registrations, e.name = name := by
  constructor
  · intro some
    obtain ⟨i, place⟩ := Option.isSome_iff_exists.mp some
    obtain ⟨e, here, named⟩ := Option.map_eq_some_iff.mp ((r.placed name i).mp place)
    exact ⟨e, List.mem_of_getElem? here, named⟩
  · rintro ⟨e, listed, rfl⟩
    obtain ⟨i, here⟩ := List.mem_iff_getElem?.mp listed
    rw [(r.placed e.name i).mpr (by rw [here]; rfl)]
    rfl

theorem descriptor?_eq_some_iff {d : Descriptor} :
    r.descriptor? name = some d ↔ d ∈ r.descriptors ∧ d.name = name := by
  simp only [descriptor?, Option.map_eq_some_iff, find?_eq_some_iff, descriptors, List.mem_map]
  constructor
  · rintro ⟨e, ⟨listed, named⟩, rfl⟩
    exact ⟨⟨e, listed, rfl⟩, named⟩
  · rintro ⟨⟨e, listed, rfl⟩, named⟩
    exact ⟨e, ⟨listed, named⟩, rfl⟩

theorem detector?_eq_some_iff {x : Detector} :
    r.detector? name = some x ↔ ∃ e ∈ r.registrations, e.name = name ∧ e.detector = x := by
  simp only [detector?, Option.map_eq_some_iff, find?_eq_some_iff, and_assoc]

theorem isSome_detector?_iff :
    (r.detector? name).isSome = true ↔ name ∈ r.descriptors.map (·.name) := by
  simp only [Option.isSome_iff_exists, detector?_eq_some_iff, descriptors, List.mem_map]
  constructor
  · rintro ⟨x, e, listed, named, -⟩
    exact ⟨e.descriptor, ⟨e, listed, rfl⟩, named⟩
  · rintro ⟨d, ⟨e, listed, rfl⟩, named⟩
    exact ⟨e.detector, e, listed, named, rfl⟩

/-! ## One offer -/

/-- **An offer that is taken** is complete, and goes behind the others. -/
theorem register_eq_ok (accepted : r.register o.descriptor o.detector = .ok r') :
    ∃ e, e.offer = o ∧ r'.registrations = r.registrations ++ [e] := by
  obtain ⟨d, detector⟩ := o
  simp only [register] at accepted
  split_ifs at accepted with nameless bare
  cases detector with
  | none => cases accepted
  | some detector =>
    simp only at accepted
    split at accepted
    · cases accepted
    · cases accepted
      exact ⟨⟨d, detector⟩, rfl, rfl⟩

/-- **An offer is refused** for want of a name, a description or a detector, or if its name is listed. -/
theorem register_eq_error_iff (r : Registry) (o : Offer) :
    (∃ fault, r.register o.descriptor o.detector = .error fault) ↔
      o.descriptor.name = [] ∨ o.descriptor.description = [] ∨ o.detector = none ∨
      ∃ e ∈ r.registrations, e.name = o.descriptor.name := by
  obtain ⟨d, detector⟩ := o
  rw [← isSome_places_iff]
  simp only [register, List.isEmpty_iff]
  by_cases nameless : d.name = []
  · simp [nameless]
  · by_cases bare : d.description = []
    · simp [nameless, bare]
    · cases detector with
      | none => simp [nameless, bare]
      | some detector =>
        simp only [nameless, bare, if_false]
        split
        · next place => simp [place]
        · next free => simp [free]

/-! ## Offers one after the other -/

/-- **The list is that of the offers taken**, behind what was listed before. -/
theorem registrations_afterAll (r : Registry) (offers : List Offer) :
    (r.afterAll offers).registrations.map Registration.offer =
      r.registrations.map Registration.offer ++ r.taken offers := by
  induction offers generalizing r with
  | nil => exact (List.append_nil _).symm
  | cons o rest ih =>
    rw [afterAll, List.foldl_cons, ← afterAll, ih, taken, after]
    cases answer : r.register o.descriptor o.detector with
    | error fault => rfl
    | ok r' =>
      obtain ⟨e, rfl, listed⟩ := register_eq_ok answer
      simp only [listed, List.map_append, List.map_singleton, List.append_assoc,
        List.singleton_append]

/-- What a new registry lists is what it took. -/
theorem registrations_new (offers : List Offer) :
    (({} : Registry).afterAll offers).registrations.map Registration.offer =
      ({} : Registry).taken offers := by
  rw [registrations_afterAll, List.map_nil, List.nil_append]

/-- The last offer comes to the registry that the others leave. -/
theorem afterAll_concat (r : Registry) (offers : List Offer) (o : Offer) :
    r.afterAll (offers ++ [o]) = (r.afterAll offers).after o := by
  rw [afterAll, List.foldl_append]
  rfl

theorem after_of_error {fault : RegistrationError}
    (refused : r.register o.descriptor o.detector = .error fault) : r.after o = r := by
  rw [after, refused]

end Registry

/-! ## Engines -/

namespace Engine

variable (e : Engine)

theorem mem_enabled {d : Descriptor} :
    d ∈ e.enabled ↔ d ∈ e.registry.descriptors ∧ d.name ∉ e.ignored := by
  simp [enabled, List.mem_filter]

/-- **No descriptor that is listed is unknown.** -/
theorem isSome_detector? {d : Descriptor} (listed : d ∈ e.registry.descriptors) :
    (e.detector? d.name).isSome = true := by
  have known : (e.registry.detector? d.name).isSome = true :=
    Registry.isSome_detector?_iff.mpr (List.mem_map.mpr ⟨d, listed, rfl⟩)
  rw [detector?]
  cases e.overrides.find? d.name with
  | some x => rfl
  | none => exact known

/-- Unless it is overridden, the detector of a descriptor is the one that is registered with it. -/
theorem exists_registration {d : Descriptor} (listed : d ∈ e.registry.descriptors)
    (plain : e.overrides.find? d.name = none) :
    ∃ entry ∈ e.registry.registrations,
      entry.descriptor = d ∧ e.detector? d.name = some entry.detector := by
  obtain ⟨entry, here, rfl⟩ := List.mem_map.mp listed
  refine ⟨entry, here, rfl, ?_⟩
  rw [detector?, plain]
  exact Registry.detector?_eq_some_iff.mpr ⟨entry, here, rfl, rfl⟩

/-- **An engine runs a detector for each descriptor that is not left out**, in their order. -/
theorem exists_running : ∃ running : List Detector,
    e.enabled.map (fun d => e.detector? d.name) = running.map some ∧
    ∀ p file, e.detect p file = running.flatMap fun x => x.detect p file := by
  refine ⟨e.enabled.filterMap fun d => e.detector? d.name, ?_, fun _ _ => rfl⟩
  have known : ∀ d ∈ e.enabled, (e.detector? d.name).isSome = true :=
    fun d mem => e.isSome_detector? ((e.mem_enabled).mp mem).1
  generalize e.enabled = ds at known
  induction ds with
  | nil => rfl
  | cons d ds ih =>
    obtain ⟨first, later⟩ := List.forall_mem_cons.mp known
    obtain ⟨x, found⟩ := Option.isSome_iff_exists.mp first
    simp only [List.map_cons, List.filterMap_cons, found, ih later]

end Engine

namespace Registry

/-- **A registry is an ordered set of the offers that it takes.** Take any offers to a new registry.

* The next offer is refused exactly if it has no name, no description or no detector, or if an offer of
  the same name was taken before; and then the registry stays as it is.
* The descriptors are those of the offers taken, in order, and no two have the same name.
* A look-up by name finds the descriptor that is listed under the name and no other. It finds a detector
  for the names that are listed and no others, and this is the detector that was offered under the name.
* There are as many detectors as descriptors, and each is the one of the offer at its place.
* An engine with this registry has a detector for every descriptor that is not left out, and runs them
  all: the one that was offered, unless it is overridden. -/
theorem ordered_set (offers : List Offer) :
    let r := ({} : Registry).afterAll offers
    let taken := ({} : Registry).taken offers
    (∀ o : Offer,
      ((∃ fault, r.register o.descriptor o.detector = .error fault) ↔
        o.descriptor.name = [] ∨ o.descriptor.description = [] ∨ o.detector = none ∨
        ∃ o' ∈ taken, o'.descriptor.name = o.descriptor.name) ∧
      ∀ fault, r.register o.descriptor o.detector = .error fault →
        ({} : Registry).afterAll (offers ++ [o]) = r) ∧
    r.descriptors = taken.map (·.descriptor) ∧
    (r.descriptors.map (·.name)).Nodup ∧
    (∀ name d, r.descriptor? name = some d ↔ d ∈ r.descriptors ∧ d.name = name) ∧
    (∀ name, (r.detector? name).isSome = true ↔ name ∈ r.descriptors.map (·.name)) ∧
    (∀ name x, r.detector? name = some x ↔
      ∃ o ∈ taken, o.descriptor.name = name ∧ o.detector = some x) ∧
    r.detectors.length = r.descriptors.length ∧
    r.detectors.map some = taken.map (·.detector) ∧
    ∀ e : Engine, e.registry = r → ∃ running : List Detector,
      e.enabled.map (fun d => e.detector? d.name) = running.map some ∧
      (∀ p file, e.detect p file = running.flatMap fun x => x.detect p file) ∧
      ∀ d ∈ e.enabled, e.overrides.find? d.name = none →
        ∃ o ∈ taken, o.descriptor = d ∧ e.detector? d.name = o.detector := by
  intro r taken
  have listed : r.registrations.map Registration.offer = taken := registrations_new offers
  have descriptors : r.descriptors = taken.map (·.descriptor) := by
    rw [← listed, List.map_map]
    rfl
  refine ⟨?_, descriptors, ?_, ?_, ?_, ?_, ?_, ?_, ?_⟩
  · intro o
    constructor
    · simp only [register_eq_error_iff, ← listed, List.mem_map, exists_exists_and_eq_and]
      rfl
    · intro fault refused
      rw [afterAll_concat]
      exact after_of_error refused
  · have names := r.nodup_names
    rwa [Registry.descriptors, List.map_map]
  · intro name d
    exact descriptor?_eq_some_iff
  · intro name
    exact isSome_detector?_iff
  · intro name x
    simp only [detector?_eq_some_iff, ← listed, List.mem_map, exists_exists_and_eq_and,
      Registration.offer, Option.some.injEq]
    rfl
  · rw [detectors, Registry.descriptors, List.length_map, List.length_map]
  · rw [← listed, detectors, List.map_map, List.map_map]
    rfl
  · intro e registry
    obtain ⟨running, runs, detects⟩ := e.exists_running
    refine ⟨running, runs, detects, ?_⟩
    intro d enabled plain
    obtain ⟨entry, here, descriptor, detector⟩ :=
      e.exists_registration ((e.mem_enabled).mp enabled).1 plain
    rw [registry] at here
    exact ⟨entry.offer, listed ▸ List.mem_map_of_mem here, descriptor, detector⟩

/-- An offer without a name and two of the same name leave one detector, which an engine runs; to offer
it once more is in vain. -/
theorem ordered_set_repeated :
    let dead : Offer := ⟨Detector.DeadCode.descriptor, some .deadCode⟩
    let nameless : Offer := ⟨{ dead.descriptor with name := [] }, some .deadCode⟩
    let r := ({} : Registry).afterAll [dead, nameless, dead]
    (∃ fault, r.register dead.descriptor dead.detector = .error fault) ∧
    ({} : Registry).afterAll [dead, nameless, dead, dead] = r ∧
    r.descriptors = [dead.descriptor] ∧
    ∀ p file, ({ registry := r } : Engine).detect p file = Detector.deadCode.detect p file := by
  intro dead nameless r
  have taken : ({} : Registry).taken [dead, nameless, dead] = [dead] := rfl
  have law := ordered_set [dead, nameless, dead]
  rw [taken] at law
  obtain ⟨next, descriptors, -, -, -, -, -, -, runs⟩ := law
  obtain ⟨fault, refused⟩ := (next dead).1.mpr
    (.inr (.inr (.inr ⟨dead, List.mem_singleton_self dead, rfl⟩)))
  obtain ⟨running, found, detects, -⟩ := runs { registry := r } rfl
  have one : running = [.deadCode] :=
    List.map_injective_iff.mpr (fun _ _ => Option.some.inj) found.symm
  refine ⟨⟨fault, refused⟩, (next dead).2 fault refused, descriptors, ?_⟩
  intro p file
  rw [detects, one, List.flatMap_singleton]

end Registry

end TealAudit
