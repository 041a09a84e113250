import TealAudit.Detector.DeadCode
import TealAudit.Detector.HighComplexity
import TealAudit.Dict
import TealAudit.Text.Quoted

/-!
# Registries of detectors

Detectors in the order in which they were registered, each under a name of its own. A registry keeps
the place of each name among its registrations, so that a look-up need not go through them. The name
under which a detector is registered may differ from the one in its own descriptor.
-/

namespace TealAudit

/-- Why a detector is not registered. -/
inductive RegistrationFault where
  | noName
  | noDescription
  | noDetector
  | repeated
deriving DecidableEq, Repr

/-- What a fault says. -/
def RegistrationFault.message : RegistrationFault → Text
  | noName => "name is not set"
  | noDescription => "description is not set"
  | noDetector => "constructor is nil"
  | repeated => "registered twice"

/-- A registration that is refused: under which name, and why. -/
structure RegistrationError where
  detector : Text
  fault : RegistrationFault
deriving DecidableEq, Repr

/-- A refused registration in words; without a name, the detector is not named. -/
def RegistrationError.message (e : RegistrationError) : Text :=
  if e.detector.isEmpty then "detector configuration: " ++ e.fault.message
  else "detector " ++ Text.quote e.detector ++ " configuration: " ++ e.fault.message

/-- A detector with the descriptor under which it is registered. -/
structure Registration where
  descriptor : Descriptor
  detector : Detector

/-- The name of a registration. -/
def Registration.name (e : Registration) : Text := e.descriptor.name

/-- Where nothing is registered, no name has a place. -/
theorem Registry.placed_nil (name : Text) (i : Nat) : (Dict.empty : Dict Nat).find? name = some i ↔
    ([] : List Registration)[i]?.map Registration.name = some name := by
  simp [Dict.find?, Dict.empty]

/-- **A registry**: registrations in order, and the place of each name among them. -/
structure Registry where
  registrations : List Registration := []
  places : Dict Nat := .empty
  /-- A name has a place exactly if the registration at this place is under the name. -/
  placed : ∀ name i, places.find? name = some i ↔
    registrations[i]?.map Registration.name = some name := by
      exact Registry.placed_nil

namespace Registry

/-- A new registration stands behind the others, and its name gets this place. -/
theorem placed_concat {registrations : List Registration} {places : Dict Nat} {e : Registration}
    (placed : ∀ name i, places.find? name = some i ↔
      registrations[i]?.map Registration.name = some name)
    (free : places.find? e.name = none) (name : Text) (i : Nat) :
    (places.insert e.name registrations.length).find? name = some i ↔
      (registrations ++ [e])[i]?.map Registration.name = some name := by
  rw [Dict.find?_insert, List.getElem?_append]
  split
  · next same =>
    subst same
    split
    · next before =>
      -- At the places before, the name would not have been free.
      rw [← placed, free]
      simp [Nat.ne_of_gt before]
    · next behind =>
      constructor
      · intro here
        cases here
        simp
      · intro found
        rw [Option.map_eq_some_iff] at found
        obtain ⟨e', found, -⟩ := found
        have within := (List.getElem?_eq_some_iff.mp found).1
        rw [List.length_singleton] at within
        rw [Option.some.injEq]
        omega
  · next other =>
    rw [placed]
    split
    · exact Iff.rfl
    · next behind =>
      rw [List.getElem?_eq_none (Nat.not_lt.mp behind)]
      cases i - registrations.length with
      | zero => simp [Ne.symm other]
      | succ k => simp

/-- The registry with a registration under a name that is free. -/
def add (r : Registry) (e : Registration) (free : r.places.find? e.name = none) : Registry :=
  ⟨r.registrations ++ [e], r.places.insert e.name r.registrations.length,
    placed_concat r.placed free⟩

/-- The registration under a name. -/
def find? (r : Registry) (name : Text) : Option Registration :=
  (r.places.find? name).bind fun i => r.registrations[i]?

theorem mem_of_find? {r : Registry} {name : Text} {e : Registration} (found : r.find? name = some e) :
    e ∈ r.registrations := by
  obtain ⟨i, -, here⟩ := Option.bind_eq_some_iff.mp found
  exact List.mem_of_getElem? here

/-- The registry with one more detector. -/
def register (r : Registry) (d : Descriptor) (detector : Option Detector) :
    Except RegistrationError Registry :=
  if d.name.isEmpty then .error ⟨[], .noName⟩
  else if d.description.isEmpty then .error ⟨d.name, .noDescription⟩
  else match detector with
    | none => .error ⟨d.name, .noDetector⟩
    | some detector =>
      match free : r.places.find? d.name with
      | some _ => .error ⟨d.name, .repeated⟩
      | none => .ok (r.add ⟨d, detector⟩ free)

/-- The descriptors in order. -/
def descriptors (r : Registry) : List Descriptor := r.registrations.map (·.descriptor)

/-- The descriptor under a name. -/
def descriptor? (r : Registry) (name : Text) : Option Descriptor := (r.find? name).map (·.descriptor)

/-- The detector under a name. -/
def detector? (r : Registry) (name : Text) : Option Detector := (r.find? name).map (·.detector)

/-- The detectors in order. -/
def detectors (r : Registry) : List Detector := r.registrations.map (·.detector)

/-- **The registry of the detectors that come with the library.** -/
def builtin : Registry :=
  let dead : Registry := ({} : Registry).add ⟨Detector.DeadCode.descriptor, .deadCode⟩ rfl
  dead.add ⟨Detector.HighComplexity.descriptor,
    .highComplexity Detector.HighComplexity.defaultThreshold⟩ (by decide +kernel)

end Registry

end TealAudit
