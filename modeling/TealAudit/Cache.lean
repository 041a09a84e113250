import TealAudit.Dict

/-!
# Caches of results

The last result for each name, kept together with a fingerprint of the content it was made from and
the time at which it was made. A result is given out for the same fingerprint only, and only while it
is young enough; asking for it does not make it younger. A request that is not served drops the entry
of its name.
-/

namespace TealAudit

/-- What is kept under a name. -/
structure Cache.Entry (δ ρ : Type) where
  fingerprint : δ
  result : ρ
  createdAt : Nat
deriving DecidableEq, Repr

/-- **A cache** of results of type `ρ`. -/
structure Cache (δ ρ : Type) where
  /-- What stands for a content; contents with one fingerprint are taken to be the same. -/
  fingerprint : Text → δ
  /-- How old a result may get; there is no limit unless it is positive. -/
  maxAge : Int
  entries : Dict (Cache.Entry δ ρ) := .empty

namespace Cache

variable {δ ρ : Type}

/-- The cache with a result made at the time `now`. -/
def set (c : Cache δ ρ) (now : Nat) (name content : Text) (result : ρ) : Cache δ ρ :=
  { c with entries := c.entries.insert name ⟨c.fingerprint content, result, now⟩ }

/-- Whether an entry may serve a request for a content at the time `now`. -/
def serves [DecidableEq δ] (c : Cache δ ρ) (e : Entry δ ρ) (now : Nat) (content : Text) : Bool :=
  !(0 < c.maxAge && c.maxAge < (now : Int) - e.createdAt) && e.fingerprint = c.fingerprint content

/-- **A request at the time `now`**: the result, if there is one to give out, and the cache after it. -/
def get [DecidableEq δ] (c : Cache δ ρ) (now : Nat) (name content : Text) : Option ρ × Cache δ ρ :=
  match c.entries.find? name with
  | none => (none, c)
  | some e =>
    if c.serves e now content then (some e.result, c)
    else (none, { c with entries := c.entries.erase name })

/-- The cache with all entries dropped. -/
def invalidateAll (c : Cache δ ρ) : Cache δ ρ := { c with entries := .empty }

/-- The number of entries. -/
def size (c : Cache δ ρ) : Nat := c.entries.entries.length

end Cache

end TealAudit
