import Mathlib.Order.Lattice
import Mathlib.Order.Defs.LinearOrder

/-- What a cache holds under a key: a value that is fresh for a time, and afterwards stale for a time. -/
structure Expiring.Entry (α τ : Type) where
  value : α
  freshUntil : τ
  staleUntil : τ

/-- A cache whose entries expire; an expired entry stays until it is overwritten. -/
def Expiring (κ α τ : Type) : Type := κ → Option (Expiring.Entry α τ)

namespace Expiring

variable {κ α τ : Type}

def empty : Expiring κ α τ := fun _ => none

section Order

variable [LinearOrder τ]

def getFresh (c : Expiring κ α τ) (key : κ) (now : τ) : Option α :=
  match c key with
  | none => none
  | some entry => if entry.freshUntil < now then none else some entry.value

def getStale (c : Expiring κ α τ) (key : κ) (now : τ) : Option α :=
  match c key with
  | none => none
  | some entry => if entry.staleUntil < now then none else some entry.value

variable {c : Expiring κ α τ} {key : κ} {now : τ} {value : α}

theorem getFresh_some (found : c.getFresh key now = some value) :
    ∃ entry, c key = some entry ∧ entry.value = value ∧ now ≤ entry.freshUntil := by
  unfold getFresh at found
  split at found
  · cases found
  · rename_i entry there
    split at found
    · cases found
    · rename_i fresh
      exact ⟨entry, there, Option.some.inj found, not_lt.mp fresh⟩

theorem getStale_some (found : c.getStale key now = some value) :
    ∃ entry, c key = some entry ∧ entry.value = value ∧ now ≤ entry.staleUntil := by
  unfold getStale at found
  split at found
  · cases found
  · rename_i entry there
    split at found
    · cases found
    · rename_i stale
      exact ⟨entry, there, Option.some.inj found, not_lt.mp stale⟩

end Order

variable [DecidableEq κ]

def set (c : Expiring κ α τ) (key : κ) (entry : Entry α τ) : Expiring κ α τ :=
  fun other => if other = key then some entry else c other

/-- An entry of the cache afterwards is the new one, or it was there before. -/
theorem set_some {c : Expiring κ α τ} {key other : κ} {entry found : Entry α τ} (there : c.set key entry other = some found) :
    (other = key ∧ found = entry) ∨ c other = some found := by
  unfold set at there
  split at there
  · rename_i same
    exact Or.inl ⟨same, (Option.some.inj there).symm⟩
  · exact Or.inr there

end Expiring
