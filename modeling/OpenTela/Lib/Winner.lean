import Mathlib.Order.Bounds.Basic
import Mathlib.Order.Lattice
import Mathlib.Order.WithBot

/-- The winner of a set of ranks: its greatest member, or nothing when the set is empty. -/
def Winner {R : Type*} [LinearOrder R] (S : Set R) : Option R → Prop
  | none => S = ∅
  | some r => IsGreatest S r

/-- The incumbent after one more contender has been compared with it. -/
def challenge {R : Type*} [LinearOrder R] (incumbent : Option R) (r : R) : Option R :=
  some (incumbent.elim r (max · r))

namespace Winner

variable {R : Type*} [LinearOrder R] {S T : Set R} {w w' : Option R} {r : R}

theorem unique (first : Winner S w) (second : Winner S w') : w = w' := by
  cases w with
  | none =>
    cases w' with
    | none => rfl
    | some r => exact absurd second.1 (by rw [show S = ∅ from first]; exact id)
  | some q =>
    cases w' with
    | none => exact absurd first.1 (by rw [show S = ∅ from second]; exact id)
    | some r => rw [IsGreatest.unique first second]

theorem isSome_of_mem (winner : Winner S w) (member : r ∈ S) : ∃ q, w = some q ∧ r ≤ q := by
  cases w with
  | none => exact absurd member (by rw [show S = ∅ from winner]; exact id)
  | some q => exact ⟨q, rfl, winner.2 member⟩

theorem insert (winner : Winner S w) (r : R) : Winner (insert r S) (challenge w r) := by
  cases w with
  | none =>
    rw [show S = ∅ from winner, insert_empty_eq]
    exact isGreatest_singleton
  | some q =>
    have top : IsGreatest (Insert.insert r S) (max r q) := IsGreatest.insert r winner
    rw [max_comm] at top
    exact top

end Winner

/-- An incumbent at least as high as the contender stays. -/
theorem challenge_of_le {R : Type*} [LinearOrder R] {q r : R} (above : r ≤ q) :
    challenge (some q) r = some q := by
  simp only [challenge, Option.elim, max_eq_left above]

theorem challenge_of_lt {R : Type*} [LinearOrder R] {incumbent : Option R} {r : R}
    (below : ∀ q, incumbent = some q → q < r) : challenge incumbent r = some r := by
  cases incumbent with
  | none => rfl
  | some q => simp only [challenge, Option.elim, max_eq_right (below q rfl).le]
