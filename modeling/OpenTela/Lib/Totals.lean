import OpenTela.Lib.Batch
import Mathlib.Algebra.BigOperators.Group.List.Basic
import Mathlib.Algebra.Group.Basic

theorem List.sum_filterMap {α β M : Type} [AddMonoid M] (f : α → Option β) (w : β → M) (l : List α) :
    ((l.filterMap f).map w).sum = (l.map (fun a => (f a).elim 0 w)).sum := by
  induction l with
  | nil => rfl
  | cons a rest ih =>
    rw [List.filterMap_cons, List.map_cons, List.sum_cons, ← ih]
    cases f a <;> simp

/-- The items of a list, grouped by key, are the items of the list. -/
theorem List.groups_perm {α κ : Type} [DecidableEq κ] (key : α → κ) {keys : List κ} (nodup : keys.Nodup) {l : List α}
    (covered : ∀ a ∈ l, key a ∈ keys) : (keys.flatMap (fun k => l.filter (key · = k))).Perm l := by
  induction keys generalizing l with
  | nil =>
    obtain rfl : l = [] := List.eq_nil_iff_forall_not_mem.mpr (fun a member => absurd (covered a member) List.not_mem_nil)
    exact .refl _
  | cons k rest ih =>
    obtain ⟨apart, nodup⟩ := List.nodup_cons.mp nodup
    have others : rest.flatMap (fun k' => l.filter (key · = k')) =
        rest.flatMap (fun k' => (l.filter (fun a => !decide (key a = k))).filter (key · = k')) := by
      refine List.flatMap_congr (fun k' member => ?_)
      rw [List.filter_filter]
      refine List.filter_congr (fun a _ => ?_)
      by_cases here : key a = k'
      · have other : key a ≠ k := fun same => apart (same ▸ here ▸ member)
        simp [here, here ▸ other]
      · simp [here]
    have covers : ∀ a ∈ l.filter (fun a => !decide (key a = k)), key a ∈ rest := by
      intro a member
      obtain ⟨inside, other⟩ := List.mem_filter.mp member
      rcases List.mem_cons.mp (covered a inside) with same | later
      · simp [same] at other
      · exact later
    rw [List.flatMap_cons, others]
    exact ((ih nodup covers).append_left _).trans (List.filter_append_perm _ l)

namespace Store

variable {K V M : Type} [AddCommGroup M]

/-- What the values of a store come to. -/
def total (w : V → M) (s : Store K V) : M := (s.entries.map (fun e => w e.2)).sum

@[simp] theorem total_empty (w : V → M) : total w (∅ : Store K V) = 0 := rfl

variable [DecidableEq K]

/-- What the value of one key adds to it. -/
def weight (w : V → M) (s : Store K V) (key : K) : M := (s.lookup key).elim 0 w

theorem sum_kerase (w : V → M) (key : K) (l : List (Σ _ : K, V)) :
    (l.map (fun e => w e.2)).sum = (l.dlookup key).elim 0 w + ((l.kerase key).map (fun e => w e.2)).sum := by
  induction l with
  | nil => simp
  | cons e rest ih =>
    by_cases same : key = e.1
    · subst same
      rw [List.dlookup_cons_eq, List.kerase_cons_eq rfl]
      simp
    · rw [List.dlookup_cons_ne rest e same, List.kerase_cons_ne same, List.map_cons, List.sum_cons, List.map_cons, List.sum_cons, ih,
        add_left_comm]

/-- A value that is put in takes the place of the one before. -/
theorem total_insert (w : V → M) (s : Store K V) (key : K) (value : V) :
    total w (AList.insert key value s) = w value + (total w s - weight w s key) := by
  have old := sum_kerase w key s.entries
  have new : total w (AList.insert key value s) = w value + ((s.entries.kerase key).map (fun e => w e.2)).sum := by
    rw [total, AList.entries_insert, List.map_cons, List.sum_cons]
  rw [new, total, old]
  exact congrArg (w value + ·) (add_sub_cancel_left _ _).symm

end Store
