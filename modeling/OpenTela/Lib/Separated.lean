import Mathlib.Data.List.Basic

/-- Texts that are joined by a separator can be told apart up to the first one that contains it. -/
theorem List.separated_inj {α : Type} {sep : α} {xs ys rest rest' : List α} (clean : sep ∉ xs) (clean' : sep ∉ ys)
    (same : xs ++ sep :: rest = ys ++ sep :: rest') : xs = ys ∧ rest = rest' := by
  induction xs generalizing ys with
  | nil =>
    cases ys with
    | nil => exact ⟨rfl, (List.cons.inj same).2⟩
    | cons y ys => exact absurd (List.mem_cons.mpr (Or.inl (List.cons.inj same).1)) clean'
  | cons x xs ih =>
    cases ys with
    | nil => exact absurd (List.mem_cons.mpr (Or.inl (List.cons.inj same).1.symm)) clean
    | cons y ys =>
      obtain ⟨rfl, tails⟩ := List.cons.inj same
      obtain ⟨rfl, rests⟩ := ih (fun member => clean (List.mem_cons_of_mem _ member))
        (fun member => clean' (List.mem_cons_of_mem _ member)) tails
      exact ⟨rfl, rests⟩

theorem String.separated_inj {sep : Char} {s t rest rest' : String} (clean : sep ∉ s.toList) (clean' : sep ∉ t.toList)
    (same : s ++ String.singleton sep ++ rest = t ++ String.singleton sep ++ rest') : s = t ∧ rest = rest' := by
  have spelled : s.toList ++ sep :: rest.toList = t.toList ++ sep :: rest'.toList := by
    simpa using congrArg String.toList same
  obtain ⟨heads, tails⟩ := List.separated_inj clean clean' spelled
  exact ⟨String.toList_inj.mp heads, String.toList_inj.mp tails⟩

theorem String.intercalate_inj {sep : Char} {s t u v : String} {rest rest' : List String} (clean : sep ∉ s.toList)
    (clean' : sep ∉ t.toList)
    (same : (String.singleton sep).intercalate (s :: u :: rest) = (String.singleton sep).intercalate (t :: v :: rest')) :
    s = t ∧ (String.singleton sep).intercalate (u :: rest) = (String.singleton sep).intercalate (v :: rest') := by
  rw [String.intercalate_cons_cons, String.intercalate_cons_cons] at same
  exact String.separated_inj clean clean' same

/-- Where an entry can be when one more has been put at the end. -/
theorem List.concat_eq_split {α : Type} {xs before after : List α} {last x : α} :
    xs ++ [last] = before ++ x :: after ↔
      (before = xs ∧ x = last ∧ after = []) ∨ ∃ earlier, after = earlier ++ [last] ∧ xs = before ++ x :: earlier := by
  constructor
  · intro split
    rcases List.eq_nil_or_concat after with rfl | ⟨earlier, final, rfl⟩
    · obtain ⟨same, only⟩ := List.append_inj' split rfl
      exact Or.inl ⟨same.symm, (List.singleton_inj.mp only).symm, rfl⟩
    · rw [List.concat_eq_append, ← List.cons_append, ← List.append_assoc] at split
      obtain ⟨same, only⟩ := List.append_inj' split rfl
      obtain rfl := List.singleton_inj.mp only
      exact Or.inr ⟨earlier, List.concat_eq_append, same⟩
  · rintro (⟨rfl, rfl, rfl⟩ | ⟨earlier, rfl, rfl⟩)
    · rfl
    · rw [List.append_assoc, List.cons_append]
