import OpenTela.Lib.Modal

namespace Prog

variable {Op : Type} {Res : Op → Type} {ε α β σ : Type} {exec : (o : Op) → σ → Option (Res o × σ)}

/-- Where a program on its own can be cut off: before or after any of its operations. -/
inductive Cut (exec : (o : Op) → σ → Option (Res o × σ)) : Prog Op Res ε α → σ → σ → Prop
  | here {p s} : Cut exec p s s
  | later {o next s r u t} : exec o s = some (r, u) → Cut exec (next r) u t → Cut exec (.op o next) s t

/-- A sequence is cut off in its first part, or after that has returned. -/
theorem Cut.bind {p : Prog Op Res ε α} {f : α → Prog Op Res ε β} {s t : σ} (cut : Cut exec (p.bind f) s t) :
    Cut exec p s t ∨ ∃ a u, p.run exec s = some (.ok a, u) ∧ Cut exec (f a) u t := by
  induction p generalizing s with
  | ret a => exact Or.inr ⟨a, s, rfl, cut⟩
  | fail e =>
    cases cut with
    | here => exact Or.inl .here
  | op o next ih =>
    cases cut with
    | here => exact Or.inl .here
    | later executed rest =>
      rcases ih _ rest with first | ⟨a, u, ran, second⟩
      · exact Or.inl (.later executed first)
      · exact Or.inr ⟨a, u, by simp only [run, executed, Option.bind_some, ran], second⟩

/-- What every operation keeps is kept wherever the program is cut off. -/
theorem Cut.keeps {safe : Op → Prop} (rel : σ → σ → Prop) (refl : ∀ s, rel s s) (trans : ∀ s t u, rel s t → rel t u → rel s u)
    (kept : ∀ o s r u, safe o → exec o s = some (r, u) → rel s u) {p : Prog Op Res ε α} {s t : σ}
    (minds : Minds (fun _ _ => True) safe p) (cut : Cut exec p s t) : rel s t := by
  induction cut with
  | here => exact refl _
  | @later o next s r u t executed _ ih =>
    obtain ⟨fine, rest⟩ := minds r trivial
    exact trans _ _ _ (kept _ _ _ _ fine executed) (ih rest)

end Prog
