import Mathlib.Data.List.Nodup
import Mathlib.Data.Set.Basic

namespace OnceOnly

variable {Token Time : Type} [LE Time]

/-- How tokens come to be used: `past` tells when a token is no longer good. Whoever takes them remembers those used,
and forgets none that is not past. -/
inductive Run (past : Time → Token → Prop) : Time → Set Token → List Token → Prop
  | start (now : Time) : Run past now ∅ []
  | wait {now later : Time} {memory : Set Token} {used : List Token} :
      Run past now memory used → now ≤ later → Run past later memory used
  | use {now later : Time} {memory memory' : Set Token} {used : List Token} {token : Token} :
      Run past now memory used → now ≤ later → ¬ past now token → token ∉ memory → token ∈ memory' →
      (∀ other ∈ memory, other ∈ memory' ∨ past later other) → Run past later memory' (used ++ [token])

variable {past : Time → Token → Prop} {now : Time} {memory : Set Token} {used : List Token}

theorem Run.remembered (run : Run past now memory used) (lasting : ∀ token s t, s ≤ t → past s token → past t token)
    {token : Token} (member : token ∈ used) : token ∈ memory ∨ past now token := by
  induction run with
  | start => cases member
  | wait _ later ih => exact (ih member).imp_right (lasting _ _ _ later)
  | use _ later _ _ kept forgets ih =>
    rcases List.mem_append.mp member with old | new
    · rcases ih old with there | gone
      · exact forgets _ there
      · exact Or.inr (lasting _ _ _ later gone)
    · obtain rfl := List.mem_singleton.mp new
      exact Or.inl kept

/-- No token is used twice. -/
theorem Run.nodup (run : Run past now memory used) (lasting : ∀ token s t, s ≤ t → past s token → past t token) : used.Nodup := by
  induction run with
  | start => exact List.nodup_nil
  | wait _ _ ih => exact ih
  | use before _ good unused _ _ ih =>
    refine List.Nodup.append ih (List.nodup_singleton _) (fun token old new => ?_)
    obtain rfl := List.mem_singleton.mp new
    rcases before.remembered lasting old with there | gone
    · exact unused there
    · exact good gone

end OnceOnly
