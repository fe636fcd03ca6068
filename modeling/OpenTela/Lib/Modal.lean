import OpenTela.Lib.Prog

namespace Prog

variable {Op Op' : Type} {Res : Op → Type} {Res' : Op' → Type} {ε α β κ : Type}

/-- A program whose operations are some of a larger repertoire. -/
def embed (up : Op → Op') (down : (o : Op) → Res' (up o) → Res o) : Prog Op Res ε α → Prog Op' Res' ε α
  | ret a => ret a
  | fail e => fail e
  | op o next => op (up o) (fun r => embed up down (next (down o r)))

/-- Hands an error over as a value. -/
def attempt : Prog Op Res ε α → Prog Op Res ε (Except ε α)
  | ret a => ret (.ok a)
  | fail e => ret (.error e)
  | op o next => op o (fun r => attempt (next r))

/-- Raises again an error that was handed over. -/
def rethrow : Except ε α → Prog Op Res ε α
  | .ok a => ret a
  | .error e => fail e

/-- Nothing is left to do. -/
def Ended : Prog Op Res ε α → Prop
  | op _ _ => False
  | _ => True

instance : (p : Prog Op Res ε α) → Decidable p.Ended
  | ret _ => inferInstanceAs (Decidable True)
  | fail _ => inferInstanceAs (Decidable True)
  | op _ _ => inferInstanceAs (Decidable False)

/-- Sooner or later, whatever the answers in `can`, the program takes a `good` step, or it
ends as `post` says. A step is judged with its answer and with what the program does next. -/
def Surely (can : (o : Op) → Res o → Prop) (good : (o : Op) → Res o → Prog Op Res ε α → Prop)
    (post : Except ε α → Prop) : Prog Op Res ε α → Prop
  | ret a => post (.ok a)
  | fail e => post (.error e)
  | op o next => ∀ r, can o r → good o r (next r) ∨ Surely can good post (next r)

/-- Every step the program may take is `safe`, and it ends as `post` says. Along the way an
account `κ` is kept of the answers. -/
def Always (can : (o : Op) → Res o → Prop) (learn : κ → (o : Op) → Res o → κ)
    (safe : κ → (o : Op) → Res o → Prog Op Res ε α → Prop) (post : κ → Except ε α → Prop) :
    κ → Prog Op Res ε α → Prop
  | k, ret a => post k (.ok a)
  | k, fail e => post k (.error e)
  | k, op o next => ∀ r, can o r → safe k o r (next r) ∧ Always can learn safe post (learn k o r) (next r)

/-- A context a program runs in: it passes every operation through. -/
def Context (K : Prog Op Res ε α → Prog Op Res ε β) : Prop :=
  ∀ o next, K (.op o next) = .op o (fun r => K (next r))

theorem Context.bind (f : α → Prog Op Res ε β) : Context (fun p => p.bind f) := fun _ _ => rfl

theorem Context.attempt : Context (attempt : Prog Op Res ε α → Prog Op Res ε (Except ε α)) := fun _ _ => rfl

theorem Context.comp {K : Prog Op Res ε β → Prog Op Res ε κ} {L : Prog Op Res ε α → Prog Op Res ε β} (outer : Context K)
    (inner : Context L) : Context (fun p => K (L p)) :=
  fun o next => (congrArg K (inner o next)).trans (outer o _)

/-- How the first of two programs may end: with an error that ends both, or so that the second can go on. -/
def Onward (post : Except ε β → Prop) (goes : α → Prop) : Except ε α → Prop
  | .ok a => goes a
  | .error e => post (.error e)

/-- Every operation the program may come to is `safe`. -/
abbrev Minds (can : (o : Op) → Res o → Prop) (safe : Op → Prop) (p : Prog Op Res ε α) : Prop :=
  Always can (fun _ _ _ => ()) (fun _ o _ _ => safe o) (fun _ _ => True) () p

section Rules

variable {can : (o : Op) → Res o → Prop} {learn : κ → (o : Op) → Res o → κ}

theorem Surely.mono {good good' : (o : Op) → Res o → Prog Op Res ε α → Prop} {post post' : Except ε α → Prop}
    {p : Prog Op Res ε α} (better : ∀ o r rest, good o r rest → good' o r rest) (weaker : ∀ out, post out → post' out)
    (surely : Surely can good post p) : Surely can good' post' p := by
  induction p with
  | ret a => exact weaker _ surely
  | fail e => exact weaker _ surely
  | op o next ih => exact fun r possible => (surely r possible).imp (better o r _) (ih r)

theorem Surely.step {o : Op} {good : (o : Op) → Res o → Prog Op Res ε β → Prop} {post : Except ε β → Prop}
    {f : Res o → Prog Op Res ε β} (surely : ∀ r, can o r → good o r (f r) ∨ Surely can good post (f r)) :
    Surely can good post (perform o >>= f) := surely

/-- A judgement inside a context is one of the whole program. -/
theorem Surely.context {K : Prog Op Res ε α → Prog Op Res ε β} (context : Context K)
    {good : (o : Op) → Res o → Prog Op Res ε β → Prop} {post : Except ε β → Prop} {p : Prog Op Res ε α}
    (surely : Surely can (fun o r rest => good o r (K rest)) (fun out => Surely can good post (K (rethrow out))) p) :
    Surely can good post (K p) := by
  induction p with
  | ret a => exact surely
  | fail e => exact surely
  | op o next ih =>
    rw [context o next]
    exact fun r possible => (surely r possible).imp_right (ih r)

theorem Surely.bind {good : (o : Op) → Res o → Prog Op Res ε β → Prop} {post : Except ε β → Prop}
    {p : Prog Op Res ε α} {f : α → Prog Op Res ε β}
    (surely : Surely can (fun o r rest => good o r (rest.bind f))
      (Onward post (fun a => Surely can good post (f a))) p) : Surely can good post (p.bind f) := by
  refine Surely.context (Context.bind f) (surely.mono (fun _ _ _ here => here) ?_)
  rintro (e | a) ending
  · exact ending
  · exact ending

theorem Surely.attempt {good : (o : Op) → Res o → Prog Op Res ε (Except ε α) → Prop}
    {post : Except ε (Except ε α) → Prop} {p : Prog Op Res ε α}
    (surely : Surely can (fun o r rest => good o r rest.attempt) (fun out => post (.ok out)) p) :
    Surely can good post p.attempt := by
  refine Surely.context Context.attempt (surely.mono (fun _ _ _ here => here) ?_)
  rintro (e | a) ending
  · exact ending
  · exact ending

theorem Always.mono {safe safe' : κ → (o : Op) → Res o → Prog Op Res ε α → Prop} {post post' : κ → Except ε α → Prop}
    {p : Prog Op Res ε α} {k : κ} (safer : ∀ k o r rest, can o r → safe k o r rest → safe' k o r rest)
    (weaker : ∀ k out, post k out → post' k out) (always : Always can learn safe post k p) :
    Always can learn safe' post' k p := by
  induction p generalizing k with
  | ret a => exact weaker _ _ always
  | fail e => exact weaker _ _ always
  | op o next ih => exact fun r possible => (always r possible).imp (safer k o r _ possible) (ih r)

theorem Always.step {o : Op} {safe : κ → (o : Op) → Res o → Prog Op Res ε β → Prop} {post : κ → Except ε β → Prop}
    {f : Res o → Prog Op Res ε β} {k : κ}
    (always : ∀ r, can o r → safe k o r (f r) ∧ Always can learn safe post (learn k o r) (f r)) :
    Always can learn safe post k (perform o >>= f) := always

theorem Always.context {K : Prog Op Res ε α → Prog Op Res ε β} (context : Context K)
    {safe : κ → (o : Op) → Res o → Prog Op Res ε β → Prop} {post : κ → Except ε β → Prop} {p : Prog Op Res ε α} {k : κ}
    (always : Always can learn (fun k o r rest => safe k o r (K rest))
      (fun k out => Always can learn safe post k (K (rethrow out))) k p) : Always can learn safe post k (K p) := by
  induction p generalizing k with
  | ret a => exact always
  | fail e => exact always
  | op o next ih =>
    rw [context o next]
    exact fun r possible => (always r possible).imp_right (ih r)

theorem Always.bind {safe : κ → (o : Op) → Res o → Prog Op Res ε β → Prop} {post : κ → Except ε β → Prop}
    {p : Prog Op Res ε α} {f : α → Prog Op Res ε β} {k : κ}
    (always : Always can learn (fun k o r rest => safe k o r (rest.bind f))
      (fun k => Onward (post k) (fun a => Always can learn safe post k (f a))) k p) :
    Always can learn safe post k (p.bind f) := by
  refine Always.context (Context.bind f) (always.mono (fun _ _ _ _ _ here => here) ?_)
  rintro k (e | a) ending
  · exact ending
  · exact ending

theorem Always.attempt {safe : κ → (o : Op) → Res o → Prog Op Res ε (Except ε α) → Prop}
    {post : κ → Except ε (Except ε α) → Prop} {p : Prog Op Res ε α} {k : κ}
    (always : Always can learn (fun k o r rest => safe k o r rest.attempt) (fun k out => post k (.ok out)) k p) :
    Always can learn safe post k p.attempt := by
  refine Always.context Context.attempt (always.mono (fun _ _ _ _ _ here => here) ?_)
  rintro k (e | a) ending
  · exact ending
  · exact ending

theorem Minds.bind {safe : Op → Prop} {p : Prog Op Res ε α} {f : α → Prog Op Res ε β} (first : Minds can safe p)
    (second : ∀ a, Minds can safe (f a)) : Minds can safe (p.bind f) := by
  refine Always.bind (first.mono (fun _ _ _ _ _ fine => fine) ?_)
  rintro k (e | a) _
  · trivial
  · exact second a

/-- A program that minds what is safe, on its own, keeps what safe steps keep. -/
theorem Minds.run {σ : Type} {exec : (o : Op) → σ → Option (Res o × σ)} {safe : Op → Prop} {p : Prog Op Res ε α}
    (minds : Minds can safe p) (holds : σ → Prop) (answers : ∀ o s r t, holds s → exec o s = some (r, t) → can o r)
    (steps : ∀ o s r t, holds s → safe o → exec o s = some (r, t) → holds t) {s t : σ} {out : Except ε α} (now : holds s)
    (ran : p.run exec s = some (out, t)) : holds t := by
  induction p generalizing s with
  | ret a =>
    obtain ⟨_, rfl⟩ := Prod.mk.inj (Option.some.inj ran)
    exact now
  | fail e =>
    obtain ⟨_, rfl⟩ := Prod.mk.inj (Option.some.inj ran)
    exact now
  | op o next ih =>
    obtain ⟨⟨r, u⟩, executed, later⟩ := Option.bind_eq_some_iff.mp ran
    obtain ⟨fine, rest⟩ := minds r (answers o s r u now executed)
    exact ih r rest (steps o s r u now fine executed) later

theorem Surely.not_ended {good : (o : Op) → Res o → Prog Op Res ε α → Prop} {p : Prog Op Res ε α}
    (surely : Surely can good (fun _ => False) p) : ¬ p.Ended := by
  cases p with
  | ret a => exact surely.elim
  | fail e => exact surely.elim
  | op o next => exact fun ended => ended

/-- A program that is known to end well need do nothing good on the way. -/
theorem Always.surely {safe : κ → (o : Op) → Res o → Prog Op Res ε α → Prop} {post : κ → Except ε α → Prop}
    {good : (o : Op) → Res o → Prog Op Res ε α → Prop} {post' : Except ε α → Prop} {p : Prog Op Res ε α} {k : κ}
    (ends : ∀ k out, post k out → post' out) (always : Always can learn safe post k p) : Surely can good post' p := by
  induction p generalizing k with
  | ret a => exact ends k _ always
  | fail e => exact ends k _ always
  | op o next ih => exact fun r possible => Or.inr (ih r (always r possible).2)

/-- What holds of a program holds of it inside the larger repertoire, where the larger one
answers within `can` and asks no more of the steps. -/
theorem Always.embed {κ' : Type} {can' : (o : Op') → Res' o → Prop} {learn' : κ' → (o : Op') → Res' o → κ'}
    {up : Op → Op'} {down : (o : Op) → Res' (up o) → Res o}
    {safe : κ → (o : Op) → Res o → Prog Op Res ε α → Prop} {post : κ → Except ε α → Prop}
    {safe' : κ' → (o : Op') → Res' o → Prog Op' Res' ε α → Prop} {post' : κ' → Except ε α → Prop}
    {k' : κ'} (possible : ∀ o r, can' (up o) r → can o (down o r)) (unlearned : ∀ o r, learn' k' (up o) r = k')
    (safer : ∀ k o r rest, can' (up o) r → safe k o (down o r) rest → safe' k' (up o) r (Prog.embed up down rest))
    (weaker : ∀ k out, post k out → post' k' out) {p : Prog Op Res ε α} {k : κ}
    (always : Always can learn safe post k p) : Always can' learn' safe' post' k' (Prog.embed up down p) := by
  induction p generalizing k with
  | ret a => exact weaker k _ always
  | fail e => exact weaker k _ always
  | op o next ih =>
    intro r answered
    obtain ⟨here, rest⟩ := always (down o r) (possible o r answered)
    refine ⟨safer k o r _ answered here, ?_⟩
    rw [unlearned]
    exact ih (down o r) rest

end Rules

end Prog
