import Mathlib.Logic.Relation
import Mathlib.Logic.Function.Basic

/-- A program that talks to a shared state only through operations of `Op`. Each
operation is one indivisible step; everything between two operations is local. -/
inductive Prog (Op : Type) (Res : Op → Type) (ε α : Type) where
  | ret (a : α)
  | fail (e : ε)
  | op (o : Op) (next : Res o → Prog Op Res ε α)

namespace Prog

variable {Op : Type} {Res : Op → Type} {ε α β σ τ : Type}

def bind : Prog Op Res ε α → (α → Prog Op Res ε β) → Prog Op Res ε β
  | ret a, f => f a
  | fail e, _ => fail e
  | op o next, f => op o (fun r => bind (next r) f)

instance : Monad (Prog Op Res ε) where
  pure := ret
  bind := bind

def perform (o : Op) : Prog Op Res ε (Res o) := op o ret

/-- Runs `last` on every way out of the program, as a deferred call does. -/
def ensure (last : Prog Op Res ε Unit) : Prog Op Res ε α → Prog Op Res ε α
  | ret a => last.bind (fun _ => ret a)
  | fail e => last.bind (fun _ => fail e)
  | op o next => op o (fun r => ensure last (next r))

@[simp] theorem pure_eq_ret (a : α) : (pure a : Prog Op Res ε α) = ret a := rfl

theorem bind_ret (p : Prog Op Res ε α) : p.bind ret = p := by
  induction p with
  | ret a => rfl
  | fail e => rfl
  | op o next ih => exact congrArg (op o) (funext ih)

@[simp] theorem bind_eq (p : Prog Op Res ε α) (f : α → Prog Op Res ε β) : p >>= f = p.bind f := rfl

/-- The program on its own, with nobody else acting on the state. `none` is a
program that waits for ever. -/
def run (exec : (o : Op) → σ → Option (Res o × σ)) :
    Prog Op Res ε α → σ → Option (Except ε α × σ)
  | ret a, s => some (.ok a, s)
  | fail e, s => some (.error e, s)
  | op o next, s => (exec o s).bind (fun out => run exec (next out.1) out.2)

/-- What follows a program begins where the program has returned. -/
theorem run_bind {exec : (o : Op) → σ → Option (Res o × σ)} {p : Prog Op Res ε α} {a : α} {s t : σ}
    (ran : run exec p s = some (.ok a, t)) (f : α → Prog Op Res ε β) : run exec (p.bind f) s = run exec (f a) t := by
  induction p generalizing s with
  | ret b =>
    obtain ⟨same, rfl⟩ := Prod.mk.inj (Option.some.inj ran)
    cases same
    rfl
  | fail e => cases ran
  | op o next ih =>
    simp only [run, bind] at ran ⊢
    cases executed : exec o s with
    | none => simp [executed] at ran
    | some out =>
      rw [executed] at ran
      exact ih out.1 ran

/-- A deferred call begins where the program has returned. -/
theorem run_ensure {exec : (o : Op) → σ → Option (Res o × σ)} {p : Prog Op Res ε α} {a : α} {s t : σ}
    (ran : run exec p s = some (.ok a, t)) (last : Prog Op Res ε Unit) :
    run exec (ensure last p) s = run exec (last.bind (fun _ => ret a)) t := by
  induction p generalizing s with
  | ret b =>
    obtain ⟨same, rfl⟩ := Prod.mk.inj (Option.some.inj ran)
    cases same
    rfl
  | fail e => cases ran
  | op o next ih =>
    simp only [run, ensure] at ran ⊢
    cases executed : exec o s with
    | none => simp [executed] at ran
    | some out =>
      rw [executed] at ran
      exact ih out.1 ran

/-- The program on its own, where each operation's outcome depends on a choice made elsewhere.
`none` also stands for choices that do not last to its end. -/
def runWith {Choice : Type} (exec : Choice → (o : Op) → σ → Option (Res o × σ)) :
    Prog Op Res ε α → List Choice → σ → Option (Except ε α × σ)
  | ret a, _, s => some (.ok a, s)
  | fail e, _, s => some (.error e, s)
  | op _ _, [], _ => none
  | op o next, choice :: choices, s => (exec choice o s).bind (fun out => runWith exec (next out.1) choices out.2)

theorem runWith_op {Choice : Type} {exec : Choice → (o : Op) → σ → Option (Res o × σ)} {choices : List Choice} {o : Op}
    {next : Res o → Prog Op Res ε α} {s : σ} {out : Except ε α × σ} (ran : runWith exec (op o next) choices s = some out) :
    ∃ choice rest r t, exec choice o s = some (r, t) ∧ runWith exec (next r) rest t = some out := by
  cases choices with
  | nil => cases ran
  | cons choice rest =>
    obtain ⟨⟨r, t⟩, executed, later⟩ := Option.bind_eq_some_iff.mp ran
    exact ⟨choice, rest, r, t, executed, later⟩

theorem runWith_step {Choice : Type} {exec : Choice → (o : Op) → σ → Option (Res o × σ)} {choice : Choice} {choices : List Choice}
    {o : Op} {next : Res o → Prog Op Res ε α} {r : Res o} {s t : σ} (executed : exec choice o s = some (r, t)) :
    runWith exec (op o next) (choice :: choices) s = runWith exec (next r) choices t := by
  simp only [runWith, executed, Option.bind_some]

/-- Rely-guarantee triple. Between its own steps the program tolerates every
change in `rely`; each of its own steps lies in `guar`; only operations in
`waits` may block; it never fails, and what it returns satisfies `post`. -/
def Holds (exec : (o : Op) → σ → Option (Res o × σ)) (waits : Op → Prop)
    (rely guar : σ → σ → Prop) : Prog Op Res ε α → (α → σ → Prop) → σ → Prop
  | ret a, post, s => ∀ t, rely s t → post a t
  | fail _, _, _ => False
  | op o next, post, s => ∀ t, rely s t →
      (waits o ∨ (exec o t).isSome) ∧
      ∀ r u, exec o t = some (r, u) → guar t u ∧ Holds exec waits rely guar (next r) post u

section Rules

variable {exec : (o : Op) → σ → Option (Res o × σ)} {waits : Op → Prop} {rely guar : σ → σ → Prop}

/-- A triple survives interference: what holds now still holds after the others have moved. -/
theorem Holds.stable (trans : ∀ s t u, rely s t → rely t u → rely s u) {p : Prog Op Res ε α} {post : α → σ → Prop} {s t : σ}
    (holds : Holds exec waits rely guar p post s) (moved : rely s t) :
    Holds exec waits rely guar p post t := by
  cases p with
  | ret a => exact fun u later => holds u (trans _ _ _ moved later)
  | fail e => exact holds
  | op o next => exact fun u later => holds u (trans _ _ _ moved later)

theorem Holds.bind (refl : ∀ s, rely s s) {p : Prog Op Res ε α} {f : α → Prog Op Res ε β}
    {post : β → σ → Prop} {s : σ}
    (holds : Holds exec waits rely guar p (fun a t => Holds exec waits rely guar (f a) post t) s) :
    Holds exec waits rely guar (p.bind f) post s := by
  induction p generalizing s with
  | ret a => exact holds s (refl s)
  | fail e => exact holds
  | op o next ih =>
    intro t moved
    obtain ⟨free, steps⟩ := holds t moved
    refine ⟨free, fun r u step => ?_⟩
    obtain ⟨own, rest⟩ := steps r u step
    exact ⟨own, ih r rest⟩

/-- A deferred call runs on the state the program leaves behind. -/
theorem Holds.ensure {p : Prog Op Res ε α} {last : Prog Op Res ε Unit} (refl : ∀ s, rely s s)
    {post : α → σ → Prop} {s : σ}
    (holds : Holds exec waits rely guar p
      (fun a t => Holds exec waits rely guar (last.bind (fun _ => ret a)) post t) s) :
    Holds exec waits rely guar (ensure last p) post s := by
  induction p generalizing s with
  | ret a => exact holds s (refl s)
  | fail e => exact holds.elim
  | op o next ih =>
    intro t moved
    obtain ⟨free, steps⟩ := holds t moved
    exact ⟨free, fun r u step => ⟨(steps r u step).1, ih r (steps r u step).2⟩⟩

theorem Holds.mono {p : Prog Op Res ε α} {post post' : α → σ → Prop} {s : σ}
    (weaker : ∀ a t, post a t → post' a t) (holds : Holds exec waits rely guar p post s) :
    Holds exec waits rely guar p post' s := by
  induction p generalizing s with
  | ret a => exact fun t moved => weaker a t (holds t moved)
  | fail e => exact holds
  | op o next ih =>
    intro t moved
    obtain ⟨free, steps⟩ := holds t moved
    exact ⟨free, fun r u step => ⟨(steps r u step).1, ih r (steps r u step).2⟩⟩

/-- Less interference, more blocking and a looser promise only weaken a triple. -/
theorem Holds.weaken {waits' : Op → Prop} {rely' guar' : σ → σ → Prop}
    (quieter : ∀ s t, rely' s t → rely s t) (looser : ∀ s t, guar s t → guar' s t)
    (waiting : ∀ o, waits o → waits' o)
    {p : Prog Op Res ε α} {post : α → σ → Prop} {s : σ} (holds : Holds exec waits rely guar p post s) :
    Holds exec waits' rely' guar' p post s := by
  induction p generalizing s with
  | ret a => exact fun t moved => holds t (quieter s t moved)
  | fail e => exact holds
  | op o next ih =>
    intro t moved
    obtain ⟨free, steps⟩ := holds t (quieter s t moved)
    exact ⟨free.imp_left (waiting o),
      fun r u step => ⟨looser t u (steps r u step).1, ih r (steps r u step).2⟩⟩

end Rules

/-- With nobody else acting and nothing to wait for, a triple gives a result:
the program returns, every step it took is promised, and `post` holds. -/
theorem Holds.run_alone {exec : (o : Op) → σ → Option (Res o × σ)} {guar : σ → σ → Prop}
    {p : Prog Op Res ε α} {post : α → σ → Prop} {s : σ}
    (holds : Holds exec (fun _ => False) Eq guar p post s) :
    ∃ a t, p.run exec s = some (.ok a, t) ∧ Relation.ReflTransGen guar s t ∧ post a t := by
  induction p generalizing s with
  | ret a => exact ⟨a, s, rfl, .refl, holds s rfl⟩
  | fail e => exact holds.elim
  | op o next ih =>
    obtain ⟨free, steps⟩ := holds s rfl
    obtain ⟨⟨r, u⟩, step⟩ := Option.isSome_iff_exists.mp (free.resolve_left id)
    obtain ⟨own, rest⟩ := steps r u step
    obtain ⟨a, t, result, path, final⟩ := ih r rest
    exact ⟨a, t, by simp only [run, step, Option.bind_some, result], .head own path, final⟩

/-- A shared state and the programs still to run on it, one for each thread. -/
structure Pool (Op : Type) (Res : Op → Type) (ε α σ τ : Type) where
  state : σ
  thread : τ → Prog Op Res ε α

section Interleaving

variable [DecidableEq τ] (exec : τ → (o : Op) → σ → Option (Res o × σ))

/-- Any thread that is not blocked performs its next operation. -/
inductive Pool.Step : Pool Op Res ε α σ τ → Pool Op Res ε α σ τ → Prop
  | act {c : Pool Op Res ε α σ τ} (i : τ) {o : Op} {next : Res o → Prog Op Res ε α} {r : Res o} {s : σ} :
      c.thread i = .op o next → exec i o c.state = some (r, s) →
      Pool.Step c ⟨s, Function.update c.thread i (next r)⟩

abbrev Pool.Reach : Pool Op Res ε α σ τ → Pool Op Res ε α σ τ → Prop :=
  Relation.ReflTransGen (Pool.Step exec)

variable {exec}

/-- One thread can run on its own while the others stand still, in any context `K` that
passes operations through. -/
theorem Pool.Reach.of_run (exec : τ → (o : Op) → σ → Option (Res o × σ)) (K : Prog Op Res ε β → Prog Op Res ε α)
    (context : ∀ o next, K (.op o next) = .op o (fun r => K (next r))) {c : Pool Op Res ε α σ τ} {i : τ}
    {p : Prog Op Res ε β} {a : β} {s : σ} (atThread : c.thread i = K p) (result : p.run (exec i) c.state = some (.ok a, s)) :
    ∃ d, Pool.Reach exec c d ∧ d.state = s ∧ d.thread i = K (.ret a) ∧ ∀ j, j ≠ i → d.thread j = c.thread j := by
  induction p generalizing c with
  | ret b =>
    obtain ⟨same, rfl⟩ := Prod.mk.inj (Option.some.inj result)
    cases same
    exact ⟨c, .refl, rfl, atThread, fun _ _ => rfl⟩
  | fail e => cases result
  | op o next ih =>
    rw [context] at atThread
    cases executed : exec i o c.state with
    | none => simp [run, executed] at result
    | some out =>
      obtain ⟨r, u⟩ := out
      simp only [run, executed, Option.bind_some] at result
      obtain ⟨d, rest, final, mine, others⟩ :=
        ih r (c := ⟨u, Function.update c.thread i (K (next r))⟩) (Function.update_self ..) result
      refine ⟨d, .head (.act i atThread executed) rest, final, mine, fun j different => ?_⟩
      rw [others j different]
      exact Function.update_of_ne different _ _

/-- One step of a chosen thread. -/
def Pool.advance (exec : τ → (o : Op) → σ → Option (Res o × σ)) (c : Pool Op Res ε α σ τ) (i : τ) :
    Option (Pool Op Res ε α σ τ) :=
  match c.thread i with
  | .op o next => (exec i o c.state).map (fun out => ⟨out.2, Function.update c.thread i (next out.1)⟩)
  | _ => none

/-- A schedule, played from the left. -/
def Pool.play (exec : τ → (o : Op) → σ → Option (Res o × σ)) :
    List τ → Pool Op Res ε α σ τ → Option (Pool Op Res ε α σ τ)
  | [], c => some c
  | i :: rest, c => (c.advance exec i).bind (Pool.play exec rest)

theorem Pool.Step.of_advance {c d : Pool Op Res ε α σ τ} {i : τ} (moved : c.advance exec i = some d) :
    Pool.Step exec c d := by
  unfold Pool.advance at moved
  split at moved
  · rename_i o next atThread
    obtain ⟨⟨r, s⟩, executed, rfl⟩ := Option.map_eq_some_iff.mp moved
    exact .act i atThread executed
  · cases moved

theorem Pool.Reach.of_play (schedule : List τ) {c d : Pool Op Res ε α σ τ} (played : c.play exec schedule = some d) :
    Pool.Reach exec c d := by
  induction schedule generalizing c with
  | nil =>
    cases played
    exact .refl
  | cons i rest ih =>
    obtain ⟨e, moved, played⟩ := Option.bind_eq_some_iff.mp played
    exact .head (.of_advance moved) (ih played)

section Composition

variable (waits : Op → Prop) (rely guar : τ → σ → σ → Prop) (post : τ → α → σ → Prop)

theorem Pool.Step.preserves {c d : Pool Op Res ε α σ τ} (step : Pool.Step exec c d)
    (trans : ∀ i s t u, rely i s t → rely i t u → rely i s u)
    (compatible : ∀ i j, i ≠ j → ∀ s t, guar i s t → rely j s t)
    (holds : ∀ i, Holds (exec i) waits (rely i) (guar i) (c.thread i) (post i) c.state)
    (refl : ∀ i s, rely i s s) :
    (∃ i, guar i c.state d.state) ∧
      ∀ i, Holds (exec i) waits (rely i) (guar i) (d.thread i) (post i) d.state := by
  obtain ⟨i, atThread, executed⟩ := step
  have mine := holds i
  rw [atThread] at mine
  obtain ⟨own, rest⟩ := (mine _ (refl i _)).2 _ _ executed
  refine ⟨⟨i, own⟩, fun j => ?_⟩
  by_cases same : j = i
  · subst same
    simpa only [Function.update_self] using rest
  · simpa only [Function.update_of_ne same] using
      (holds j).stable (trans j) (compatible i j (Ne.symm same) _ _ own)

/-- Parallel composition: threads whose promises are within each other's rely keep
their triples along every interleaving, and every step taken is somebody's promise. -/
theorem Pool.Reach.preserves {c d : Pool Op Res ε α σ τ} (reach : Pool.Reach exec c d)
    (refl : ∀ i s, rely i s s) (trans : ∀ i s t u, rely i s t → rely i t u → rely i s u)
    (compatible : ∀ i j, i ≠ j → ∀ s t, guar i s t → rely j s t)
    (holds : ∀ i, Holds (exec i) waits (rely i) (guar i) (c.thread i) (post i) c.state) :
    Relation.ReflTransGen (fun s t => ∃ i, guar i s t) c.state d.state ∧
      ∀ i, Holds (exec i) waits (rely i) (guar i) (d.thread i) (post i) d.state := by
  induction reach with
  | refl => exact ⟨.refl, holds⟩
  | tail _ step ih =>
    obtain ⟨path, current⟩ := ih
    obtain ⟨own, next⟩ := step.preserves waits rely guar post trans compatible current refl
    exact ⟨path.tail own, next⟩

end Composition

end Interleaving

end Prog
