import OpenTela.Crdt.Views

namespace OpenTela

open Prog OpenTela.SetM

variable {τ : Type}

/-- What a thread merging `d` under block `id` tolerates from the others: they may add
elements and tombstones, but the survivors of its own tombstones stay, and while it
holds the mutex so does everything its elements are compared with. -/
structure Quiet (env : Env) (i : τ) (d : Delta) (id : Id) (b c : Core τ) : Prop where
  sane : Sane env b.store → Sane env c.store
  mutex : b.mutex = some i ↔ c.mutex = some i
  elems : ∀ key, elemsOf b.store key ⊆ elemsOf c.store key
  tombs : ∀ key, tombsOf b.store key ⊆ tombsOf c.store key
  survivors : ∀ key, (d.tombIds key).Nonempty →
    survivors c.store key (d.tombIds key) = survivors b.store key (d.tombIds key)
  locked : b.mutex = some i → ∀ key ∈ d.keys, id ∉ d.tombIds key →
    c.store.lookup (valueKey key) = b.store.lookup (valueKey key) ∧
    c.store.lookup (priorityKey key) = b.store.lookup (priorityKey key) ∧
    (id ∈ tombsOf c.store key ↔ id ∈ tombsOf b.store key)

/-- What such a thread does itself in one step. Elements are added under the mutex only;
tombstones are committed without it. -/
structure Acts (env : Env) (i : τ) (d : Delta) (id : Id) (w u : World τ) : Prop where
  sane : Sane env w.store → Sane env u.store
  mutex : u.mutex = w.mutex ∨ w.mutex = none ∧ u.mutex = some i ∨ w.mutex = some i ∧ u.mutex = none
  hooks : ∀ j, j ≠ i → u.hooks j = w.hooks j
  keys : ∀ key, Unchanged key w.store u.store ∨
    (d.tombIds key).Nonempty ∧ Sane env w.store ∧ Buries env key w.store u.store (d.tombIds key) ∨
    w.mutex = some i ∧ key ∈ d.keys ∧ Adds env key w.store u.store id

/-- A step that leaves the datastore alone. -/
theorem Acts.silent {env : Env} {i : τ} {d : Delta} {id : Id} {w u : World τ} (store : u.store = w.store)
    (mutex : u.mutex = w.mutex ∨ w.mutex = none ∧ u.mutex = some i ∨ w.mutex = some i ∧ u.mutex = none)
    (hooks : ∀ j, j ≠ i → u.hooks j = w.hooks j) : Acts env i d id w u where
  sane := by rw [store]; exact fun sane => sane
  mutex := mutex
  hooks := hooks
  keys := fun key => by rw [store]; exact Or.inl (Unchanged.refl key w.store)

/-- A rely of the thread: a preorder on the shared state within `Quiet`, under which a
mutex the thread cannot wait for stays free. -/
structure Tolerates (env : Env) (i : τ) (d : Delta) (id : Id) (waits : SetOp → Prop)
    (rely : Core τ → Core τ → Prop) : Prop where
  refl : ∀ c, rely c c
  trans : ∀ a b c, rely a b → rely b c → rely a c
  quiet : ∀ b c, rely b c → Quiet env i d id b c
  free : ∀ b c, rely b c → waits .lock ∨ b.mutex = none → waits .lock ∨ c.mutex = none

/-- The rely on whole worlds: nobody else touches the thread's own hook calls. -/
def Steady (rely : Core τ → Core τ → Prop) (i : τ) (w u : World τ) : Prop :=
  rely w.toCore u.toCore ∧ u.hooks i = w.hooks i

abbrev Triple [DecidableEq τ] (env : Env) (i : τ) (d : Delta) (id : Id) (waits : SetOp → Prop)
    (rely : Core τ → Core τ → Prop) {α : Type} (p : SetM α) (post : α → World τ → Prop) (w : World τ) : Prop :=
  Prog.Holds (exec env i) waits (Steady rely i) (Acts env i d id) p post w

section Rely

variable {env : Env} {i : τ} {d : Delta} {id : Id} {waits : SetOp → Prop}
  {rely : Core τ → Core τ → Prop} (tol : Tolerates env i d id waits rely) {w u : World τ}

include tol

theorem Tolerates.steady_refl (w : World τ) : Steady rely i w w := ⟨tol.refl _, rfl⟩

theorem Tolerates.steady_trans (w t u : World τ) (first : Steady rely i w t) (second : Steady rely i t u) :
    Steady rely i w u :=
  ⟨tol.trans _ _ _ first.1 second.1, second.2.trans first.2⟩

theorem Tolerates.sane (moved : Steady rely i w u) (sane : Sane env w.store) : Sane env u.store :=
  (tol.quiet _ _ moved.1).sane sane

end Rely

section Operations

variable [DecidableEq τ] {env : Env} {i : τ} {d : Delta} {id : Id} {waits : SetOp → Prop}
  {rely : Core τ → Core τ → Prop} (tol : Tolerates env i d id waits rely) {w : World τ}

include tol in
theorem Tolerates.bind {α β : Type} {p : SetM α} {f : α → SetM β} {post : β → World τ → Prop}
    (holds : Triple env i d id waits rely p (fun a u => Triple env i d id waits rely (f a) post u) w) :
    Triple env i d id waits rely (p >>= f) post w :=
  Holds.bind tol.steady_refl holds

theorem triple_ret {α : Type} {a : α} {post : α → World τ → Prop}
    (done : ∀ u, Steady rely i w u → post a u) :
    Triple env i d id waits rely (pure a : SetM α) post w := done

/-- Operations that only read see the state of the moment they run. -/
theorem triple_read {o : SetOp} {f : World τ → o.Res} (reads : ∀ t : World τ, exec env i o t = some (f t, t))
    {post : o.Res → World τ → Prop}
    (done : ∀ t u, Steady rely i w t → Steady rely i t u → post (f t) u) :
    Triple env i d id waits rely (Prog.perform o) post w := by
  intro t moved
  refine ⟨Or.inr (by rw [reads t]; rfl), fun r u step => ?_⟩
  obtain ⟨rfl, rfl⟩ := Prod.mk.inj (Option.some.inj ((reads t).symm.trans step))
  exact ⟨Acts.silent rfl (Or.inl rfl) (fun _ _ => rfl), fun u' later => done t u' moved later⟩

theorem triple_get {path : Path} {post : Option Bytes → World τ → Prop}
    (done : ∀ t u, Steady rely i w t → Steady rely i t u → post (t.store.lookup path) u) :
    Triple env i d id waits rely (get path) post w :=
  triple_read (o := .get path) (fun _ => rfl) done

theorem triple_has {path : Path} {post : Bool → World τ → Prop}
    (done : ∀ t u, Steady rely i w t → Steady rely i t u → post (t.store.has path) u) :
    Triple env i d id waits rely (has path) post w :=
  triple_read (o := .has path) (fun _ => rfl) done

theorem triple_query {pre : Path} {post : List (Path × Bytes) → World τ → Prop}
    (done : ∀ t u, Steady rely i w t → Steady rely i t u →
      post (env.queryOrder (t.store.select (below pre))) u) :
    Triple env i d id waits rely (query pre) post w :=
  triple_read (o := .query pre) (fun _ => rfl) done

theorem triple_fetch {block : Id} {post : Option Delta → World τ → Prop}
    (done : ∀ t u, Steady rely i w t → Steady rely i t u → post (env.dag block) u) :
    Triple env i d id waits rely (fetch block) post w :=
  triple_read (o := .fetch block) (fun _ => rfl) done

theorem triple_range {keys : List Key} {post : List Key → World τ → Prop}
    (done : ∀ t u, Steady rely i w t → Steady rely i t u → post (env.mapOrder keys) u) :
    Triple env i d id waits rely (range keys) post w :=
  triple_read (o := .range keys) (fun _ => rfl) done

include tol in
theorem triple_now {post : ℤ → World τ → Prop} (done : ∀ z u, Steady rely i w u → post z u) :
    Triple env i d id waits rely now post w := by
  intro t moved
  refine ⟨Or.inr rfl, fun z u step => ?_⟩
  obtain ⟨rfl, rfl⟩ := Prod.mk.inj (Option.some.inj step)
  refine ⟨Acts.silent rfl (Or.inl rfl) (fun _ _ => rfl), fun u' later => done _ u' ?_⟩
  exact ⟨tol.trans _ _ _ moved.1 later.1, later.2.trans moved.2⟩

include tol in
theorem triple_hook {h : Hook} {post : Unit → World τ → Prop}
    (done : ∀ u, rely w.toCore u.toCore → u.hooks i = w.hooks i ++ [h] → post () u) :
    Triple env i d id waits rely (hook h) post w := by
  intro t moved
  refine ⟨Or.inr rfl, fun z u step => ?_⟩
  obtain ⟨rfl, rfl⟩ := Prod.mk.inj (Option.some.inj step)
  refine ⟨Acts.silent rfl (Or.inl rfl) (fun j other => Function.update_of_ne other _ _), fun u' later => ?_⟩
  refine done u' (tol.trans _ _ _ moved.1 later.1) ?_
  rw [later.2, ← moved.2]
  exact Function.update_self ..

end Operations

end OpenTela
