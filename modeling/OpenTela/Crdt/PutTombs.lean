import OpenTela.Crdt.FindBest

namespace OpenTela

open OpenTela.SetM

/-- The ids tombstoned for a key by a list of tombstones, in order. -/
def idsFor (tombs : List Element) (key : Key) : List Id :=
  (tombs.filter (fun e => e.key = key)).map Element.id

theorem mem_idsFor {tombs : List Element} {key : Key} {x : Id} :
    x ∈ idsFor tombs key ↔ ∃ e ∈ tombs, e.key = key ∧ e.id = x := by
  simp [idsFor, and_assoc]

theorem Delta.tombIds_eq (d : Delta) (key : Key) : d.tombIds key = {x | x ∈ idsFor d.tombstones key} := by
  ext x
  exact mem_idsFor.symm

theorem idsFor_append_self (tombs : List Element) (e : Element) :
    idsFor (tombs ++ [e]) e.key = idsFor tombs e.key ++ [e.id] := by
  simp [idsFor]

theorem idsFor_append_other {tombs : List Element} {e : Element} {key : Key} (other : e.key ≠ key) :
    idsFor (tombs ++ [e]) key = idsFor tombs key := by
  simp [idsFor, other]

theorem lookup_apply_tombs (paths : List Path) (stamp : Bytes) (b : Batch Path Bytes) (s : SetStore) (path : Path) :
    (Batch.apply (paths.map (fun p => (p, some stamp)) ++ b) s).lookup path =
      if path ∈ paths then some stamp else (b.apply s).lookup path := by
  induction paths with
  | nil => simp
  | cons p rest ih =>
    simp only [List.map_cons, List.cons_append, Batch.lookup_apply_cons, ih, List.mem_cons]
    by_cases here : path = p
    · simp [here]
    · simp [here]

/-- Where every tombstoned key stands in the commit: the best survivor takes the place of
the stored value; the other keys are left alone. -/
def TombsCommitted (env : Env) (d : Delta) (s t : SetStore) : Prop :=
  ∀ key, ((d.tombIds key).Nonempty → Buries env key s t (d.tombIds key)) ∧
    (¬ (d.tombIds key).Nonempty → Unchanged key s t)

theorem TombsCommitted.sane {env : Env} {d : Delta} {s t : SetStore} (committed : TombsCommitted env d s t)
    (sane : Sane env s) : Sane env t := by
  refine ⟨fun key x member => ?_, fun key => ?_⟩
  · by_cases buried : (d.tombIds key).Nonempty
    · exact sane.known key x (((committed key).1 buried).elems ▸ member)
    · exact sane.known key x (((committed key).2 buried).elems ▸ member)
  · by_cases buried : (d.tombIds key).Nonempty
    · obtain ⟨q, _, stores⟩ := ((committed key).1 buried).best
      exact ⟨q, stores⟩
    · obtain ⟨q, stores⟩ := sane.cells key
      exact ⟨q, ((committed key).2 buried).stores stores⟩

theorem TombsCommitted.elems_eq {env : Env} {d : Delta} {s t : SetStore} (buried : TombsCommitted env d s t) (key : Key) :
    elemsOf t key = elemsOf s key := by
  by_cases some : (d.tombIds key).Nonempty
  · exact ((buried key).1 some).elems
  · exact ((buried key).2 some).elems

theorem TombsCommitted.tombs_eq {env : Env} {d : Delta} {s t : SetStore} (buried : TombsCommitted env d s t) (key : Key) :
    tombsOf t key = tombsOf s key ∪ d.tombIds key := by
  by_cases some : (d.tombIds key).Nonempty
  · exact ((buried key).1 some).tombs
  · rw [((buried key).2 some).tombs, Set.not_nonempty_iff_eq_empty.mp some, Set.union_empty]

theorem TombsCommitted.settled {env : Env} {d : Delta} {s t : SetStore} (buried : TombsCommitted env d s t) {key : Key}
    (settled : Settled s key env) : Settled t key env := by
  by_cases some : (d.tombIds key).Nonempty
  · exact ((buried key).1 some).settled
  · exact ((buried key).2 some).settled settled

section Triple

variable {τ : Type}

/-- What the loop of `putTombs` has gathered once it has been through `done`. -/
structure Gathered (env : Env) (rely : Core τ → Core τ → Prop) (done : List Element) (b : TombBatch)
    (s : SetStore) : Prop where
  ids : ∀ key, (b.deletedElems.lookup key).getD [] = idsFor done key
  keys : ∀ key, key ∈ b.deletedElems ↔ idsFor done key ≠ []
  tombs : ∀ path, path ∈ b.tombs ↔ ∃ e ∈ done, path = tombsKey e.key e.id
  other : ∀ path, (∀ key, path ≠ valueKey key) → (∀ key, path ≠ priorityKey key) →
    ∀ t, (b.store.apply t).lookup path = t.lookup path
  untouched : ∀ key, idsFor done key = [] → ∀ t,
    (b.store.apply t).lookup (valueKey key) = t.lookup (valueKey key) ∧
    (b.store.apply t).lookup (priorityKey key) = t.lookup (priorityKey key)
  cells : ∀ key, idsFor done key ≠ [] → ∃ q, (∀ t, Stores (b.store.apply t) key q) ∧
    (Fixed rely key (idsFor done key) →
      Winner (env.ranks key (survivors s key {x | x ∈ idsFor done key})) q)

theorem Gathered.moved {env : Env} {rely : Core τ → Core τ → Prop} {done : List Element} {b : TombBatch}
    {c c' : Core τ} (gathered : Gathered env rely done b c.store) (moved : rely c c') :
    Gathered env rely done b c'.store := by
  refine ⟨gathered.ids, gathered.keys, gathered.tombs, gathered.other, gathered.untouched, fun key some => ?_⟩
  obtain ⟨q, stores, winner⟩ := gathered.cells key some
  exact ⟨q, stores, fun fixed => by rw [fixed c c' moved]; exact winner fixed⟩

/-- One more tombstone, with what `findBestValue` returned for it. -/
theorem Gathered.next {env : Env} {rely : Core τ → Core τ → Prop} {done : List Element} {b : TombBatch}
    {s : SetStore} (gathered : Gathered env rely done b s) (e : Element) {out : Option Bytes × ℕ} (stamp : Bytes)
    (bound : out.2 < word)
    (winner : Fixed rely e.key (idsFor done e.key ++ [e.id]) →
      Winner (env.ranks e.key (survivors s e.key {x | x ∈ idsFor done e.key ++ [e.id]})) (bestRank out)) :
    Gathered env rely (done ++ [e])
      { store := match out.1 with
          | none => (b.store.delete (valueKey e.key)).delete (priorityKey e.key)
          | some v => setPriority (b.store.put (valueKey e.key) v) e.key out.2
        tombs := tombsKey e.key e.id :: b.tombs
        tsBuf := stamp
        deletedElems := b.deletedElems.insert e.key (idsFor done e.key ++ [e.id]) } s := by
  obtain ⟨value, priority⟩ := out
  refine ⟨fun key => ?_, fun key => ?_, fun path => ?_, fun path noValue noPriority t => ?_,
    fun key none t => ?_, fun key some => ?_⟩
  · by_cases same : e.key = key
    · subst same
      simp [idsFor_append_self]
    · rw [idsFor_append_other same, AList.lookup_insert_ne (Ne.symm same)]
      exact gathered.ids key
  · by_cases same : e.key = key
    · subst same
      simp [idsFor_append_self]
    · rw [idsFor_append_other same, AList.mem_insert, ← gathered.keys key]
      exact ⟨fun member => member.resolve_left (Ne.symm same), Or.inr⟩
  · simp only [List.mem_cons, gathered.tombs, List.mem_append, List.mem_nil_iff, or_false]
    constructor
    · rintro (here | ⟨e', member, here⟩)
      · exact ⟨e, Or.inr rfl, here⟩
      · exact ⟨e', Or.inl member, here⟩
    · rintro ⟨e', member | rfl, here⟩
      · exact Or.inr ⟨e', member, here⟩
      · exact Or.inl here
  · cases value <;>
      simp [setPriority, noValue, noPriority, gathered.other path noValue noPriority t]
  · have other : e.key ≠ key := by
      intro same
      subst same
      simp [idsFor_append_self] at none
    rw [idsFor_append_other other] at none
    have old := gathered.untouched key none t
    cases value <;> simp [setPriority, Ne.symm other, old]
  · by_cases same : e.key = key
    · subst same
      refine ⟨bestRank (value, priority), fun t => ?_, fun fixed => ?_⟩
      · cases value with
        | none => exact ⟨by simp, by simp⟩
        | some v => exact ⟨by simp [setPriority], by simp [setPriority], bound⟩
      · rw [idsFor_append_self] at fixed ⊢
        exact winner fixed
    · rw [idsFor_append_other same] at some ⊢
      obtain ⟨q, stores, best⟩ := gathered.cells key some
      refine ⟨q, fun t => (stores t).congr ?_ ?_, best⟩
      · cases value <;> simp [setPriority, Ne.symm same]
      · cases value <;> simp [setPriority, Ne.symm same]

section Commit

variable {env : Env} {rely : Core τ → Core τ → Prop} {d : Delta} {b : TombBatch} {s : SetStore}
  (gathered : Gathered env rely d.tombstones b s)

include gathered

theorem Gathered.elems_apply (t : SetStore) (key : Key) : elemsOf (b.writes.apply t) key = elemsOf t key := by
  ext x
  have untouched : elemsKey key x ∉ b.tombs := by simp [gathered.tombs]
  simp only [elemsOf, Store.has, Set.mem_ofPred_eq, TombBatch.writes, lookup_apply_tombs, if_neg untouched,
    gathered.other (elemsKey key x) (by simp) (by simp)]

theorem Gathered.tombs_apply (t : SetStore) (key : Key) :
    tombsOf (b.writes.apply t) key = tombsOf t key ∪ d.tombIds key := by
  ext x
  simp only [tombsOf, Store.has, Set.mem_ofPred_eq, TombBatch.writes, lookup_apply_tombs, Set.mem_union]
  by_cases here : tombsKey key x ∈ b.tombs
  · obtain ⟨e, member, path⟩ := (gathered.tombs _).mp here
    obtain ⟨sameKey, sameId⟩ := tombsKey_inj.mp path
    simp only [if_pos here, Option.isSome_some, true_iff]
    exact Or.inr ⟨e, member, sameKey.symm, sameId.symm⟩
  · rw [if_neg here, gathered.other (tombsKey key x) (by simp) (by simp)]
    refine ⟨Or.inl, fun alternatives => alternatives.resolve_right ?_⟩
    rintro ⟨e, member, rfl, rfl⟩
    exact here ((gathered.tombs _).mpr ⟨e, member, rfl⟩)

theorem Gathered.cells_apply (t : SetStore) (key : Key) :
    (b.writes.apply t).lookup (valueKey key) = (b.store.apply t).lookup (valueKey key) ∧
    (b.writes.apply t).lookup (priorityKey key) = (b.store.apply t).lookup (priorityKey key) := by
  have noValue : valueKey key ∉ b.tombs := by simp [gathered.tombs]
  have noPriority : priorityKey key ∉ b.tombs := by simp [gathered.tombs]
  rw [TombBatch.writes, lookup_apply_tombs, lookup_apply_tombs, if_neg noValue, if_neg noPriority]
  exact ⟨rfl, rfl⟩

/-- The tombstoned keys get the best survivor of the store that was read, whatever the store
the batch is committed to. -/
theorem Gathered.stores_apply {key : Key} (some : (d.tombIds key).Nonempty) :
    ∃ q, (∀ t, Stores (b.writes.apply t) key q) ∧ (Fixed rely key (idsFor d.tombstones key) →
      Winner (env.ranks key (survivors s key (d.tombIds key))) q) := by
  rw [d.tombIds_eq key] at some ⊢
  have nonempty : idsFor d.tombstones key ≠ [] := by
    obtain ⟨x, member⟩ := some
    exact List.ne_nil_of_mem member
  obtain ⟨q, stores, winner⟩ := gathered.cells key nonempty
  refine ⟨q, fun t => ?_, winner⟩
  obtain ⟨value, priority⟩ := gathered.cells_apply t key
  exact (stores t).congr value priority

theorem Gathered.unchanged_apply (t : SetStore) {key : Key} (none : ¬ (d.tombIds key).Nonempty) :
    Unchanged key t (b.writes.apply t) := by
  have empty : idsFor d.tombstones key = [] := by
    by_contra some
    obtain ⟨x, member⟩ := List.exists_mem_of_ne_nil _ some
    exact none ⟨x, by rw [d.tombIds_eq key]; exact member⟩
  obtain ⟨value, priority⟩ := gathered.cells_apply t key
  obtain ⟨value', priority'⟩ := gathered.untouched key empty t
  refine ⟨gathered.elems_apply t key, ?_, value.trans value', priority.trans priority'⟩
  rw [gathered.tombs_apply, Set.not_nonempty_iff_eq_empty.mp none, Set.union_empty]

/-- Committing what was gathered to the store it was gathered from. -/
theorem Gathered.committed (fixed : ∀ key, (d.tombIds key).Nonempty → Fixed rely key (idsFor d.tombstones key)) :
    TombsCommitted env d s (b.writes.apply s) := by
  refine fun key => ⟨fun some => ?_, fun none => gathered.unchanged_apply s none⟩
  obtain ⟨q, stores, winner⟩ := gathered.stores_apply some
  exact ⟨gathered.elems_apply s key, gathered.tombs_apply s key, q, winner (fixed key some), stores s⟩

theorem Gathered.sane {t : SetStore} (sane : Sane env t) : Sane env (b.writes.apply t) := by
  refine ⟨fun key x member => ?_, fun key => ?_⟩
  · rw [gathered.elems_apply] at member
    exact sane.known key x member
  · by_cases some : (d.tombIds key).Nonempty
    · obtain ⟨q, stores, _⟩ := gathered.stores_apply some
      exact ⟨q, stores t⟩
    · obtain ⟨q, stores⟩ := sane.cells key
      exact ⟨q, (gathered.unchanged_apply t some).stores stores⟩

end Commit

variable [DecidableEq τ] {env : Env} {i : τ} {d : Delta} {id : Id} {waits : SetOp → Prop}
  {rely : Core τ → Core τ → Prop} (tol : Tolerates env i d id waits rely)

include tol in
theorem putTombs_loop_triple (todo : List Element) {done : List Element} {b : TombBatch} {w : World τ}
    (sane : Sane env w.store) (gathered : Gathered env rely done b w.store) :
    Triple env i d id waits rely (putTombs.loop todo b)
      (fun out u => Steady rely i w u ∧ Gathered env rely (done ++ todo) out u.store) w := by
  induction todo generalizing done b w with
  | nil =>
    refine triple_ret (fun u moved => ⟨moved, ?_⟩)
    rw [List.append_nil]
    exact gathered.moved moved.1
  | cons e rest ih =>
    apply tol.bind
    refine (findBestValue_triple tol sane).mono ?_
    rintro out t ⟨first, bound, winner⟩
    apply tol.bind
    refine triple_now tol (fun now u second => ?_)
    have moved := tol.steady_trans _ _ _ first second
    rw [gathered.ids e.key] at winner ⊢
    have next := (gathered.moved moved.1).next e (putUint64 (unixSeconds now)) bound
      (fun fixed => by rw [fixed _ _ moved.1]; exact winner fixed)
    refine (ih (tol.sane moved sane) next).mono ?_
    rintro out' v ⟨later, result⟩
    refine ⟨tol.steady_trans _ _ _ moved later, ?_⟩
    rw [List.append_assoc] at result
    exact result

include tol in
theorem runDeleteHooks_triple (keys : List Key) {w : World τ} :
    Triple env i d id waits rely (runDeleteHooks keys)
      (fun _ u => rely w.toCore u.toCore ∧ u.hooks i = w.hooks i ++ keys.map Hook.delete) w := by
  induction keys generalizing w with
  | nil => exact triple_ret (fun u moved => ⟨moved.1, by simpa using moved.2⟩)
  | cons key rest ih =>
    apply tol.bind
    refine triple_hook tol (fun t first called => ?_)
    refine ih.mono ?_
    rintro _ u ⟨second, more⟩
    exact ⟨tol.trans _ _ _ first second, by rw [more, called]; simp⟩

/-- What `putTombs` leaves behind: one commit of the delta's tombstones on the state of that
moment, then the delete hook once for every tombstoned key. -/
def TombsDone (env : Env) (i : τ) (d : Delta) (rely : Core τ → Core τ → Prop) (w u : World τ) : Prop :=
  ∃ b c : Core τ, rely w.toCore b ∧ c.mutex = b.mutex ∧ TombsCommitted env d b.store c.store ∧
    rely c u.toCore ∧ ∃ keys : List Key, keys.Nodup ∧ (∀ key, key ∈ keys ↔ (d.tombIds key).Nonempty) ∧
      u.hooks i = w.hooks i ++ keys.map Hook.delete

include tol in
theorem putTombs_triple {w : World τ} (sane : Sane env w.store) :
    Triple env i d id waits rely (putTombs d.tombstones) (fun _ u => TombsDone env i d rely w u) w := by
  have fixed : ∀ key, (d.tombIds key).Nonempty → Fixed rely key (idsFor d.tombstones key) := by
    intro key some b c moved
    rw [← d.tombIds_eq key]
    exact (tol.quiet b c moved).survivors key some
  unfold putTombs
  split
  · rename_i empty
    have none : ∀ key, ¬ (d.tombIds key).Nonempty := by
      rintro key ⟨x, e, member, _⟩
      rw [List.isEmpty_iff.mp empty] at member
      cases member
    refine triple_ret (fun u moved => ?_)
    refine ⟨w.toCore, w.toCore, tol.refl _, rfl, fun key => ⟨fun some => absurd some (none key),
      fun _ => Unchanged.refl key _⟩, moved.1, [], List.nodup_nil, fun key => ?_, by simpa using moved.2⟩
    simpa using none key
  · apply tol.bind
    have start : Gathered env rely [] {} w.store :=
      ⟨fun key => rfl, fun key => by simp [idsFor], fun path => by simp, fun path _ _ t => rfl,
        fun key _ t => ⟨rfl, rfl⟩, fun key some => absurd rfl some⟩
    refine (putTombs_loop_triple tol d.tombstones sane start).mono ?_
    rintro b t ⟨first, gathered⟩
    apply tol.bind
    intro c moved
    have together := tol.steady_trans _ _ _ first moved
    have committed := (gathered.moved moved.1).committed fixed
    refine ⟨Or.inr rfl, fun _ v step => ?_⟩
    obtain ⟨_, rfl⟩ := Prod.mk.inj (Option.some.inj step)
    refine ⟨⟨fun sane' => committed.sane sane', Or.inl rfl, fun _ _ => rfl, fun key => ?_⟩, fun z second => ?_⟩
    · by_cases buried : (d.tombIds key).Nonempty
      · exact Or.inr (Or.inl ⟨buried, tol.sane together sane, (committed key).1 buried⟩)
      · exact Or.inl ((committed key).2 buried)
    · apply tol.bind
      refine triple_range (fun y x third fourth => ?_)
      refine (runDeleteHooks_triple tol _).mono ?_
      rintro _ u ⟨fifth, called⟩
      have later := tol.steady_trans _ _ _ second (tol.steady_trans _ _ _ third fourth)
      have order := env.mapOrder_perm b.deletedElems.keys
      refine ⟨c.toCore, { c with store := b.writes.apply c.store }, together.1, rfl, committed,
        tol.trans _ _ _ later.1 fifth, env.mapOrder b.deletedElems.keys,
        order.nodup_iff.mpr b.deletedElems.keys_nodup, fun key => ?_, ?_⟩
      · rw [order.mem_iff, ← AList.mem_keys, gathered.keys key, List.nil_append, d.tombIds_eq key]
        constructor
        · intro some
          exact List.exists_mem_of_ne_nil _ some
        · rintro ⟨x, member⟩
          exact List.ne_nil_of_mem member
      · rw [called, later.2]
        exact congrArg (· ++ _) together.2

end Triple

end OpenTela
