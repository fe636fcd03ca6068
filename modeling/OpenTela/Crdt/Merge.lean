import OpenTela.Crdt.PutTombs
import OpenTela.Crdt.PutElems

namespace OpenTela

open OpenTela.SetM

section Accepts

variable {τ : Type} {env : Env} {i : τ} {d : Delta} {id : Id} {b c : Core τ}

/-- While the mutex is held the outcome of the test does not change. A block among the
delta's own tombstones has already been tombstoned by then. -/
theorem Quiet.accepts_eq (quiet : Quiet env i d id b c) (mine : b.mutex = some i) {e : Element}
    (member : e ∈ d.elements) (buried : id ∈ d.tombIds e.key → id ∈ tombsOf b.store e.key) (prio : ℕ) :
    accepts c.store e.key id e.value prio = accepts b.store e.key id e.value prio := by
  by_cases own : id ∈ d.tombIds e.key
  · have before : b.store.has (tombsKey e.key id) = true := buried own
    have after : c.store.has (tombsKey e.key id) = true := quiet.tombs e.key (buried own)
    simp [accepts, before, after]
  · obtain ⟨value, priority, tomb⟩ := quiet.locked mine e.key (List.mem_map_of_mem member) own
    have sameTomb : c.store.has (tombsKey e.key id) = b.store.has (tombsKey e.key id) :=
      Bool.eq_iff_iff.mpr tomb
    have samePriority : curPriority c.store e.key = curPriority b.store e.key := by
      simp only [curPriority, priority]
    simp only [accepts, value, samePriority, sameTomb]

theorem Quiet.elemWrites_eq (quiet : Quiet env i d id b c) (mine : b.mutex = some i)
    (buried : ∀ key, id ∈ d.tombIds key → id ∈ tombsOf b.store key) (prio : ℕ) {elems : List Element}
    (within : ∀ e ∈ elems, e ∈ d.elements) (writes : Batch Path Bytes) :
    elemWrites c.store id prio elems writes = elemWrites b.store id prio elems writes ∧
      putHooks c.store id prio elems = putHooks b.store id prio elems := by
  induction elems generalizing writes with
  | nil => exact ⟨rfl, rfl⟩
  | cons e rest ih =>
    have same := quiet.accepts_eq mine (within e (List.mem_cons_self ..)) (buried e.key) prio
    obtain ⟨tail, hooks⟩ := ih (fun e' member => within e' (List.mem_cons_of_mem _ member))
      (if accepts b.store e.key id e.value prio then
        setPriority ((writes.put (elemsKey e.key id) []).put (valueKey e.key) e.value) e.key prio
      else writes.put (elemsKey e.key id) [])
    refine ⟨by simpa only [elemWrites, same] using tail, ?_⟩
    simp only [putHooks, List.filter_cons, same] at hooks ⊢
    split
    · simp only [List.map_cons, hooks]
    · exact hooks

end Accepts

section Triple

variable {τ : Type} [DecidableEq τ] {env : Env} {i : τ} {d : Delta} {id : Id} {waits : SetOp → Prop}
  {rely : Core τ → Core τ → Prop} (tol : Tolerates env i d id waits rely)

/-- The cells of one key, as they stay while the mutex is held. -/
def Locked (rely : Core τ → Core τ → Prop) (i : τ) (key : Key) (w : World τ) : Prop :=
  ∀ t : World τ, Steady rely i w t → t.store.lookup (valueKey key) = w.store.lookup (valueKey key) ∧
    t.store.lookup (priorityKey key) = w.store.lookup (priorityKey key)

include tol in
theorem getPriority_triple {key : Key} {q : Option Rank} {w u : World τ} (locked : Locked rely i key w)
    (stores : Stores w.store key q) (moved : Steady rely i w u) :
    Triple env i d id waits rely (getPriority key)
      (fun p u => p = curPriority w.store key ∧ Steady rely i w u) u := by
  apply tol.bind
  refine triple_get (fun t v first second => ?_)
  have moved' := tol.steady_trans _ _ _ moved first
  have later := tol.steady_trans _ _ _ moved' second
  rw [(locked t moved').2]
  cases q with
  | none =>
    simp only [curPriority, stores.2]
    exact triple_ret (fun z last => ⟨rfl, tol.steady_trans _ _ _ later last⟩)
  | some r =>
    have wrapped : ((ofLex r).1 + 1) % word < word := Nat.mod_lt _ (by decide)
    simp only [curPriority, stores.2.1, uvarint_putUvarint wrapped, Option.getD_some]
    exact triple_ret (fun z last => ⟨rfl, tol.steady_trans _ _ _ later last⟩)

include tol in
/-- The comparison of two equal priorities falls to the stored value. -/
theorem keepsCurrent_triple {key : Key} {value : Bytes} {prio : ℕ} {w u : World τ} (locked : Locked rely i key w)
    (clear : w.store.has (tombsKey key id) = false) (moved : Steady rely i w u)
    (reaches : ¬ prio < curPriority w.store key) :
    Triple env i d id waits rely (keepsCurrent key value prio (curPriority w.store key))
      (fun keep u => keep = !accepts w.store key id value prio ∧ Steady rely i w u) u := by
  unfold keepsCurrent
  by_cases equal : prio = curPriority w.store key
  · rw [if_pos equal]
    apply tol.bind
    refine triple_get (fun t v first second => ?_)
    have moved' := tol.steady_trans _ _ _ moved first
    refine triple_ret (fun z last => ⟨?_, tol.steady_trans _ _ _ moved' (tol.steady_trans _ _ _ second last)⟩)
    rw [(locked t moved').1]
    simp [accepts, clear, equal]
  · rw [if_neg equal]
    refine triple_ret (fun z last => ⟨?_, tol.steady_trans _ _ _ moved last⟩)
    simp [accepts, clear, show curPriority w.store key < prio by omega]

/-- What `setValue` leaves behind: what `accepts` says on the state it started in has been done. -/
def ValueSet (rely : Core τ → Core τ → Prop) (i : τ) (id : Id) (writes : Batch Path Bytes) (e : Element) (prio : ℕ) (w : World τ)
    (out : Batch Path Bytes) (u : World τ) : Prop :=
  rely w.toCore u.toCore ∧
    out = (if accepts w.store e.key id e.value prio then setPriority (writes.put (valueKey e.key) e.value) e.key prio else writes) ∧
    u.hooks i = w.hooks i ++ (if accepts w.store e.key id e.value prio then [Hook.put e.key e.value] else [])

include tol in
/-- A value that is not accepted changes nothing. -/
theorem refuse_triple {writes : Batch Path Bytes} {e : Element} {prio : ℕ} {w t : World τ} (moved : Steady rely i w t)
    (refused : accepts w.store e.key id e.value prio = false) :
    Triple env i d id waits rely (pure writes) (ValueSet rely i id writes e prio w) t := by
  refine triple_ret (fun u later => ?_)
  have together := tol.steady_trans _ _ _ moved later
  exact ⟨together.1, by simp [refused], by simp [refused, together.2]⟩

include tol in
/-- `setValue` under the mutex does what `accepts` says on the state it started in. -/
theorem setValue_triple {writes : Batch Path Bytes} {e : Element} {prio : ℕ} {w : World τ}
    (sane : Sane env w.store) (mine : w.mutex = some i) (member : e ∈ d.elements)
    (buried : id ∈ d.tombIds e.key → id ∈ tombsOf w.store e.key) :
    Triple env i d id waits rely (setValue writes e.key id e.value prio) (ValueSet rely i id writes e prio w) w := by
  apply tol.bind
  refine triple_has (fun t u first second => ?_)
  have moved := tol.steady_trans _ _ _ first second
  cases tomb : t.store.has (tombsKey e.key id) with
  | true =>
    refine refuse_triple tol moved ?_
    rw [← (tol.quiet _ _ first.1).accepts_eq mine member buried prio]
    simp [accepts, tomb]
  | false =>
    have own : id ∉ d.tombIds e.key := fun here => by
      have still : t.store.has (tombsKey e.key id) = true := (tol.quiet _ _ first.1).tombs e.key (buried here)
      rw [tomb] at still
      cases still
    have locked : Locked rely i e.key w := fun t moved =>
      have cells := (tol.quiet _ _ moved.1).locked mine e.key (List.mem_map_of_mem member) own
      ⟨cells.1, cells.2.1⟩
    have clear : w.store.has (tombsKey e.key id) = false := Bool.eq_false_iff.mpr (fun here => by
      have still : t.store.has (tombsKey e.key id) = true := (tol.quiet _ _ first.1).tombs e.key here
      rw [tomb] at still
      cases still)
    obtain ⟨q, stores⟩ := sane.cells e.key
    apply tol.bind
    refine (getPriority_triple tol locked stores moved).mono ?_
    rintro p v ⟨rfl, third⟩
    by_cases lower : prio < curPriority w.store e.key
    · rw [if_pos lower]
      refine refuse_triple tol third ?_
      simp [accepts, show ¬ curPriority w.store e.key < prio by omega,
        show prio ≠ curPriority w.store e.key by omega]
    · rw [if_neg lower]
      apply tol.bind
      refine (keepsCurrent_triple tol locked clear third lower).mono ?_
      rintro keep z ⟨rfl, fourth⟩
      cases accepted : accepts w.store e.key id e.value prio with
      | false => exact refuse_triple tol fourth accepted
      | true =>
        apply tol.bind
        refine triple_hook tol (fun y fifth called => ?_)
        refine triple_ret (fun x last => ⟨?_, by simp [accepted], ?_⟩)
        · exact tol.trans _ _ _ fourth.1 (tol.trans _ _ _ fifth last.1)
        · rw [last.2, called, fourth.2]
          simp [accepted]

include tol in
theorem putElems_loop_triple {prio : ℕ} (elems : List Element) {writes : Batch Path Bytes} {w : World τ}
    (sane : Sane env w.store) (mine : w.mutex = some i) (within : ∀ e ∈ elems, e ∈ d.elements)
    (buried : ∀ key, id ∈ d.tombIds key → id ∈ tombsOf w.store key) :
    Triple env i d id waits rely (putElems.loop id prio elems writes)
      (fun out u => rely w.toCore u.toCore ∧ out = elemWrites w.store id prio elems writes ∧
        u.hooks i = w.hooks i ++ putHooks w.store id prio elems) w := by
  induction elems generalizing writes w with
  | nil => exact triple_ret (fun u moved => ⟨moved.1, rfl, by simpa [putHooks] using moved.2⟩)
  | cons e rest ih =>
    have within' : ∀ e' ∈ rest, e' ∈ d.elements := fun e' member => within e' (List.mem_cons_of_mem _ member)
    apply tol.bind
    refine (setValue_triple tol sane mine (within e (List.mem_cons_self ..)) (buried e.key)).mono ?_
    rintro out u ⟨moved, rfl, called⟩
    have quiet := tol.quiet _ _ moved
    refine (ih (quiet.sane sane) (quiet.mutex.mp mine) within'
      (fun key own => quiet.tombs key (buried key own))).mono ?_
    rintro out v ⟨later, rfl, more⟩
    refine ⟨tol.trans _ _ _ moved later, ?_, ?_⟩
    · rw [(quiet.elemWrites_eq mine buried prio within' _).1]
      simp only [elemWrites]
    · rw [more, called, (quiet.elemWrites_eq mine buried prio within' []).2, List.append_assoc]
      congr 1
      simp only [putHooks, List.filter_cons]
      split <;> simp

/-- What `putElems` leaves behind: under the mutex, one commit of the delta's elements on
the state of that moment and the put hooks of those that were accepted. -/
def ElemsDone (env : Env) (i : τ) (d : Delta) (id : Id) (rely : Core τ → Core τ → Prop) (w u : World τ) : Prop :=
  ∃ a b c e : Core τ, rely w.toCore a ∧ a.mutex = none ∧ rely { a with mutex := some i } b ∧
    c.mutex = b.mutex ∧ ElemsCommitted env d id b.store c.store ∧ rely c e ∧
    rely { e with mutex := none } u.toCore ∧ u.hooks i = w.hooks i ++ putHooks b.store id d.priority d.elements

include tol in
/-- The last step of `putElems`: the deferred unlock, on what the body has committed. -/
theorem unlock_triple {w t z : World τ} {b c : Core τ} (first : rely w.toCore t.toCore) (unlocked : t.mutex = none)
    (before : rely { t.toCore with mutex := some i } b) (held : c.mutex = b.mutex)
    (committed : ElemsCommitted env d id b.store c.store) (after : rely c z.toCore)
    (called : z.hooks i = w.hooks i ++ putHooks b.store id d.priority d.elements) :
    Triple env i d id waits rely (Prog.bind unlock (fun _ => Prog.ret ()))
      (fun _ u => ElemsDone env i d id rely w u) z := by
  apply Prog.Holds.bind tol.steady_refl
  intro y third
  refine ⟨Or.inr rfl, fun _ x step => ?_⟩
  obtain ⟨_, rfl⟩ := Prod.mk.inj (Option.some.inj step)
  have owner : y.mutex = some i := by
    have start : b.mutex = some i := (tol.quiet _ _ before).mutex.mp rfl
    exact (tol.quiet _ _ third.1).mutex.mp ((tol.quiet _ _ after).mutex.mp (held.trans start))
  refine ⟨Acts.silent rfl (Or.inr (Or.inr ⟨owner, rfl⟩)) (fun _ _ => rfl), fun x' last => ?_⟩
  refine triple_ret (fun u tail => ?_)
  refine ⟨t.toCore, b, c, y.toCore, first, unlocked, before, held, committed,
    tol.trans _ _ _ after third.1, tol.trans _ _ _ last.1 tail.1, ?_⟩
  rw [tail.2, last.2, ← called]
  exact third.2

include tol in
theorem putElems_triple {w : World τ} (orderly : d.Orderly id) (block : env.dag id = some d)
    (sane : Sane env w.store) (free : waits .lock ∨ w.mutex = none)
    (buried : ∀ key, id ∈ d.tombIds key → id ∈ tombsOf w.store key) :
    Triple env i d id waits rely (putElems d.elements id d.priority) (fun _ u => ElemsDone env i d id rely w u) w := by
  apply tol.bind
  intro t first
  refine ⟨?_, fun _ u step => ?_⟩
  · refine (tol.free _ _ first.1 free).imp_right (fun none => ?_)
    simp [exec, none]
  have unlocked : t.mutex = none := by
    cases held : t.mutex with
    | none => rfl
    | some j => simp [exec, held] at step
  simp only [exec, unlocked] at step
  obtain ⟨_, rfl⟩ := Prod.mk.inj (Option.some.inj step)
  refine ⟨Acts.silent rfl (Or.inr (Or.inl ⟨unlocked, rfl⟩)) (fun _ _ => rfl), fun v second => ?_⟩
  have quiet₁ := tol.quiet _ _ first.1
  have quiet₂ := tol.quiet _ _ second.1
  have sane₁ := quiet₂.sane (quiet₁.sane sane)
  have mine : v.mutex = some i := quiet₂.mutex.mp rfl
  have buried₁ : ∀ key, id ∈ d.tombIds key → id ∈ tombsOf v.store key :=
    fun key own => quiet₂.tombs key (quiet₁.tombs key (buried key own))
  apply Prog.Holds.ensure tol.steady_refl
  by_cases empty : d.elements.isEmpty = true
  · rw [if_pos empty]
    refine triple_ret (fun z third => ?_)
    have nothing : d.elements = [] := List.isEmpty_iff.mp empty
    refine unlock_triple tol first.1 unlocked second.1 rfl (fun key => ⟨fun own => ?_, fun _ => Unchanged.refl key _⟩)
      third.1 ?_
    · simp [Delta.keys, nothing] at own
    · rw [third.2, second.2, nothing]
      simpa [putHooks] using first.2
  · rw [if_neg empty]
    apply tol.bind
    refine (putElems_loop_triple tol d.elements sane₁ mine (fun _ member => member) buried₁).mono ?_
    rintro out z ⟨third, rfl, called⟩
    intro y fourth
    refine ⟨Or.inr rfl, fun _ x step => ?_⟩
    obtain ⟨_, rfl⟩ := Prod.mk.inj (Option.some.inj step)
    have held := tol.trans _ _ _ third fourth.1
    have quiet₃ := tol.quiet _ _ held
    have same := quiet₃.elemWrites_eq mine buried₁ d.priority (fun _ member => member) []
    have committed := elemWrites_committed (s := y.store) orderly block
      (fun key own => quiet₃.tombs key (buried₁ key own))
    rw [same.1] at committed
    refine ⟨⟨committed.sane orderly.ranked block, Or.inl rfl, fun _ _ => rfl, fun key => ?_⟩, fun x' last => ?_⟩
    · by_cases own : key ∈ d.keys
      · exact Or.inr (Or.inr ⟨quiet₃.mutex.mp mine, own, (committed key).1 own⟩)
      · exact Or.inl ((committed key).2 own)
    · refine unlock_triple tol (b := y.toCore)
        (c := { y.toCore with store := (elemWrites v.store id d.priority d.elements []).apply y.store })
        first.1 unlocked (tol.trans _ _ _ second.1 held) rfl committed last.1 ?_
      rw [last.2, same.2, ← first.2, ← second.2, ← called]
      exact fourth.2

include tol in
/-- `Merge` of an orderly delta whose block the DAG service has never fails, and every
step it takes is a promised one. -/
theorem merge_triple {w : World τ} (orderly : d.Orderly id) (block : env.dag id = some d)
    (sane : Sane env w.store) (free : waits .lock ∨ w.mutex = none) :
    Triple env i d id waits rely (merge d id)
      (fun _ u => ∃ v, TombsDone env i d rely w v ∧ ElemsDone env i d id rely v u) w := by
  apply tol.bind
  refine (putTombs_triple tol sane).mono ?_
  intro _ v done
  have ⟨b, c, before, held, committed, after, _⟩ := done
  have quiet₁ := tol.quiet _ _ before
  have quiet₂ := tol.quiet _ _ after
  refine (putElems_triple tol orderly block (quiet₂.sane (committed.sane (quiet₁.sane sane))) ?_ ?_).mono ?_
  · refine tol.free _ _ after ?_
    rw [held]
    exact tol.free _ _ before free
  · intro key own
    refine quiet₂.tombs key ?_
    rw [((committed key).1 ⟨id, own⟩).tombs]
    exact Or.inr own
  · intro _ u rest
    exact ⟨v, done, rest⟩

end Triple

section Alone

variable {τ : Type} {env : Env} {i : τ} {d : Delta} {id : Id}

theorem Quiet.refl (b : Core τ) : Quiet env i d id b b :=
  ⟨fun sane => sane, Iff.rfl, fun _ => subset_rfl, fun _ => subset_rfl, fun _ _ => rfl,
    fun _ _ _ _ => ⟨rfl, rfl, Iff.rfl⟩⟩

/-- With nobody else there, the thread need not wait for the mutex. -/
theorem Tolerates.alone : Tolerates env i d id (fun _ => False) Eq where
  refl := fun _ => rfl
  trans := fun _ _ _ => Eq.trans
  quiet := by
    rintro b _ rfl
    exact Quiet.refl b
  free := by
    rintro b _ rfl free
    exact free

variable [DecidableEq τ]

/-- With nobody else there, a triple gives a run. -/
theorem triple_run {α : Type} {p : SetM α} {post : α → World τ → Prop} {w : World τ}
    (triple : Triple env i d id (fun _ => False) Eq p post w) :
    ∃ a u, p.run (exec env i) w = some (.ok a, u) ∧ post a u := by
  -- The rely is equality on the shared state; the rest of the world may still be renamed.
  have quiet : Prog.Holds (exec env i) (fun _ => False) Eq (Acts env i d id) p post w := by
    refine triple.weaken ?_ (fun _ _ own => own) (fun _ waiting => waiting)
    rintro w' _ rfl
    exact ⟨rfl, rfl⟩
  obtain ⟨a, u, run, _, final⟩ := quiet.run_alone
  exact ⟨a, u, run, final⟩

/-- One merge on its own: it returns, having committed the tombstones and then the
elements, with the hook calls of both in that order. -/
theorem merge_run {w : World τ} (orderly : d.Orderly id) (block : env.dag id = some d)
    (sane : Sane env w.store) (free : w.mutex = none) :
    ∃ u s, (merge d id).run (exec env i) w = some (.ok (), u) ∧ u.mutex = none ∧
      TombsCommitted env d w.store s ∧ ElemsCommitted env d id s u.store ∧
      ∃ keys : List Key, keys.Nodup ∧ (∀ key, key ∈ keys ↔ (d.tombIds key).Nonempty) ∧
        u.hooks i = w.hooks i ++ keys.map Hook.delete ++ putHooks s id d.priority d.elements := by
  obtain ⟨_, u, run, v, ⟨b, c, rfl, held, buried, atV, keys, nodup, members, deleted⟩,
    ⟨a', b', c', e', rfl, _, rfl, _, added, rfl, atU, put⟩⟩ :=
    triple_run (merge_triple (i := i) Tolerates.alone orderly block sane (Or.inr free))
  have store : u.store = c'.store := by rw [← atU]
  refine ⟨u, c.store, run, by rw [← atU], buried, ?_, keys, nodup, members, ?_⟩
  · rw [store, atV]
    exact added
  · rw [put, deleted, atV]

end Alone

end OpenTela
