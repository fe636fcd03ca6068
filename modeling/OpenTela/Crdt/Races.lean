import OpenTela.Crdt.Concurrent

namespace OpenTela

open OpenTela.SetM

section Runs

variable {τ : Type} [DecidableEq τ] {env : Env} {i : τ} {d : Delta} {id : Id} {w : World τ}

theorem putTombs_run (sane : Sane env w.store) :
    ∃ u, (putTombs d.tombstones).run (exec env i) w = some (.ok (), u) ∧ u.mutex = w.mutex ∧
      TombsCommitted env d w.store u.store := by
  obtain ⟨_, u, run, b, c, rfl, held, buried, atU, _⟩ :=
    triple_run (putTombs_triple (Tolerates.alone : Tolerates env i d "" _ _) sane)
  exact ⟨u, run, by rw [← atU, held], by rw [← atU]; exact buried⟩

theorem putElems_run (orderly : d.Orderly id) (block : env.dag id = some d) (sane : Sane env w.store)
    (free : w.mutex = none) (buried : ∀ key, id ∈ d.tombIds key → id ∈ tombsOf w.store key) :
    ∃ u, (putElems d.elements id d.priority).run (exec env i) w = some (.ok (), u) ∧ u.mutex = none ∧
      ElemsCommitted env d id w.store u.store := by
  obtain ⟨_, u, run, a, b, c, e, rfl, _, rfl, _, added, rfl, atU, _⟩ :=
    triple_run (putElems_triple (i := i) Tolerates.alone orderly block sane (Or.inr free) buried)
  exact ⟨u, run, by rw [← atU], by rw [← atU]; exact added⟩

/-- The reads of `putTombs`, before anything is committed. -/
theorem putTombs_reads (sane : Sane env w.store) :
    ∃ b u, (putTombs.loop d.tombstones {}).run (exec env i) w = some (.ok b, u) ∧ u.toCore = w.toCore ∧
      Gathered env (Eq : Core τ → Core τ → Prop) d.tombstones b w.store := by
  have start : Gathered env (Eq : Core τ → Core τ → Prop) [] {} w.store :=
    ⟨fun key => rfl, fun key => by simp [idsFor], fun path => by simp, fun path _ _ t => rfl,
      fun key _ t => ⟨rfl, rfl⟩, fun key some => absurd rfl some⟩
  obtain ⟨b, u, run, moved, gathered⟩ :=
    triple_run (putTombs_loop_triple (Tolerates.alone : Tolerates env i d "" _ _) d.tombstones sane start)
  exact ⟨b, u, run, moved.1.symm, by rw [← moved.1] at gathered; exact gathered⟩

def finishTombs (b : TombBatch) : SetM Unit := do
  commit b.writes
  runDeleteHooks (← range b.deletedElems.keys)

theorem putTombs_eq {tombs : List Element} (some : tombs ≠ []) :
    putTombs tombs = (putTombs.loop tombs {}).bind finishTombs := by
  have nonempty : ¬ tombs.isEmpty = true := fun empty => some (List.isEmpty_iff.mp empty)
  rw [putTombs, if_neg nonempty]
  rfl

/-- The end of `putTombs` commits what was gathered to the store it finds. -/
theorem finishTombs_run (env : Env) (i : τ) (w : World τ) (b : TombBatch) :
    ∃ u, (finishTombs b).run (exec env i) w = some (.ok (), u) ∧ u.mutex = w.mutex ∧
      u.store = b.writes.apply w.store := by
  let nothing : Delta := { elements := [], tombstones := [], priority := 0, priority_lt := by decide }
  obtain ⟨_, u, run, moved, _⟩ := triple_run
    (runDeleteHooks_triple (Tolerates.alone : Tolerates env i nothing "" _ _) (env.mapOrder b.deletedElems.keys)
      (w := { w with store := b.writes.apply w.store }))
  refine ⟨u, run, ?_, ?_⟩
  · rw [← moved]
  · rw [← moved]

/-- The comparisons of `putElems`, before anything is committed. -/
theorem putElems_reads (sane : Sane env w.store) (mine : w.mutex = some i)
    (buried : ∀ key, id ∈ d.tombIds key → id ∈ tombsOf w.store key) :
    ∃ u, (putElems.loop id d.priority d.elements []).run (exec env i) w =
      some (.ok (elemWrites w.store id d.priority d.elements []), u) ∧ u.toCore = w.toCore := by
  obtain ⟨_, u, run, moved, rfl, _⟩ := triple_run
    (putElems_loop_triple (i := i) Tolerates.alone d.elements sane mine (fun _ member => member) buried)
  exact ⟨u, run, moved.symm⟩

/-- Whatever the delta, `putElems` on its own commits what its tests on the store it finds say. -/
theorem putElems_writes (d : Delta) (id : Id) (sane : Sane env w.store) (free : w.mutex = none)
    (buried : ∀ key, id ∈ d.tombIds key → id ∈ tombsOf w.store key) :
    ∃ u, (putElems d.elements id d.priority).run (exec env i) w = some (.ok (), u) ∧ u.mutex = none ∧
      u.store = (elemWrites w.store id d.priority d.elements []).apply w.store := by
  let w₁ : World τ := { w with mutex := some i }
  obtain ⟨v, reads, same⟩ := putElems_reads (w := w₁) (i := i) (d := d) sane rfl buried
  have store : v.store = w.store := by rw [same]
  let written := (elemWrites w.store id d.priority d.elements []).apply v.store
  refine ⟨{ v with store := written, mutex := none }, ?_, rfl, congrArg _ store⟩
  have body : (putElems.loop id d.priority d.elements [] >>= commit).run (exec env i) w₁ =
      some (.ok (), { v with store := written }) := by
    rw [Prog.bind_eq, Prog.run_bind reads]
    rfl
  have locked : (lock : SetM Unit).run (exec env i) w = some (.ok (), w₁) := by
    simp only [lock, Prog.perform, Prog.run, exec, free]
    rfl
  rw [putElems, Prog.bind_eq, Prog.run_bind locked]
  by_cases empty : d.elements.isEmpty = true
  · have nothing : d.elements = [] := List.isEmpty_iff.mp empty
    have untouched : written = v.store := by
      simp only [written, nothing]
      rfl
    rw [if_pos empty, Prog.run_ensure (a := ()) (t := v)]
    · rw [untouched]
      rfl
    · rw [nothing] at reads
      obtain ⟨_, rfl⟩ := Prod.mk.inj (Option.some.inj reads)
      rfl
  · rw [if_neg empty, Prog.run_ensure body]
    rfl

/-- Whatever the delta, so does `Merge`, after its tombstones. -/
theorem merge_writes (d : Delta) (id : Id) (sane : Sane env w.store) (free : w.mutex = none) :
    ∃ u s, (merge d id).run (exec env i) w = some (.ok (), u) ∧ u.mutex = none ∧ TombsCommitted env d w.store s ∧
      u.store = (elemWrites s id d.priority d.elements []).apply s := by
  obtain ⟨v, tombs, mutex, buried⟩ := putTombs_run (i := i) (d := d) sane
  obtain ⟨u, adds, unlocked, store⟩ := putElems_writes (i := i) d id (buried.sane sane) (mutex.trans free)
    (fun key named => by rw [buried.tombs_eq]; exact Or.inr named)
  exact ⟨u, v.store, by rw [merge, Prog.bind_eq, Prog.run_bind tombs]; exact adds, unlocked, buried, store⟩

theorem elemWrites_sane {s t : SetStore} (ranked : d.Ranked) (block : env.dag id = some d) (sane : Sane env t) :
    Sane env ((elemWrites s id d.priority d.elements []).apply t) := by
  refine ⟨fun key x member => ?_, fun key => ?_⟩
  · rcases (elems_elemWrites s t id d.priority d.elements key x).mp member with old | ⟨rfl, own⟩
    · exact sane.known key x old
    · exact ranked.known block own
  · obtain ⟨q, stores⟩ := sane.cells key
    have value := lookup_elemWrites_value s t id d.priority d.elements [] key
    have priority := lookup_elemWrites_priority s t id d.priority d.elements [] key
    rw [Batch.lookup_apply_nil] at value priority
    by_cases accepted : ∃ e ∈ d.elements, e.key = key ∧ accepts s key id e.value d.priority = true
    · obtain ⟨v, left⟩ := taken_isSome accepted (t.lookup (valueKey key))
      exact ⟨some (toLex (d.priority, v)), value.trans left, priority.trans (if_pos accepted), d.priority_lt⟩
    · refine ⟨q, stores.congr (value.trans (taken_of_refused (fun e member own => ?_) _)) (priority.trans (if_neg accepted))⟩
      exact Bool.eq_false_iff.mpr (fun test => accepted ⟨e, member, own, test⟩)

/-- What survives once the elements of a block have been written: what did before, and the block itself
where it has an element of the key and is not tombstoned. -/
theorem survivors_elemWrites (s t : SetStore) (prio : ℕ) (elements : List Element) (key : Key) (x : Id) :
    x ∈ survivors ((elemWrites s id prio elements []).apply t) key ∅ ↔
      x ∈ survivors t key ∅ ∨ x = id ∧ key ∈ elements.map Element.key ∧ id ∉ tombsOf t key := by
  simp only [survivors, Set.mem_ofPred_eq, elems_elemWrites, tombs_elemWrites, Set.mem_empty_iff_false, not_false_eq_true, and_true]
  constructor
  · rintro ⟨old | ⟨rfl, own⟩, alive⟩
    · exact Or.inl ⟨old, alive⟩
    · exact Or.inr ⟨rfl, own, alive⟩
  · rintro (⟨old, alive⟩ | ⟨rfl, own, alive⟩)
    · exact ⟨Or.inl old, alive⟩
    · exact ⟨Or.inr ⟨rfl, own⟩, alive⟩

/-- Nothing is stored for the key, and nothing of it is alive. -/
structure Bare (s : SetStore) (key : Key) : Prop where
  absent : Stores s key none
  dead : survivors s key ∅ = ∅

theorem Bare.tombs {s t : SetStore} {key : Key} (bare : Bare s key) (buried : TombsCommitted env d s t) : Bare t key := by
  by_cases some : (d.tombIds key).Nonempty
  · have buries := (buried key).1 some
    have none : survivors s key (d.tombIds key) = ∅ := by
      refine Set.eq_empty_iff_forall_notMem.mpr (fun x member => ?_)
      exact Set.eq_empty_iff_forall_notMem.mp bare.dead x ⟨member.1, member.2.1, by simp⟩
    obtain ⟨q, winner, stores⟩ := buries.best
    refine ⟨?_, ?_⟩
    · cases q with
      | none => exact stores
      | some r =>
        obtain ⟨x, alive, _⟩ := winner.1
        rw [none] at alive
        exact alive.elim
    · refine Set.eq_empty_iff_forall_notMem.mpr (fun x member => ?_)
      refine Set.eq_empty_iff_forall_notMem.mp none x ⟨buries.elems ▸ member.1, fun tomb => member.2.1 ?_, fun named => member.2.1 ?_⟩
      · exact buries.tombs ▸ Or.inl tomb
      · exact buries.tombs ▸ Or.inr named
  · have same := (buried key).2 some
    exact ⟨same.stores bare.absent, by rw [same.survivors]; exact bare.dead⟩

/-- The writes of a tombstoned element leave the key bare. -/
theorem Bare.writes {s : SetStore} {key : Key} (bare : Bare s key) (buried : id ∈ tombsOf s key) :
    Bare ((elemWrites s id d.priority d.elements []).apply s) key := by
  refine ⟨bare.absent.congr ?_ ?_, Set.eq_empty_iff_forall_notMem.mpr (fun x member => ?_)⟩
  · rw [lookup_elemWrites_value, Batch.lookup_apply_nil, taken_of_refused (fun e _ _ => accepts_dead buried)]
  · rw [lookup_elemWrites_priority, Batch.lookup_apply_nil, if_neg]
    rintro ⟨e, _, _, accepted⟩
    rw [accepts_dead buried] at accepted
    cases accepted
  · rcases (survivors_elemWrites _ _ _ _ _ _).mp member with old | ⟨_, _, living⟩
    · exact Set.eq_empty_iff_forall_notMem.mp bare.dead x old
    · exact living buried

end Runs

/-- The two calls, the other one first. -/
theorem exists_bool_iff (i : Bool) (p : Bool → Prop) : (∃ j, p j) ↔ p (!i) ∨ p i := by
  cases i
  · rw [Bool.exists_bool, or_comm]
    rfl
  · exact Bool.exists_bool

theorem forall_bool_of {i : Bool} {p : Bool → Prop} (here : p i) (there : p (!i)) (j : Bool) : p j := by
  by_cases same : j = i
  · exact same ▸ here
  · exact Bool.eq_not_of_ne same ▸ there

section Stale

variable {env : Env} {d : Bool → Delta} {id : Bool → Id}

/-- The schedule in which call `i` reads for its tombstones, the other call runs from start to
end, and call `i` goes on. -/
theorem stale_runs {w w₁ w₂ w₃ w₄ : World Bool} {b : TombBatch} (i : Bool) (nonempty : (d i).tombstones ≠ [])
    (reads : (putTombs.loop (d i).tombstones {}).run (exec env i) w = some (.ok b, w₁))
    (whole : (merge (d !i) (id !i)).run (exec env !i) w₁ = some (.ok (), w₂))
    (commits : (finishTombs b).run (exec env i) w₂ = some (.ok (), w₃))
    (adds : (putElems (d i).elements (id i) (d i).priority).run (exec env i) w₃ = some (.ok (), w₄)) :
    ∃ c, Prog.Pool.Reach (exec env) (calls d id w) c ∧ (∀ j, c.thread j = .ret ()) ∧ c.state = w₄ := by
  have other : (!i) ≠ i := Bool.not_ne_self i
  obtain ⟨c₁, reach₁, state₁, mine₁, others₁⟩ := Prog.Pool.Reach.of_run (exec env)
    (fun p => (p.bind finishTombs).bind (fun _ => putElems (d i).elements (id i) (d i).priority))
    (fun _ _ => rfl) (c := calls d id w) (i := i)
    (show merge (d i) (id i) = _ by rw [merge, putTombs_eq nonempty]; rfl) reads
  obtain ⟨c₂, reach₂, state₂, mine₂, others₂⟩ := Prog.Pool.Reach.of_run (exec env) (fun p => p)
    (fun _ _ => rfl) (i := !i) (others₁ _ other) (by rw [state₁]; exact whole)
  obtain ⟨c₃, reach₃, state₃, mine₃, others₃⟩ := Prog.Pool.Reach.of_run (exec env)
    (fun p => p.bind (fun _ => putElems (d i).elements (id i) (d i).priority)) (fun _ _ => rfl) (i := i)
    ((others₂ _ other.symm).trans mine₁) (by rw [state₂]; exact commits)
  obtain ⟨c₄, reach₄, state₄, mine₄, others₄⟩ := Prog.Pool.Reach.of_run (exec env) (fun p => p)
    (fun _ _ => rfl) (i := i) mine₃ (by rw [state₃]; exact adds)
  refine ⟨c₄, ((reach₁.trans reach₂).trans reach₃).trans reach₄, forall_bool_of mine₄ ?_, state₄⟩
  rw [others₄ _ other, others₃ _ other, mine₂]

/-- Call `i` reads for its tombstones, the other call runs from start to end, and call `i`
commits what it read: the key is left with the best survivor of the state before both. -/
theorem stale_tombs (orderly : ∀ i, (d i).Orderly (id i)) (blocks : ∀ i, env.dag (id i) = some (d i)) {w : World Bool}
    (ready : Ready env w) (i : Bool) {key : Key} (some : ((d i).tombIds key).Nonempty)
    (idle : key ∈ (d i).keys → id i ∈ tombsOf w.store key ∨ ∃ j, id i ∈ (d j).tombIds key) :
    ∃ c q, Prog.Pool.Reach (exec env) (calls d id w) c ∧ (∀ j, c.thread j = .ret ()) ∧
      Winner (env.ranks key (survivors w.store key ((d i).tombIds key))) q ∧ Stores c.state.store key q ∧
      (∀ x, x ∈ elemsOf c.state.store key ↔ x ∈ elemsOf w.store key ∨ ∃ j, x = id j ∧ key ∈ (d j).keys) ∧
      ∀ x, x ∈ tombsOf c.state.store key ↔ x ∈ tombsOf w.store key ∨ ∃ j, x ∈ (d j).tombIds key := by
  have nonempty : (d i).tombstones ≠ [] := by
    obtain ⟨x, e, member, _⟩ := some
    exact List.ne_nil_of_mem member
  obtain ⟨b, w₁, reads, same, gathered⟩ := putTombs_reads (i := i) (d := d i) ready.sane
  have sane₁ : Sane env w₁.store := by rw [same]; exact ready.sane
  obtain ⟨w₂, s, whole, free₂, buried, added, _⟩ :=
    merge_run (i := !i) (orderly !i) (blocks !i) sane₁ (by rw [same]; exact ready.free)
  have sane₂ := added.sane (orderly !i).ranked (blocks !i) (buried.sane sane₁)
  obtain ⟨w₃, commits, mutex₃, store₃⟩ := finishTombs_run env i w₂ b
  have sane₃ : Sane env w₃.store := by rw [store₃]; exact gathered.sane sane₂
  have tombs₃ : ∀ key, tombsOf w₃.store key = tombsOf w₂.store key ∪ (d i).tombIds key := fun key => by
    rw [store₃, gathered.tombs_apply]
  obtain ⟨w₄, adds, _, added₄⟩ := putElems_run (i := i) (orderly i) (blocks i) sane₃ (mutex₃.trans free₂)
    (fun key own => by rw [tombs₃]; exact Or.inr own)
  obtain ⟨c, reach, done, state⟩ := stale_runs i nonempty reads whole commits adds
  obtain ⟨q, stores, winner⟩ := gathered.stores_apply some
  have tombs₂ : ∀ x, x ∈ tombsOf w₂.store key ↔ x ∈ tombsOf w.store key ∨ x ∈ (d !i).tombIds key := fun x => by
    rw [added.tombs_eq, buried.tombs_eq, same]
    rfl
  refine ⟨c, q, reach, done, ?_, ?_, fun x => ?_, fun x => ?_⟩
  · exact winner (fun b c moved => by rw [moved])
  · have before : Stores w₃.store key q := by rw [store₃]; exact stores w₂.store
    rw [state]
    by_cases own : key ∈ (d i).keys
    · have dead : id i ∈ tombsOf w₃.store key := by
        rw [tombs₃]
        rcases idle own with old | ⟨j, named⟩
        · exact Or.inl ((tombs₂ _).mpr (Or.inl old))
        · by_cases mine : j = i
          · exact Or.inr (mine ▸ named)
          · obtain rfl := Bool.eq_not_of_ne mine
            exact Or.inl ((tombs₂ _).mpr (Or.inr named))
      obtain ⟨value, priority⟩ := ((added₄ key).1 own).buried dead
      exact before.congr value priority
    · exact ((added₄ key).2 own).stores before
  · rw [state, added₄.elems_iff, store₃, gathered.elems_apply, added.elems_iff, buried.elems_eq, same, or_assoc]
    exact or_congr_right (exists_bool_iff i (fun j => x = id j ∧ key ∈ (d j).keys)).symm
  · rw [state, added₄.tombs_eq, tombs₃, Set.mem_union, tombs₂, or_assoc]
    exact or_congr_right (exists_bool_iff i (fun j => x ∈ (d j).tombIds key)).symm

/-- The schedule in which the other call reads for its elements, call `i` commits its tombstones,
and the other call goes on, and then call `i`. -/
theorem straddle_runs {w w₁ w₃ w₄ w₆ : World Bool} {writes : Batch Path Bytes} (i : Bool) (nonempty : (d !i).elements ≠ [])
    (free : w₁.mutex = none) (tombs : (putTombs (d !i).tombstones).run (exec env !i) w = some (.ok (), w₁))
    (reads : (putElems.loop (id !i) (d !i).priority (d !i).elements []).run (exec env !i) { w₁ with mutex := some !i } =
      some (.ok writes, w₃))
    (buries : (putTombs (d i).tombstones).run (exec env i) w₃ = some (.ok (), w₄))
    (adds : (putElems (d i).elements (id i) (d i).priority).run (exec env i)
      { w₄ with store := writes.apply w₄.store, mutex := none } = some (.ok (), w₆)) :
    ∃ c, Prog.Pool.Reach (exec env) (calls d id w) c ∧ (∀ j, c.thread j = .ret ()) ∧ c.state = w₆ := by
  have other : (!i) ≠ i := Bool.not_ne_self i
  have nonempty' : ¬ (d !i).elements.isEmpty = true := fun empty => nonempty (List.isEmpty_iff.mp empty)
  obtain ⟨c₁, reach₁, state₁, mine₁, others₁⟩ := Prog.Pool.Reach.of_run (exec env)
    (fun p => p.bind (fun _ => putElems (d !i).elements (id !i) (d !i).priority)) (fun _ _ => rfl)
    (c := calls d id w) (i := !i) rfl tombs
  obtain ⟨c₂, reach₂, state₂, mine₂, others₂⟩ := Prog.Pool.Reach.of_run (exec env)
    (fun p => p.bind (fun _ => Prog.ensure unlock
      (if (d !i).elements.isEmpty then pure () else
        putElems.loop (id !i) (d !i).priority (d !i).elements [] >>= commit)))
    (p := lock) (a := ()) (s := { w₁ with mutex := some !i }) (fun _ _ => rfl) (c := c₁) (i := !i) mine₁
    (by rw [state₁]; simp only [lock, Prog.perform, Prog.run, exec, free]; rfl)
  obtain ⟨c₃, reach₃, state₃, mine₃, others₃⟩ := Prog.Pool.Reach.of_run (exec env)
    (fun p => Prog.ensure unlock (p.bind commit)) (fun _ _ => rfl) (c := c₂) (i := !i)
    (by rw [mine₂]; simp only [Prog.bind, if_neg nonempty']; rfl) (by rw [state₂]; exact reads)
  obtain ⟨c₄, reach₄, state₄, mine₄, others₄⟩ := Prog.Pool.Reach.of_run (exec env)
    (fun p => p.bind (fun _ => putElems (d i).elements (id i) (d i).priority)) (fun _ _ => rfl) (c := c₃) (i := i)
    (((others₃ _ other.symm).trans (others₂ _ other.symm)).trans (others₁ _ other.symm)) (by rw [state₃]; exact buries)
  obtain ⟨c₅, reach₅, state₅, mine₅, others₅⟩ := Prog.Pool.Reach.of_run (exec env) (fun p => p)
    (a := ()) (s := { w₄ with store := writes.apply w₄.store, mutex := none }) (fun _ _ => rfl) (c := c₄) (i := !i)
    ((others₄ _ other).trans mine₃) (by rw [state₄]; rfl)
  obtain ⟨c₆, reach₆, state₆, mine₆, others₆⟩ := Prog.Pool.Reach.of_run (exec env) (fun p => p)
    (fun _ _ => rfl) (c := c₅) (i := i) ((others₅ _ other.symm).trans mine₄) (by rw [state₅]; exact adds)
  refine ⟨c₆, ((((reach₁.trans reach₂).trans reach₃).trans reach₄).trans reach₅).trans reach₆, forall_bool_of mine₆ ?_, state₆⟩
  rw [others₆ _ other, mine₅]

/-- The other call finds its element not tombstoned and nothing stored, call `i` commits the tombstone
of that element, and the other call stores the value it no longer may. -/
theorem straddled_add (ranked : ∀ i, (d i).Ranked) (blocks : ∀ i, env.dag (id i) = some (d i)) {w : World Bool}
    (ready : Ready env w) (i : Bool) {key : Key} (own : key ∈ (d !i).keys) (clean : id (!i) ∉ (d !i).tombIds key)
    (bare : Bare w.store key) (alive : id (!i) ∉ tombsOf w.store key) (idle : id i ∈ tombsOf w.store key)
    (named : id (!i) ∈ (d i).tombIds key) :
    ∃ c r, Prog.Pool.Reach (exec env) (calls d id w) c ∧ (∀ j, c.thread j = .ret ()) ∧
      c.state.store.lookup (valueKey key) = some r ∧ survivors c.state.store key ∅ = ∅ := by
  obtain ⟨w₁, tombs, free₁, buried₁⟩ := putTombs_run (i := !i) (d := d !i) ready.sane
  have sane₁ := buried₁.sane ready.sane
  have own₁ : ∀ key, id (!i) ∈ (d !i).tombIds key → id (!i) ∈ tombsOf w₁.store key := fun key named => by
    rw [buried₁.tombs_eq]
    exact Or.inr named
  let w₂ : World Bool := { w₁ with mutex := some !i }
  obtain ⟨w₃, reads, same₃⟩ := putElems_reads (w := w₂) (i := !i) (d := d !i) sane₁ rfl own₁
  have store₃ : w₃.store = w₁.store := by rw [same₃]
  obtain ⟨w₄, buries, mutex₄, buried₄⟩ := putTombs_run (i := i) (d := d i) (w := w₃) (show Sane env w₃.store by rw [store₃]; exact sane₁)
  rw [store₃] at buried₄
  have sane₄ := buried₄.sane sane₁
  let writes := elemWrites w₁.store (id !i) (d !i).priority (d !i).elements []
  let w₅ : World Bool := { w₄ with store := writes.apply w₄.store, mutex := none }
  have tombs₅ : ∀ key, tombsOf w₅.store key = tombsOf w₄.store key := tombs_elemWrites _ _ _ _ _
  obtain ⟨w₆, adds, _, store₆⟩ := putElems_writes (i := i) (w := w₅) (d i) (id i)
    (elemWrites_sane (ranked !i) (blocks !i) sane₄) rfl
    (fun key named => by rw [tombs₅, buried₄.tombs_eq]; exact Or.inr named)
  have nonempty : (d !i).elements ≠ [] := by
    obtain ⟨e, member, _⟩ := List.mem_map.mp own
    exact List.ne_nil_of_mem member
  obtain ⟨c, reach, done, state⟩ := straddle_runs i nonempty (free₁.trans ready.free) tombs reads buries adds
  have bare₁ := bare.tombs buried₁
  have bare₄ := bare₁.tombs buried₄
  have alive₁ : id (!i) ∉ tombsOf w₁.store key := by
    rw [buried₁.tombs_eq]
    exact fun either => either.elim alive clean
  have dead₄ : ∀ j, id j ∈ tombsOf w₄.store key := by
    refine fun j => by
      rw [buried₄.tombs_eq, buried₁.tombs_eq]
      exact forall_bool_of (p := fun j => id j ∈ (tombsOf w.store key ∪ (d !i).tombIds key) ∪ (d i).tombIds key)
        (i := i) (Or.inl (Or.inl idle)) (Or.inr named) j
  have dead₅ : id i ∈ tombsOf w₅.store key := by
    rw [tombs₅]
    exact dead₄ i
  obtain ⟨r, rank⟩ := ranked (!i) key own
  obtain ⟨v, last⟩ := Delta.last_isSome rank
  refine ⟨c, v, reach, done, ?_, Set.eq_empty_iff_forall_notMem.mpr (fun x member => ?_)⟩
  · rw [state, store₆, lookup_elemWrites_value, Batch.lookup_apply_nil, taken_of_refused (fun e _ _ => accepts_dead dead₅)]
    rw [show w₅.store = writes.apply w₄.store from rfl, lookup_elemWrites_value, Batch.lookup_apply_nil, bare₄.absent.1,
      taken_of_none bare₁.absent alive₁]
    exact last
  · rw [state, store₆] at member
    rcases (survivors_elemWrites _ _ _ _ _ _).mp member with before | ⟨_, _, living⟩
    · rcases (survivors_elemWrites _ _ _ _ _ _).mp before with old | ⟨_, _, living⟩
      · exact Set.eq_empty_iff_forall_notMem.mp bare₄.dead x old
      · exact living (dead₄ !i)
    · exact living dead₅

/-- One call and then the other. -/
theorem turn_runs {w w₁ w₂ : World Bool} (i : Bool) (first : (merge (d !i) (id !i)).run (exec env !i) w = some (.ok (), w₁))
    (second : (merge (d i) (id i)).run (exec env i) w₁ = some (.ok (), w₂)) :
    ∃ c, Prog.Pool.Reach (exec env) (calls d id w) c ∧ (∀ j, c.thread j = .ret ()) ∧ c.state = w₂ := by
  have other : (!i) ≠ i := Bool.not_ne_self i
  obtain ⟨c₁, reach₁, state₁, mine₁, others₁⟩ := Prog.Pool.Reach.of_run (exec env) (fun p => p) (fun _ _ => rfl)
    (c := calls d id w) (i := !i) rfl first
  obtain ⟨c₂, reach₂, state₂, mine₂, others₂⟩ := Prog.Pool.Reach.of_run (exec env) (fun p => p) (fun _ _ => rfl) (i := i)
    (others₁ _ other.symm) (by rw [state₁]; exact second)
  refine ⟨c₂, reach₁.trans reach₂, forall_bool_of mine₂ ?_, state₂⟩
  rw [others₂ _ other, mine₁]

/-- With the other call's element tombstoned and nothing else of the key there, call `i` leaves the last value it has. -/
theorem last_left (ranked : ∀ i, (d i).Ranked) (blocks : ∀ i, env.dag (id i) = some (d i)) {w : World Bool}
    (ready : Ready env w) (i : Bool) {key : Key} (bare : Bare w.store key) (idle : id (!i) ∈ tombsOf w.store key)
    (alive : id i ∉ tombsOf w.store key) (clean : ∀ j, id i ∉ (d j).tombIds key) :
    ∃ c, Prog.Pool.Reach (exec env) (calls d id w) c ∧ (∀ j, c.thread j = .ret ()) ∧
      c.state.store.lookup (valueKey key) = lastValue (d i).priority key (d i).elements ∧
      ∀ x, x ∈ survivors c.state.store key ∅ ↔ x = id i ∧ key ∈ (d i).keys := by
  obtain ⟨w₁, s₁, first, free₁, buried₁, store₁⟩ := merge_writes (i := !i) (d !i) (id !i) ready.sane ready.free
  have dead₁ : id (!i) ∈ tombsOf s₁ key := by
    rw [buried₁.tombs_eq]
    exact Or.inl idle
  have bare₁ : Bare w₁.store key := by
    rw [store₁]
    exact (bare.tombs buried₁).writes dead₁
  have sane₁ : Sane env w₁.store := by
    rw [store₁]
    exact elemWrites_sane (ranked !i) (blocks !i) (buried₁.sane ready.sane)
  obtain ⟨w₂, s₂, second, _, buried₂, store₂⟩ := merge_writes (i := i) (d i) (id i) sane₁ free₁
  obtain ⟨c, reach, done, state⟩ := turn_runs i first second
  have alive₂ : id i ∉ tombsOf s₂ key := by
    rw [buried₂.tombs_eq, store₁, tombs_elemWrites, buried₁.tombs_eq]
    rintro ((old | named) | named)
    · exact alive old
    · exact clean (!i) named
    · exact clean i named
  have bare₂ := bare₁.tombs buried₂
  refine ⟨c, reach, done, ?_, fun x => ?_⟩
  · rw [state, store₂, lookup_elemWrites_value, Batch.lookup_apply_nil, bare₂.absent.1, taken_of_none bare₂.absent alive₂]
  · rw [state, store₂, survivors_elemWrites, bare₂.dead]
    simp [Delta.keys, alive₂]

end Stale

end OpenTela
