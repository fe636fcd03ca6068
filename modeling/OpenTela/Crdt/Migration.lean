import OpenTela.Lib.Restart
import OpenTela.Crdt.Merge

namespace OpenTela

open OpenTela.SetM Prog

/-- `versionKey`, in the namespace of the store. -/
def versionPath : Path := ["ocf-crdt", "crdt_version"]

def getVersion.decode : Option Bytes → SetM ℕ
  | none => return 0
  | some data =>
    match uvarint data with
    | none => .fail "error decoding version"
    | some v => return (v + (word - 1)) % word

def getVersion : SetM ℕ := do getVersion.decode (← get versionPath)

def setVersion (v : ℕ) : SetM Unit := commit (Batch.put [] versionPath (putUvarint ((v + 1) % word)))

/-- From `/ns/tombs/key/block` to `/key`. -/
def migrate0to1.key (r : Path) : Key := (r.drop (keyPrefix tombsNs).length).dropLast

def migrate0to1.reset (wStore : Batch Path Bytes) (key : Key) : Option Bytes × ℕ → Batch Path Bytes
  | (none, _) => (wStore.delete (valueKey key)).delete (priorityKey key)
  | (some v, p) => setPriority (wStore.put (valueKey key) v) key p

def migrate0to1.loop : List Path → List Key → Batch Path Bytes → SetM (Batch Path Bytes)
  | [], _, wStore => return wStore
  | r :: rest, doneKeys, wStore =>
    if key r ∈ doneKeys then loop rest doneKeys wStore
    else do
      let best ← findBestValue (key r) []
      loop rest (key r :: doneKeys) (reset wStore (key r) best)

/-- `migrate0to1`, on a batching datastore. -/
def migrate0to1 : SetM Unit := do
  let results ← query (keyPrefix tombsNs)
  let wStore ← migrate0to1.loop (results.map Prod.fst) [] []
  commit wStore

def applyMigrations : SetM Unit := do
  let v ← getVersion
  if v = 0 then
    migrate0to1
    setVersion 1
  else return ()

/-- Operations that leave the datastore alone. -/
def SetOp.silent : SetOp → Prop
  | .commit _ => False
  | _ => True

/-- What the migration does to a store: keys that have tombstones store the best of what those leave,
and nothing else differs but the version. -/
structure Migrated (env : Env) (s t : SetStore) : Prop where
  settled : ∀ key, (tombsOf s key).Nonempty → ∃ q, Winner (env.ranks key (survivors s key ∅)) q ∧ Stores t key q
  others : ∀ path, path ≠ versionPath →
    (∀ key, (tombsOf s key).Nonempty → path ≠ valueKey key ∧ path ≠ priorityKey key) → t.lookup path = s.lookup path

section Reset

variable {env : Env} {s : SetStore} {b : Batch Path Bytes} {key : Key} {best : Option Bytes × ℕ}

theorem reset_stores (bound : best.2 < word) : Stores ((migrate0to1.reset b key best).apply s) key (bestRank best) := by
  obtain ⟨v, p⟩ := best
  cases v with
  | none => simp [migrate0to1.reset, bestRank, Stores]
  | some v => exact ⟨by simp [migrate0to1.reset, setPriority], by simp [migrate0to1.reset, setPriority], bound⟩

theorem reset_other {path : Path} (value : path ≠ valueKey key) (priority : path ≠ priorityKey key) :
    ((migrate0to1.reset b key best).apply s).lookup path = (b.apply s).lookup path := by
  obtain ⟨v, p⟩ := best
  cases v <;> simp [migrate0to1.reset, setPriority, value, priority]

end Reset

section Run

variable {τ : Type} [DecidableEq τ] {env : Env} {i : τ}

/-- `findBestValue` on its own returns the best survivor, and writes nothing. -/
theorem findBestValue_run {w : World τ} (sane : Sane env w.store) (key : Key) :
    ∃ best u, (findBestValue key []).run (exec env i) w = some (.ok best, u) ∧ u.toCore = w.toCore ∧ best.2 < word ∧
      Winner (env.ranks key (survivors w.store key ∅)) (bestRank best) := by
  have triple : Triple env i (.of [] [] 0) "" (fun _ => False) Eq (findBestValue key []) _ w :=
    findBestValue_triple Tolerates.alone sane
  obtain ⟨best, u, ran, moved, bound, winner⟩ := triple_run triple
  have fixed : Fixed (τ := τ) Eq key [] := fun b c same => by rw [same]
  have best' := winner fixed
  have none : {x : Id | x ∈ ([] : List Id)} = ∅ := by simp
  rw [none] at best'
  exact ⟨best, u, ran, moved.1.symm, bound, best'⟩

/-- What the loop has gathered once it is through with `doneKeys`. -/
structure Resets (env : Env) (s : SetStore) (doneKeys : List Key) (b : Batch Path Bytes) : Prop where
  best : ∀ key ∈ doneKeys, ∃ q, Winner (env.ranks key (survivors s key ∅)) q ∧ Stores (b.apply s) key q
  others : ∀ path, (∀ key ∈ doneKeys, path ≠ valueKey key ∧ path ≠ priorityKey key) → (b.apply s).lookup path = s.lookup path

theorem Resets.next {s : SetStore} {doneKeys : List Key} {b : Batch Path Bytes} (resets : Resets env s doneKeys b) {key : Key}
    {best : Option Bytes × ℕ} (bound : best.2 < word) (winner : Winner (env.ranks key (survivors s key ∅)) (bestRank best)) :
    Resets env s (key :: doneKeys) (migrate0to1.reset b key best) := by
  refine ⟨fun key' member => ?_, fun path apart => ?_⟩
  · by_cases same : key' = key
    · subst same
      exact ⟨_, winner, reset_stores bound⟩
    · obtain ⟨q, best', stores⟩ := resets.best key' ((List.mem_cons.mp member).resolve_left same)
      refine ⟨q, best', stores.congr (reset_other ?_ ?_) (reset_other ?_ ?_)⟩
      · simpa using same
      · simp
      · simp
      · simpa using same
  · obtain ⟨value, priority⟩ := apart key (List.mem_cons_self ..)
    rw [reset_other value priority]
    exact resets.others path (fun key' member => apart key' (List.mem_cons_of_mem _ member))

theorem migrate_loop_run (results : List Path) {doneKeys : List Key} {b : Batch Path Bytes} {w : World τ}
    (sane : Sane env w.store) (resets : Resets env w.store doneKeys b) :
    ∃ b' u done, (migrate0to1.loop results doneKeys b).run (exec env i) w = some (.ok b', u) ∧ u.toCore = w.toCore ∧
      Resets env w.store done b' ∧ ∀ key, key ∈ done ↔ key ∈ doneKeys ∨ key ∈ results.map migrate0to1.key := by
  induction results generalizing doneKeys b w with
  | nil => exact ⟨b, w, doneKeys, rfl, rfl, resets, by simp⟩
  | cons r rest ih =>
    rw [migrate0to1.loop]
    split
    · rename_i known
      obtain ⟨b', u, done, ran, same, after, members⟩ := ih sane resets
      refine ⟨b', u, done, ran, same, after, fun key => (members key).trans ?_⟩
      simp only [List.map_cons, List.mem_cons]
      constructor
      · rintro (old | new)
        · exact Or.inl old
        · exact Or.inr (Or.inr new)
      · rintro (old | rfl | new)
        · exact Or.inl old
        · exact Or.inl known
        · exact Or.inr new
    · obtain ⟨best, v, found, still, bound, winner⟩ := findBestValue_run (i := i) sane (migrate0to1.key r)
      have store : v.store = w.store := congrArg Core.store still
      obtain ⟨b', u, done, ran, same, after, members⟩ := ih (w := v) (store ▸ sane) (store ▸ resets.next bound winner)
      refine ⟨b', u, done, ?_, same.trans still, store ▸ after, fun key => (members key).trans ?_⟩
      · exact (run_bind found _).trans ran
      · simp only [List.map_cons, List.mem_cons, or_assoc, or_left_comm]

/-- Every result of the query is a tombstone, of the key that the loop takes it for. -/
theorem tombsKey_of_below {path : Path} (scope : below (keyPrefix tombsNs) path = true) :
    ∃ id, path = tombsKey (migrate0to1.key path) id := by
  obtain ⟨isPrefix, longer⟩ := (Bool.and_eq_true _ _).mp scope
  obtain ⟨rest, rfl⟩ := List.isPrefixOf_iff_prefix.mp isPrefix
  have nonempty : rest ≠ [] := by
    rintro rfl
    simp at longer
  refine ⟨rest.getLast nonempty, ?_⟩
  rw [migrate0to1.key, List.drop_left, tombsKey, tombsPrefix, List.append_assoc, List.dropLast_append_getLast nonempty]

theorem key_tombsKey (key : Key) (id : Id) : migrate0to1.key (tombsKey key id) = key := by
  rw [migrate0to1.key, tombsKey, tombsPrefix, List.append_assoc, List.drop_left, List.dropLast_concat]

theorem Resets.migrated {s : SetStore} {done : List Key} {b : Batch Path Bytes} (resets : Resets env s done b)
    (all : ∀ key, key ∈ done ↔ (tombsOf s key).Nonempty) : Migrated env s (b.apply s) where
  settled := fun key some => resets.best key ((all key).mpr some)
  others := fun path _ apart => resets.others path (fun key member => apart key ((all key).mp member))

/-- The part of the migration before its commit. -/
theorem migrate_gathers {w : World τ} (sane : Sane env w.store) :
    ∃ b u, (query (keyPrefix tombsNs) >>= fun results => migrate0to1.loop (results.map Prod.fst) [] []).run (exec env i) w =
      some (.ok b, u) ∧ u.toCore = w.toCore ∧ Migrated env w.store (b.apply w.store) ∧
      (b.apply w.store).lookup versionPath = w.store.lookup versionPath := by
  have order := env.queryOrder_perm (w.store.select (below (keyPrefix tombsNs)))
  have nothing : Resets env w.store [] [] := ⟨fun _ none => (by cases none), fun _ _ => rfl⟩
  obtain ⟨b, u, done, ran, same, resets, members⟩ := migrate_loop_run (i := i)
    ((env.queryOrder (w.store.select (below (keyPrefix tombsNs)))).map Prod.fst) sane nothing
  have all : ∀ key, key ∈ done ↔ (tombsOf w.store key).Nonempty := by
    intro key
    rw [members, List.map_map, List.mem_map]
    constructor
    · rintro (none | ⟨⟨path, value⟩, member, rfl⟩)
      · cases none
      · obtain ⟨scope, stored⟩ := Store.mem_select.mp (order.mem_iff.mp member)
        obtain ⟨id, shape⟩ := tombsKey_of_below scope
        have there : w.store.has path = true := by rw [Store.has, stored]; rfl
        exact ⟨id, show w.store.has _ = true from shape ▸ there⟩
    · rintro ⟨id, there⟩
      obtain ⟨value, stored⟩ := Option.isSome_iff_exists.mp (show (w.store.lookup (tombsKey key id)).isSome = true from there)
      have scope : below (keyPrefix tombsNs) (tombsKey key id) = true := by
        simp [below, tombsKey, tombsPrefix]
      exact Or.inr ⟨(tombsKey key id, value), order.mem_iff.mpr (Store.mem_select.mpr ⟨scope, stored⟩), key_tombsKey key id⟩
  refine ⟨b, u, ran, same, resets.migrated all, resets.others versionPath (fun key _ => ?_)⟩
  simp [versionPath, valueKey, priorityKey, keyPrefix, setNamespace]

end Run

section Unique

variable {env : Env} {s t t' : SetStore}

theorem Migrated.has (migrated : Migrated env s t) {path : Path} (other : path ≠ versionPath)
    (apart : ∀ key, path ≠ valueKey key ∧ path ≠ priorityKey key) : t.has path = s.has path := by
  rw [Store.has, Store.has, migrated.others path other (fun key _ => apart key)]

theorem Migrated.elems (migrated : Migrated env s t) (key : Key) : elemsOf t key = elemsOf s key := by
  ext x
  have same : t.has (elemsKey key x) = s.has (elemsKey key x) :=
    migrated.has (by simp [versionPath, elemsKey, elemsPrefix, keyPrefix, setNamespace]) (by simp)
  rw [elemsOf, elemsOf, Set.mem_ofPred_eq, Set.mem_ofPred_eq, same]

theorem Migrated.tombs (migrated : Migrated env s t) (key : Key) : tombsOf t key = tombsOf s key := by
  ext x
  have same : t.has (tombsKey key x) = s.has (tombsKey key x) :=
    migrated.has (by simp [versionPath, tombsKey, tombsPrefix, keyPrefix, setNamespace]) (by simp)
  rw [tombsOf, tombsOf, Set.mem_ofPred_eq, Set.mem_ofPred_eq, same]

theorem Migrated.survivors_eq (migrated : Migrated env s t) (key : Key) : survivors t key ∅ = survivors s key ∅ := by
  simp only [survivors, migrated.elems, migrated.tombs]

theorem Migrated.cells_same (migrated : Migrated env s t) {key : Key} (none : ¬ (tombsOf s key).Nonempty) :
    t.lookup (valueKey key) = s.lookup (valueKey key) ∧ t.lookup (priorityKey key) = s.lookup (priorityKey key) := by
  refine ⟨migrated.others _ (by simp [versionPath, valueKey, keyPrefix, setNamespace]) (fun key' some => ⟨?_, by simp⟩),
    migrated.others _ (by simp [versionPath, priorityKey, keyPrefix, setNamespace]) (fun key' some => ⟨by simp, ?_⟩)⟩
  · rintro same
    exact none (valueKey_inj.mp same ▸ some)
  · rintro same
    exact none (priorityKey_inj.mp same ▸ some)

theorem Migrated.sane (migrated : Migrated env s t) (sane : Sane env s) : Sane env t := by
  refine ⟨fun key x element => sane.known key x (migrated.elems key ▸ element), fun key => ?_⟩
  by_cases some : (tombsOf s key).Nonempty
  · obtain ⟨q, _, stores⟩ := migrated.settled key some
    exact ⟨q, stores⟩
  · obtain ⟨q, stores⟩ := sane.cells key
    exact ⟨q, stores.congr (migrated.cells_same some).1 (migrated.cells_same some).2⟩

/-- Migrated again, a store is still a migration of what it was at first. -/
theorem Migrated.again (first : Migrated env s t) (second : Migrated env t t') : Migrated env s t' where
  settled := fun key some => by
    obtain ⟨q, winner, stores⟩ := second.settled key (by rw [first.tombs]; exact some)
    exact ⟨q, by rw [← first.survivors_eq]; exact winner, stores⟩
  others := fun path other apart =>
    (second.others path other (fun key some => apart key (by rw [← first.tombs]; exact some))).trans (first.others path other apart)

/-- With its version, the outcome of the migration is determined. -/
theorem Migrated.unique (first : Migrated env s t) (second : Migrated env s t')
    (version : t.lookup versionPath = t'.lookup versionPath) (path : Path) : t.lookup path = t'.lookup path := by
  by_cases isVersion : path = versionPath
  · rw [isVersion]
    exact version
  by_cases reset : ∃ key, (tombsOf s key).Nonempty ∧ (path = valueKey key ∨ path = priorityKey key)
  · obtain ⟨key, some, cell⟩ := reset
    obtain ⟨q, winner, stores⟩ := first.settled key some
    obtain ⟨q', winner', stores'⟩ := second.settled key some
    obtain rfl := winner.unique winner'
    cases q with
    | none =>
      rcases cell with rfl | rfl
      · exact stores.1.trans stores'.1.symm
      · exact stores.2.trans stores'.2.symm
    | some r =>
      rcases cell with rfl | rfl
      · exact stores.1.trans stores'.1.symm
      · exact stores.2.1.trans stores'.2.1.symm
  · have apart : ∀ key, (tombsOf s key).Nonempty → path ≠ valueKey key ∧ path ≠ priorityKey key := fun key some =>
      ⟨fun same => reset ⟨key, some, Or.inl same⟩, fun same => reset ⟨key, some, Or.inr same⟩⟩
    rw [first.others path isVersion apart, second.others path isVersion apart]

end Unique

section Silent

theorem findBestValue_silent (key : Key) (pending : List Id) :
    Minds (fun _ _ => True) SetOp.silent (findBestValue key pending) := by
  have loop : ∀ results best, Minds (fun _ _ => True) SetOp.silent (findBestValue.loop key pending results best) := by
    intro results
    induction results with
    | nil => exact fun _ => trivial
    | cons path rest ih =>
      intro best
      rw [findBestValue.loop]
      split
      · exact ih best
      · split
        · exact ih best
        · refine Always.step (fun buried _ => ⟨trivial, ?_⟩)
          cases buried with
          | true => exact ih best
          | false =>
            refine Always.step (fun delta _ => ⟨trivial, ?_⟩)
            cases delta with
            | none => trivial
            | some delta => exact ih _
  exact Always.step (fun results _ => ⟨trivial, loop _ _⟩)

theorem migrate_loop_silent (results : List Path) (doneKeys : List Key) (b : Batch Path Bytes) :
    Minds (fun _ _ => True) SetOp.silent (migrate0to1.loop results doneKeys b) := by
  induction results generalizing doneKeys b with
  | nil => trivial
  | cons r rest ih =>
    rw [migrate0to1.loop]
    split
    · exact ih doneKeys b
    · refine Always.bind ((findBestValue_silent (migrate0to1.key r) []).mono (fun _ _ _ _ _ fine => fine) ?_)
      rintro _ (e | best) _
      · trivial
      · exact ih _ _

end Silent

section Restart

variable {τ : Type} [DecidableEq τ] {env : Env} {i : τ} {w t : World τ}

/-- Where nothing is committed the store stays. -/
theorem Minds.cut_store {α : Type} {p : SetM α} (silent : Minds (fun _ _ => True) SetOp.silent p)
    (cut : Cut (exec env i) p w t) : t.store = w.store := by
  refine Cut.keeps (fun w t : World τ => t.store = w.store) (fun _ => rfl) (fun _ _ _ first second => second.trans first)
    (fun o s r u fine executed => ?_) silent cut
  cases o with
  | commit => exact fine.elim
  | lock =>
    simp only [exec] at executed
    split at executed
    · obtain ⟨_, rfl⟩ := Prod.mk.inj (Option.some.inj executed)
      rfl
    · cases executed
  | _ =>
    obtain ⟨_, rfl⟩ := Prod.mk.inj (Option.some.inj executed)
    rfl

theorem cut_commit {b : Batch Path Bytes} (cut : Cut (exec env i) (SetM.commit b) w t) :
    t.store = w.store ∨ t.store = b.apply w.store := by
  cases cut with
  | here => exact Or.inl rfl
  | later executed rest =>
    obtain ⟨_, rfl⟩ := Prod.mk.inj (Option.some.inj executed)
    cases rest
    exact Or.inr rfl

/-- The store's version is 0. -/
def Unmigrated (s : SetStore) : Prop :=
  s.lookup versionPath = none ∨ ∃ data, s.lookup versionPath = some data ∧ uvarint data = some 1

theorem getVersion_run (env : Env) (i : τ) (w : World τ) :
    getVersion.run (exec env i) w = (getVersion.decode (w.store.lookup versionPath)).run (exec env i) w := rfl

theorem getVersion_old (old : Unmigrated w.store) : getVersion.run (exec env i) w = some (.ok 0, w) := by
  rw [getVersion_run]
  rcases old with missing | ⟨data, found, decoded⟩
  · rw [missing]
    rfl
  · rw [found, getVersion.decode, decoded]
    rfl

theorem getVersion_new (done : w.store.lookup versionPath = some (putUvarint 2)) :
    getVersion.run (exec env i) w = some (.ok 1, w) := by
  rw [getVersion_run, done, getVersion.decode, uvarint_putUvarint (show 2 < word by decide)]
  rfl

theorem getVersion_silent : Minds (fun _ _ => True) SetOp.silent getVersion := by
  refine Always.step (fun found _ => ⟨trivial, ?_⟩)
  cases found with
  | none => trivial
  | some data =>
    rw [getVersion.decode]
    split <;> trivial

theorem applyMigrations_new (done : w.store.lookup versionPath = some (putUvarint 2)) :
    applyMigrations.run (exec env i) w = some (.ok (), w) :=
  run_bind (getVersion_new done) _

theorem migrate_run (sane : Sane env w.store) :
    ∃ u, migrate0to1.run (exec env i) w = some (.ok (), u) ∧ Migrated env w.store u.store ∧
      u.store.lookup versionPath = w.store.lookup versionPath := by
  obtain ⟨b, u, ran, same, migrated, version⟩ := migrate_gathers (i := i) sane
  have store : u.store = w.store := congrArg Core.store same
  have committed : migrate0to1.run (exec env i) w = some (.ok (), { u with store := b.apply u.store }) :=
    run_bind ran SetM.commit
  rw [store] at committed
  exact ⟨_, committed, migrated, version⟩

theorem applyMigrations_run (sane : Sane env w.store) (old : Unmigrated w.store) :
    ∃ u, applyMigrations.run (exec env i) w = some (.ok (), u) ∧ Migrated env w.store u.store ∧
      u.store.lookup versionPath = some (putUvarint 2) := by
  obtain ⟨u, ran, migrated, _⟩ := migrate_run (i := i) sane
  have rest : (migrate0to1 >>= fun _ => setVersion 1).run (exec env i) w =
      some (.ok (), { u with store := (Batch.put [] versionPath (putUvarint 2)).apply u.store }) := run_bind ran _
  refine ⟨_, (run_bind (getVersion_old old) _).trans rest, ⟨fun key some => ?_, fun path other apart => ?_⟩, ?_⟩
  · obtain ⟨q, winner, stores⟩ := migrated.settled key some
    refine ⟨q, winner, stores.congr ?_ ?_⟩
    · simp [versionPath, valueKey, keyPrefix, setNamespace]
    · simp [versionPath, priorityKey, keyPrefix, setNamespace]
  · rw [Batch.lookup_apply_put, if_neg other, Batch.lookup_apply_nil]
    exact migrated.others path other apart
  · rw [Batch.lookup_apply_put, if_pos rfl]

/-- Cut off anywhere, the migration has done nothing yet, or all but set the version, or everything. -/
theorem cut_migrated (sane : Sane env w.store) (old : Unmigrated w.store) (cut : Cut (exec env i) applyMigrations w t) :
    t.store = w.store ∨ Migrated env w.store t.store ∧
      (t.store.lookup versionPath = w.store.lookup versionPath ∨ t.store.lookup versionPath = some (putUvarint 2)) := by
  rcases Cut.bind cut with early | ⟨v, u, got, cut⟩
  · exact Or.inl (Minds.cut_store getVersion_silent early)
  obtain ⟨same, rfl⟩ := Prod.mk.inj (Option.some.inj (got.symm.trans (getVersion_old old)))
  obtain rfl : v = 0 := Except.ok.inj same
  rw [if_pos rfl] at cut
  obtain ⟨b, x, gathered, core, migrated, version⟩ := migrate_gathers (i := i) sane
  have store : x.store = u.store := congrArg Core.store core
  rcases Cut.bind cut with within | ⟨_, y, ran, last⟩
  · rcases Cut.bind (p := query (keyPrefix tombsNs) >>= fun results => migrate0to1.loop (results.map Prod.fst) [] [])
      (f := SetM.commit) within with reading | ⟨b', x', gathered', commits⟩
    · refine Or.inl (Minds.cut_store ?_ reading)
      exact Always.step (fun results _ => ⟨trivial, migrate_loop_silent _ _ _⟩)
    · obtain ⟨same, rfl⟩ := Prod.mk.inj (Option.some.inj (gathered'.symm.trans gathered))
      obtain rfl := Except.ok.inj same
      rcases cut_commit commits with before | after
      · exact Or.inl (before.trans store)
      · rw [after, store]
        exact Or.inr ⟨migrated, Or.inl version⟩
  · obtain ⟨z, ran', migrated', version'⟩ := migrate_run (i := i) sane
    obtain ⟨_, rfl⟩ := Prod.mk.inj (Option.some.inj (ran.symm.trans ran'))
    rcases cut_commit last with before | after
    · rw [before]
      exact Or.inr ⟨migrated', Or.inl version'⟩
    · obtain ⟨v, done, final, two⟩ := applyMigrations_run (i := i) sane old
      have whole : applyMigrations.run (exec env i) u =
          some (.ok (), { y with store := (Batch.put [] versionPath (putUvarint 2)).apply y.store }) :=
        (run_bind (getVersion_old old) _).trans (run_bind ran' _)
      obtain ⟨_, rfl⟩ := Prod.mk.inj (Option.some.inj (done.symm.trans whole))
      rw [after]
      exact Or.inr ⟨final, Or.inr two⟩

end Restart

/-- Opening a store of version 0 makes every key that has tombstones store the best of what they leave,
and touches nothing else but the version. Interrupted anywhere and opened again, it comes to the same store. -/
theorem migration_restarts {τ : Type} [DecidableEq τ] {env : Env} {i : τ} {w : World τ} (sane : Sane env w.store)
    (old : Unmigrated w.store) :
    ∃ u, applyMigrations.run (exec env i) w = some (.ok (), u) ∧ Migrated env w.store u.store ∧
      u.store.lookup versionPath = some (putUvarint 2) ∧
      ∀ t, Cut (exec env i) applyMigrations w t → ∃ v, applyMigrations.run (exec env i) t = some (.ok (), v) ∧
        ∀ path, v.store.lookup path = u.store.lookup path := by
  obtain ⟨u, ran, migrated, version⟩ := applyMigrations_run (i := i) sane old
  refine ⟨u, ran, migrated, version, fun t cut => ?_⟩
  rcases cut_migrated sane old cut with same | ⟨partly, same | two⟩
  · obtain ⟨v, again, migrated', version'⟩ := applyMigrations_run (i := i) (w := t) (same ▸ sane) (same ▸ old)
    rw [same] at migrated'
    exact ⟨v, again, migrated'.unique migrated (version'.trans version.symm)⟩
  · have stillOld : Unmigrated t.store := by
      rw [Unmigrated, same]
      exact old
    obtain ⟨v, again, migrated', version'⟩ := applyMigrations_run (i := i) (partly.sane sane) stillOld
    exact ⟨v, again, (partly.again migrated').unique migrated (version'.trans version.symm)⟩
  · exact ⟨t, applyMigrations_new two, partly.unique migrated (two.trans version.symm)⟩

namespace Legacy

def dag : Id → Option Delta
  | "a" => some (.of [{ key := ["k"], value := [5] }] [] 1)
  | "b" => some (.of [{ key := ["k"], value := [9] }] [] 2)
  | _ => none

/-- The element of `b` is tombstoned, and its value is stored all the same. -/
def world : World Unit :=
  { World.empty with
    store := Batch.apply [(valueKey ["k"], some [9]), (priorityKey ["k"], some (putUvarint 3)), (tombsKey ["k"] "b", some []),
      (elemsKey ["k"] "b", some []), (elemsKey ["k"] "a", some [])] ∅ }

theorem sane : Sane (.plain dag) world.store := by
  refine ⟨fun key x element => ?_, fun key => ?_⟩
  · have known : key = ["k"] ∧ (x = "a" ∨ x = "b") := by
      by_contra none
      have missing : elemsKey key x ≠ elemsKey ["k"] "b" ∧ elemsKey key x ≠ elemsKey ["k"] "a" := by
        simp only [ne_eq, elemsKey_inj]
        tauto
      have found : (world.store.lookup (elemsKey key x)).isSome = true := element
      simp [world, missing.1, missing.2] at found
    obtain ⟨rfl, rfl | rfl⟩ := known
    · exact ⟨toLex (1, [5]), by decide +kernel⟩
    · exact ⟨toLex (2, [9]), by decide +kernel⟩
  · by_cases here : key = ["k"]
    · subst here
      exact ⟨some (toLex (2, [9])), by simp [world], by simp [world, word], by decide⟩
    · exact ⟨none, by simp [world, here], by simp [world, here]⟩

end Legacy

/-- A store that shows the value of a tombstoned element. -/
theorem migration_restarts_legacy :
    ∃ u, applyMigrations.run (exec (.plain Legacy.dag) ()) Legacy.world = some (.ok (), u) ∧
      Migrated (.plain Legacy.dag) Legacy.world.store u.store ∧ u.store.lookup (valueKey ["k"]) = some [5] := by
  obtain ⟨u, ran, migrated, _⟩ := migration_restarts (i := ()) Legacy.sane (Or.inl (by decide))
  have value : (applyMigrations.run (exec (.plain Legacy.dag) ()) Legacy.world).map
      (fun out => out.2.store.lookup (valueKey ["k"])) = some (some [5]) := by decide +kernel
  rw [ran] at value
  exact ⟨u, ran, migrated, Option.some.inj value⟩

end OpenTela
