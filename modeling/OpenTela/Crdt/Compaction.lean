import OpenTela.Crdt.Convergence

namespace OpenTela

open OpenTela.SetM

def tombstoneTimestampBytes : ℕ := 8

/-- Seconds between the zero `time.Time` and the Unix epoch. -/
def unixToInternal : ℤ := 62135596800

/-- The seconds of a tombstone's `time.Time`, counted from the zero time as Go does, in an `int64`. -/
def decodeTombstoneTimestamp (value : Bytes) : ℤ :=
  if value.length < tombstoneTimestampBytes then 0
  else if uint64 value = 0 then 0
  else Int.bmod (uint64 value + unixToInternal) word

/-- `!tombTime.IsZero() && tombTime.After(deadline)`, the deadline in nanoseconds of Unix time. -/
def retained (value : Bytes) (deadline : ℤ) : Bool :=
  decide (decodeTombstoneTimestamp value ≠ 0) &&
    decide (deadline + unixToInternal * 10 ^ 9 < decodeTombstoneTimestamp value * 10 ^ 9)

/-- The key and block a tombstone's datastore key names. -/
def tombstoned (path : Path) : Option (Key × Id) :=
  if path.length < 5 then none
  else
    let blockID := path.getLastD ""
    let elemComponents := (path.drop 3).dropLast
    if blockID = "" then none
    else if elemComponents.isEmpty then none
    else some (elemComponents, blockID)

/-- The loop of `CompactTombstones`: the deletes it collects, their number and, when the
context is done before a result is taken, the error it returns without committing. -/
def compactTombstones.loop (done : ℕ → Bool) (deadline limit : ℤ) :
    ℕ → List (Path × Bytes) → Batch Path Bytes → ℕ → Batch Path Bytes × ℕ × Option String
  | n, results, batch, removed =>
    if 0 < limit ∧ limit ≤ removed then (batch, removed, none)
    else if done n then (batch, removed, some "context canceled")
    else
      match results with
      | [] => (batch, removed, none)
      | (path, value) :: rest =>
        if retained value deadline then loop done deadline limit (n + 1) rest batch removed
        else
          match tombstoned path with
          | none => loop done deadline limit (n + 1) rest batch removed
          | some (key, id) =>
            loop done deadline limit (n + 1) rest
              ((batch.delete (tombsKey key id)).delete (elemsKey key id)) (removed + 1)

/-- The end of `CompactTombstones`: the batch is committed unless the loop was left with an error. -/
def compactTombstones.finish : Batch Path Bytes × ℕ × Option String → SetM (ℕ × Option String)
  | (_, removed, some error) => return (removed, some error)
  | (batch, removed, none) => do
    commit batch
    return (removed, none)

/-- `CompactTombstones`: how many tombstones were removed, and the error if there was one. -/
def compactTombstones (done : ℕ → Bool) (olderThan limit : ℤ) : SetM (ℕ × Option String) :=
  if olderThan ≤ 0 then return (0, some "olderThan must be positive")
  else do
    let results ← query (keyPrefix tombsNs)
    let t ← now
    compactTombstones.finish (compactTombstones.loop done (t - olderThan) limit 0 results [] 0)

/-- What compaction does to a store: for some tombstones of each key it drops both the
tombstone and the element, and leaves what is stored for the key alone. -/
structure Compacts (s t : SetStore) (gone : Key → Set Id) : Prop where
  dead : ∀ key, gone key ⊆ tombsOf s key
  elems : ∀ key, elemsOf t key = elemsOf s key \ gone key
  tombs : ∀ key, tombsOf t key = tombsOf s key \ gone key
  value : ∀ key, t.lookup (valueKey key) = s.lookup (valueKey key)
  priority : ∀ key, t.lookup (priorityKey key) = s.lookup (priorityKey key)

/-- The deletes of a list of tombstones. -/
def pruned (tombs : List (Key × Id)) : Batch Path Bytes :=
  tombs.flatMap (fun e => [(elemsKey e.1 e.2, none), (tombsKey e.1 e.2, none)])

theorem lookup_pruned (tombs : List (Key × Id)) (s : SetStore) (path : Path) :
    ((pruned tombs).apply s).lookup path =
      if ∃ e ∈ tombs, path = elemsKey e.1 e.2 ∨ path = tombsKey e.1 e.2 then none else s.lookup path := by
  induction tombs with
  | nil => simp [pruned]
  | cons e rest ih =>
    have unfolded : pruned (e :: rest) = (elemsKey e.1 e.2, none) :: (tombsKey e.1 e.2, none) :: pruned rest := rfl
    rw [unfolded, Batch.lookup_apply_cons, Batch.lookup_apply_cons, ih]
    by_cases elem : path = elemsKey e.1 e.2
    · simp [elem]
    · by_cases tomb : path = tombsKey e.1 e.2
      · simp [tomb]
      · rw [if_neg elem, if_neg tomb]
        refine if_congr ?_ rfl rfl
        simp only [List.mem_cons, exists_eq_or_imp, elem, tomb, or_self, false_or]

theorem Compacts.of_pruned (tombs : List (Key × Id)) {s : SetStore} (there : ∀ e ∈ tombs, e.2 ∈ tombsOf s e.1) :
    Compacts s ((pruned tombs).apply s) (fun key => {id | (key, id) ∈ tombs}) := by
  have lookup := lookup_pruned tombs s
  refine ⟨fun key id member => there _ member, fun key => ?_, fun key => ?_, fun key => ?_, fun key => ?_⟩
  · ext id
    simp only [elemsOf, Store.has, Set.mem_ofPred_eq, lookup, Set.mem_sdiff, elemsKey_inj, elemsKey_ne_tombsKey, or_false]
    by_cases member : (key, id) ∈ tombs
    · rw [if_pos ⟨_, member, rfl, rfl⟩]
      exact iff_of_false (by simp) (fun both => both.2 member)
    · rw [if_neg (by rintro ⟨e, here, rfl, rfl⟩; exact member here)]
      exact (and_iff_left member).symm
  · ext id
    simp only [tombsOf, Store.has, Set.mem_ofPred_eq, lookup, Set.mem_sdiff, tombsKey_inj, tombsKey_ne_elemsKey, false_or]
    by_cases member : (key, id) ∈ tombs
    · rw [if_pos ⟨_, member, rfl, rfl⟩]
      exact iff_of_false (by simp) (fun both => both.2 member)
    · rw [if_neg (by rintro ⟨e, here, rfl, rfl⟩; exact member here)]
      exact (and_iff_left member).symm
  · rw [lookup, if_neg (by simp)]
  · rw [lookup, if_neg (by simp)]

/-- A key the query returns is the tombstone of what `CompactTombstones` reads out of it. -/
theorem tombstoned_eq {path : Path} (member : below (keyPrefix tombsNs) path = true) {key : Key} {id : Id}
    (read : tombstoned path = some (key, id)) : path = tombsKey key id := by
  obtain ⟨rest, rfl⟩ : keyPrefix tombsNs <+: path := by
    simpa using (Bool.and_eq_true_iff.mp member).1
  have length : (keyPrefix tombsNs).length = 3 := rfl
  simp only [tombstoned, List.length_append, length] at read
  split at read
  · cases read
  split at read
  · cases read
  split at read
  · cases read
  rename_i long _ _
  have some : rest ≠ [] := by
    rintro rfl
    simp at long
  simp only [Option.some.injEq, Prod.mk.injEq, List.drop_left' length] at read
  obtain ⟨rfl, rfl⟩ := read
  have last : (keyPrefix tombsNs ++ rest).getLastD "" = rest.getLast some := by
    rw [List.getLastD_eq_getLast?, List.getLast?_append_of_ne_nil _ some, List.getLast?_eq_getLast_of_ne_nil some]
    rfl
  rw [last, tombsKey, tombsPrefix, List.append_assoc, List.dropLast_append_getLast some]

theorem compactTombstones_loop (done : ℕ → Bool) (deadline limit : ℤ) (results : List (Path × Bytes)) (n removed : ℕ)
    (batch : Batch Path Bytes) (tombs : List (Key × Id)) {s : SetStore} (deletes : batch = pruned tombs)
    (there : ∀ e ∈ tombs, e.2 ∈ tombsOf s e.1) (found : ∀ r ∈ results, below (keyPrefix tombsNs) r.1 = true ∧ s.has r.1 = true) :
    ∃ tombs', (compactTombstones.loop done deadline limit n results batch removed).1 = pruned tombs' ∧
      ∀ e ∈ tombs', e.2 ∈ tombsOf s e.1 := by
  induction results generalizing n removed batch tombs with
  | nil =>
    unfold compactTombstones.loop
    split
    · exact ⟨tombs, deletes, there⟩
    · split
      · exact ⟨tombs, deletes, there⟩
      · exact ⟨tombs, deletes, there⟩
  | cons r rest ih =>
    have found' : ∀ r ∈ rest, below (keyPrefix tombsNs) r.1 = true ∧ s.has r.1 = true :=
      fun r member => found r (List.mem_cons_of_mem _ member)
    unfold compactTombstones.loop
    split
    · exact ⟨tombs, deletes, there⟩
    split
    · exact ⟨tombs, deletes, there⟩
    obtain ⟨path, value⟩ := r
    obtain ⟨scope, present⟩ := found _ (List.mem_cons_self ..)
    simp only
    split
    · exact ih _ _ _ _ deletes there found'
    cases read : tombstoned path with
    | none => exact ih _ _ _ _ deletes there found'
    | some e =>
      obtain ⟨key, id⟩ := e
      have named := tombstoned_eq scope read
      refine ih _ _ _ ((key, id) :: tombs) (by rw [deletes]; rfl) (fun e member => ?_) found'
      rcases List.mem_cons.mp member with rfl | old
      · show s.has (tombsKey key id) = true
        rw [← named]
        exact present
      · exact there e old

/-- One compaction on its own: it returns, and what it committed is a compaction of the store. -/
theorem compactTombstones_run (env : Env) (done : ℕ → Bool) (olderThan limit : ℤ) (w : World Unit) :
    ∃ out u gone, (compactTombstones done olderThan limit).run (exec env ()) w = some (.ok out, u) ∧
      u.mutex = w.mutex ∧ Compacts w.store u.store gone := by
  have nothing : Compacts w.store w.store (fun _ => ∅) :=
    ⟨fun _ => Set.empty_subset _, fun _ => Set.sdiff_empty.symm, fun _ => Set.sdiff_empty.symm, fun _ => rfl, fun _ => rfl⟩
  unfold compactTombstones
  by_cases early : olderThan ≤ 0
  · rw [if_pos early]
    exact ⟨_, w, _, rfl, rfl, nothing⟩
  rw [if_neg early]
  let results := env.queryOrder (w.store.select (below (keyPrefix tombsNs)))
  have found : ∀ r ∈ results, below (keyPrefix tombsNs) r.1 = true ∧ w.store.has r.1 = true := by
    intro r member
    obtain ⟨scope, present⟩ := Store.mem_select.mp ((env.queryOrder_perm _).mem_iff.mp member)
    exact ⟨scope, by rw [Store.has, present]; rfl⟩
  obtain ⟨tombs, deletes, there⟩ := compactTombstones_loop done (env.clock w.ticks - olderThan) limit results
    0 0 [] [] (s := w.store) rfl (fun _ member => absurd member List.not_mem_nil) found
  rcases looped : compactTombstones.loop done (env.clock w.ticks - olderThan) limit 0 results [] 0 with ⟨batch, removed, error⟩
  rw [looped] at deletes
  have unfolded : ∀ p : SetM (ℕ × Option String), p = (do
      let results ← query (keyPrefix tombsNs)
      let t ← now
      compactTombstones.finish (compactTombstones.loop done (t - olderThan) limit 0 results [] 0)) →
      p.run (exec env ()) w = (compactTombstones.finish (batch, removed, error)).run (exec env ())
        { w with ticks := w.ticks + 1 } := by
    rintro p rfl
    rw [← looped]
    rfl
  rw [unfolded _ rfl]
  cases error with
  | some error => exact ⟨(removed, some error), _, _, rfl, rfl, nothing⟩
  | none =>
    have compacts := Compacts.of_pruned tombs there
    rw [← deletes] at compacts
    exact ⟨(removed, none), _, _, rfl, rfl, compacts⟩

/-- Compaction keeps the live elements of the blocks merged so far, and what is stored. -/
theorem Compacts.merged {blocks : List (Id × Delta)} {s t : SetStore} {gone : Key → Set Id} (compacts : Compacts s t gone)
    (merged : Merged blocks s) : Merged blocks t := by
  refine ⟨fun key id member => ?_, fun key id member => ?_, fun key => ?_, fun key => ?_⟩
  · rw [compacts.elems] at member
    exact merged.elems key id member.1
  · rw [compacts.tombs] at member
    exact merged.tombs key member.1
  · rw [← merged.live key]
    ext id
    simp only [survivors, compacts.elems, compacts.tombs, Set.mem_ofPred_eq, Set.mem_sdiff, not_and, not_not]
    constructor
    · rintro ⟨⟨elem, stays⟩, alive, rest⟩
      exact ⟨elem, fun tomb => stays (alive tomb), rest⟩
    · rintro ⟨elem, alive, rest⟩
      exact ⟨⟨elem, fun goes => alive (compacts.dead key goes)⟩, fun tomb => absurd tomb alive, rest⟩
  · obtain ⟨q, stores, winner⟩ := merged.stored key
    exact ⟨q, stores.congr (compacts.value key) (compacts.priority key), winner⟩

end OpenTela
