import OpenTela.Crdt.Compaction

namespace OpenTela

/-- The calls a set receives: deliveries, and compactions with any clock, context, retention and limit. -/
inductive Event where
  | merge (x : Delivery)
  | compact (env : Env) (done : ℕ → Bool) (olderThan limit : ℤ)

def Event.delivery? : Event → Option Delivery
  | .merge x => some x
  | .compact .. => none

/-- The run with the compactions left out. -/
def merges (events : List Event) : List Delivery := events.filterMap Event.delivery?

/-- One call. The compactor only logs an error of `CompactTombstones`; a merge that fails ends the run. -/
def Event.run : Event → World Unit → Option (World Unit)
  | .merge x, w =>
    match (OpenTela.merge x.delta x.id).run (exec x.env ()) w with
    | some (.ok (), u) => some u
    | _ => none
  | .compact env done olderThan limit, w =>
    ((compactTombstones done olderThan limit).run (exec env ()) w).map Prod.snd

def runEvents : List Event → World Unit → Option (World Unit)
  | [], w => some w
  | event :: rest, w => (event.run w).bind (runEvents rest)

/-- Whenever a delivery brings an element that was tombstoned before, the tombstone is
still there, or the same delta brings it again. -/
def TombsKept (events : List Event) : Prop :=
  ∀ before x after w, events = before ++ .merge x :: after → runEvents before World.empty = some w →
    ∀ key ∈ x.delta.keys, x.id ∈ namedIds ((merges before).map Delivery.block) key →
      x.id ∈ tombsOf w.store key ∨ x.id ∈ x.delta.tombIds key

theorem runEvents_append (before after : List Event) (w : World Unit) :
    runEvents (before ++ after) w = (runEvents before w).bind (runEvents after) := by
  induction before generalizing w with
  | nil => rfl
  | cons event rest ih =>
    simp only [List.cons_append, runEvents]
    cases event.run w with
    | none => rfl
    | some u => exact ih u

/-- One call on a set that has merged what came before leaves a set that has merged that and its own delta. -/
theorem Event.run_merged {past after : List Event} {event : Event} {w : World Unit}
    (ran : runEvents past World.empty = some w) (merged : Merged ((merges past).map Delivery.block) w.store)
    (free : w.mutex = none) (served : Served (merges (past ++ event :: after)))
    (produced : ∀ x ∈ merges (past ++ event :: after), x.delta.Produced) (kept : TombsKept (past ++ event :: after)) :
    ∃ v, event.run w = some v ∧ v.mutex = none ∧ Merged ((merges (past ++ [event])).map Delivery.block) v.store := by
  cases event with
  | merge x =>
    have split : merges (past ++ .merge x :: after) = merges past ++ x :: merges after := by
      simp [merges, Event.delivery?]
    rw [split] at served produced
    obtain ⟨v, run, unlocked, next, _⟩ := merged.delivery free (served _ _ _ rfl)
      (fun y member => produced y (by simp only [List.mem_append, List.mem_cons] at member ⊢; tauto))
      (kept past x after w rfl ran)
    refine ⟨v, by simp only [Event.run, run], unlocked, ?_⟩
    have grown : merges (past ++ [.merge x]) = merges past ++ [x] := by simp [merges, Event.delivery?]
    rw [grown]
    exact next
  | compact env done olderThan limit =>
    obtain ⟨out, v, gone, run, mutex, compacts⟩ := compactTombstones_run env done olderThan limit w
    refine ⟨v, by simp only [Event.run, run, Option.map_some], mutex.trans free, ?_⟩
    have same : merges (past ++ [.compact env done olderThan limit]) = merges past := by
      simp [merges, Event.delivery?]
    rw [same]
    exact compacts.merged merged

theorem runEvents_merged (past todo : List Event) {w : World Unit}
    (ran : runEvents past World.empty = some w) (merged : Merged ((merges past).map Delivery.block) w.store)
    (free : w.mutex = none) (served : Served (merges (past ++ todo)))
    (produced : ∀ x ∈ merges (past ++ todo), x.delta.Produced) (kept : TombsKept (past ++ todo)) :
    ∃ u, runEvents (past ++ todo) World.empty = some u ∧ Merged ((merges (past ++ todo)).map Delivery.block) u.store := by
  induction todo generalizing past w with
  | nil =>
    rw [List.append_nil]
    exact ⟨w, ran, merged⟩
  | cons event rest ih =>
    obtain ⟨v, step, unlocked, next⟩ := Event.run_merged ran merged free served produced kept
    have ran' : runEvents (past ++ [event]) World.empty = some v := by
      rw [runEvents_append, ran]
      simp only [Option.bind_some, runEvents, step]
    have split : past ++ event :: rest = (past ++ [event]) ++ rest := by simp
    rw [split] at served produced kept ⊢
    exact ih (past ++ [event]) ran' next unlocked served produced kept

/-- Elements that arrive before their tombstones never miss them. -/
theorem TombsKept.of_causal {events : List Event}
    (causal : (merges events).Pairwise (fun y x => ∀ e ∈ x.delta.elements, ∀ t ∈ y.delta.tombstones,
      ¬ (t.key = e.key ∧ t.id = x.id))) : TombsKept events := by
  rintro before x after w rfl _ key own ⟨_, named, t, tomb, sameKey, sameId⟩
  obtain ⟨y, past, rfl⟩ := List.mem_map.mp named
  obtain ⟨e, inDelta, rfl⟩ := List.mem_map.mp own
  have split : merges (before ++ .merge x :: after) = merges before ++ x :: merges after := by
    simp [merges, Event.delivery?]
  rw [split, List.pairwise_append] at causal
  exact absurd ⟨sameKey, sameId⟩ (causal.2.2 y past x (List.mem_cons_self ..) e inDelta t tomb)

/-- Compaction is transparent to every run in which no delivery brings an element whose
tombstone has been compacted away. -/
theorem compaction_transparent (events : List Event) (served : Served (merges events))
    (produced : ∀ x ∈ merges events, x.delta.Produced) (kept : TombsKept events) :
    ∃ w v, runEvents events World.empty = some w ∧ mergeEach (merges events) World.empty = some v ∧
      ∀ env key, getAnswer env w key = getAnswer env v key ∧ hasAnswer env w key = hasAnswer env v key := by
  obtain ⟨w, run, merged⟩ := runEvents_merged [] events rfl Merged.empty rfl served produced kept
  obtain ⟨v, plain, complete⟩ := mergeEach_empty (merges events) served produced
  refine ⟨w, v, run, plain, fun env key => ?_⟩
  obtain ⟨q, _, winner⟩ := merged.stored key
  obtain ⟨get₁, has₁⟩ := merged.answers env winner
  obtain ⟨get₂, has₂⟩ := complete.answers env winner
  exact ⟨get₁.trans get₂.symm, has₁.trans has₂.symm⟩

namespace Late

/-- A write to a key, and the delete of it a second later. -/
def write : Delta := .of [{ key := ["k"], value := [1] }] [] 1

def removal : Delta := .of [] [{ key := ["k"], id := "a" }] 2

def dag (id : Id) : Option Delta :=
  if id = "a" then some write else if id = "b" then some removal else none

/-- The clock stands at this many seconds. -/
def envAt (seconds : ℤ) : Env := { Env.plain dag with clock := fun _ => seconds * 10 ^ 9 }

def deliver (seconds : ℤ) (id : Id) (delta : Delta) : Event := .merge { env := envAt seconds, id, delta }

/-- A compaction with a retention of a day. -/
def compactAt (seconds : ℤ) : Event := .compact (envAt seconds) (fun _ => false) (86400 * 10 ^ 9) 512

end Late

open Late in
/-- In the order in which they were made, the write and its delete are compacted unnoticed. -/
theorem compaction_transparent_late : ∃ w v,
    runEvents [deliver 1000 "a" write, deliver 1001 "b" removal, compactAt 90000] World.empty = some w ∧
    mergeEach (merges [deliver 1000 "a" write, deliver 1001 "b" removal, compactAt 90000]) World.empty = some v ∧
    w.store.has (tombsKey ["k"] "a") = false ∧ v.store.has (tombsKey ["k"] "a") = true ∧
    ∀ env key, getAnswer env w key = getAnswer env v key ∧ hasAnswer env w key = hasAnswer env v key := by
  obtain ⟨w, v, run, plain, answers⟩ := compaction_transparent
    [deliver 1000 "a" write, deliver 1001 "b" removal, compactAt 90000]
    (Served.of_all (by decide)) (by decide) (TombsKept.of_causal (by decide))
  have gone : (runEvents [deliver 1000 "a" write, deliver 1001 "b" removal, compactAt 90000] World.empty).map
      (fun w => w.store.has (tombsKey ["k"] "a")) = some false := by decide
  have there : (mergeEach (merges [deliver 1000 "a" write, deliver 1001 "b" removal, compactAt 90000]) World.empty).map
      (fun w => w.store.has (tombsKey ["k"] "a")) = some true := by decide
  rw [run] at gone
  rw [plain] at there
  exact ⟨w, v, run, plain, Option.some.inj gone, Option.some.inj there, answers⟩

open Late in
/-- The delete comes first and is compacted a day later; the write it removed arrives after
that and comes back. -/
theorem compaction_not_transparent :
    Served (merges [deliver 1000 "b" removal, compactAt 90000, deliver 90001 "a" write]) ∧
    (∀ x ∈ merges [deliver 1000 "b" removal, compactAt 90000, deliver 90001 "a" write], x.delta.Produced) ∧
    (runEvents [deliver 1000 "b" removal, compactAt 90000, deliver 90001 "a" write] World.empty).bind
      (fun w => getAnswer (envAt 90002) w ["k"]) = some (some [1]) ∧
    (mergeEach (merges [deliver 1000 "b" removal, compactAt 90000, deliver 90001 "a" write]) World.empty).bind
      (fun w => getAnswer (envAt 90002) w ["k"]) = some none :=
  ⟨Served.of_all (by decide), by decide, by decide, by decide⟩

end OpenTela
