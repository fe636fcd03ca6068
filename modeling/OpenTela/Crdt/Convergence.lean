import OpenTela.Crdt.Merge

namespace OpenTela

/-- One call of `Merge`: the block, and what the set finds around it during the call. -/
structure Delivery where
  env : Env
  id : Id
  delta : Delta

def Delivery.block (x : Delivery) : Id × Delta := (x.id, x.delta)

/-- Merging blocks one at a time, in the given order. `none` when a call fails or never returns. -/
def mergeEach : List Delivery → World Unit → Option (World Unit)
  | [], w => some w
  | x :: rest, w =>
    match (merge x.delta x.id).run (exec x.env ()) w with
    | some (.ok (), u) => mergeEach rest u
    | _ => none

/-- The DAG service returns every block merged so far, the one being merged included. -/
def Served (order : List Delivery) : Prop :=
  ∀ before x after, order = before ++ x :: after → ∀ y ∈ before ++ [x], x.env.dag y.id = some y.delta

theorem Served.of_all {order : List Delivery} (all : ∀ x ∈ order, ∀ y ∈ order, x.env.dag y.id = some y.delta) :
    Served order := by
  intro before x after split y member
  refine all x (by simp [split]) y ?_
  rw [split]
  simp only [List.mem_append, List.mem_cons] at member ⊢
  tauto

/-- What `Get` answers for a key. -/
def getAnswer (env : Env) (w : World Unit) (key : Key) : Option (Option Bytes) :=
  ((element key).run (exec env ()) w).bind (fun out => out.1.toOption)

/-- What `Has` answers for a key. -/
def hasAnswer (env : Env) (w : World Unit) (key : Key) : Option Bool :=
  ((inSet key).run (exec env ()) w).bind (fun out => out.1.toOption)

/-- The ranks of the elements of a key that no tombstone of the blocks names. -/
def liveRanks (blocks : List (Id × Delta)) (key : Key) : Set Rank :=
  {r | ∃ b ∈ blocks, ∃ e ∈ b.2.elements, e.key = key ∧ r = toLex (b.2.priority, e.value) ∧
    ∀ c ∈ blocks, ∀ t ∈ c.2.tombstones, ¬ (t.key = key ∧ t.id = b.1)}

/-- The blocks whose element of a key some tombstone names. -/
def namedIds (blocks : List (Id × Delta)) (key : Key) : Set Id := {id | ∃ b ∈ blocks, id ∈ b.2.tombIds key}

/-- The blocks that bring an element of a key which no tombstone names. -/
def liveIds (blocks : List (Id × Delta)) (key : Key) : Set Id :=
  {id | (∃ d, (id, d) ∈ blocks ∧ key ∈ d.keys) ∧ id ∉ namedIds blocks key}

/-- A set that has merged these blocks: it holds no elements or tombstones but theirs, its
live elements are exactly theirs, and it stores the best of them. -/
structure Merged (blocks : List (Id × Delta)) (s : SetStore) : Prop where
  elems : ∀ key, ∀ id ∈ elemsOf s key, ∃ d, (id, d) ∈ blocks ∧ key ∈ d.keys
  tombs : ∀ key, tombsOf s key ⊆ namedIds blocks key
  live : ∀ key, survivors s key ∅ = liveIds blocks key
  stored : ∀ key, ∃ q, Stores s key q ∧ Winner (liveRanks blocks key) q

section Invariant

variable {env : Env} {blocks : List (Id × Delta)} {s t u : SetStore}

theorem Merged.empty : Merged [] (World.empty : World Unit).store := by
  refine ⟨fun key id member => ?_, fun key id member => ?_, fun key => ?_,
    fun key => ⟨none, ⟨AList.lookup_empty _, AList.lookup_empty _⟩, ?_⟩⟩
  · simp [elemsOf, Store.has, World.empty] at member
  · simp [tombsOf, Store.has, World.empty] at member
  · simp [survivors, liveIds, elemsOf, Store.has, World.empty]
  · simp [Winner, liveRanks]

theorem ranks_liveIds (dag : ∀ b ∈ blocks, env.dag b.1 = some b.2) (produced : ∀ b ∈ blocks, b.2.Produced)
    (key : Key) : env.ranks key (liveIds blocks key) = liveRanks blocks key := by
  ext r
  constructor
  · rintro ⟨id, ⟨⟨d, member, own⟩, alive⟩, rank⟩
    obtain ⟨e, inDelta, rfl⟩ := List.mem_map.mp own
    rw [Env.rank, dag _ member, Option.bind_some, (produced _ member).rank inDelta] at rank
    refine ⟨(id, d), member, e, inDelta, rfl, (Option.some.inj rank).symm, fun c here t tomb names => ?_⟩
    exact alive ⟨c, here, t, tomb, names⟩
  · rintro ⟨⟨id, d⟩, member, e, inDelta, rfl, rfl, alive⟩
    refine ⟨id, ⟨⟨d, member, List.mem_map_of_mem inDelta⟩, ?_⟩, ?_⟩
    · rintro ⟨c, here, t, tomb, names⟩
      exact alive c here t tomb names
    · rw [Env.rank, dag _ member, Option.bind_some, (produced _ member).rank inDelta]

theorem Merged.settled (merged : Merged blocks s) (dag : ∀ b ∈ blocks, env.dag b.1 = some b.2)
    (produced : ∀ b ∈ blocks, b.2.Produced) (key : Key) : Settled s key env := by
  obtain ⟨q, stores, winner⟩ := merged.stored key
  exact ⟨q, stores, by rw [merged.live, ranks_liveIds dag produced]; exact winner⟩

theorem Merged.sane (merged : Merged blocks s) (dag : ∀ b ∈ blocks, env.dag b.1 = some b.2)
    (produced : ∀ b ∈ blocks, b.2.Produced) : Sane env s := by
  refine ⟨fun key id member => ?_, fun key => ?_⟩
  · obtain ⟨d, here, own⟩ := merged.elems key id member
    exact (produced _ here).ranked.known (dag _ here) own
  · obtain ⟨q, stores, _⟩ := merged.stored key
    exact ⟨q, stores⟩

theorem namedIds_next (blocks : List (Id × Delta)) (b : Id × Delta) (key : Key) :
    namedIds (blocks ++ [b]) key = namedIds blocks key ∪ b.2.tombIds key := by
  ext x
  simp only [namedIds, Set.mem_ofPred_eq, Set.mem_union, List.mem_append, List.mem_singleton]
  constructor
  · rintro ⟨c, old | rfl, names⟩
    · exact Or.inl ⟨c, old, names⟩
    · exact Or.inr names
  · rintro (⟨c, old, names⟩ | names)
    · exact ⟨c, Or.inl old, names⟩
    · exact ⟨b, Or.inr rfl, names⟩

/-- One more merge, in the two commits `merge` makes. Nothing comes back as long as each new
element that was tombstoned before finds its tombstone. -/
theorem Merged.next (merged : Merged blocks s) {id : Id} {d : Delta}
    (dag : ∀ b ∈ blocks ++ [(id, d)], env.dag b.1 = some b.2) (produced : ∀ b ∈ blocks ++ [(id, d)], b.2.Produced)
    (buried : TombsCommitted env d s t) (added : ElemsCommitted env d id t u)
    (kept : ∀ key ∈ d.keys, id ∈ namedIds blocks key → id ∈ tombsOf s key ∨ id ∈ d.tombIds key) :
    Merged (blocks ++ [(id, d)]) u := by
  have tombs : ∀ key, tombsOf u key = tombsOf s key ∪ d.tombIds key := fun key => by
    rw [added.tombs_eq, buried.tombs_eq]
  have elems : ∀ key x, x ∈ elemsOf u key ↔ x ∈ elemsOf s key ∨ x = id ∧ key ∈ d.keys := fun key x => by
    rw [added.elems_iff, buried.elems_eq]
  have live : ∀ key, survivors u key ∅ = liveIds (blocks ++ [(id, d)]) key := by
    intro key
    have before := merged.live key
    ext x
    have alike : x ∈ survivors s key ∅ ↔ x ∈ liveIds blocks key := by rw [before]
    simp only [survivors, liveIds, Set.mem_ofPred_eq, elems, tombs, namedIds_next, Set.mem_union, not_or,
      List.mem_append, List.mem_singleton, Prod.mk.injEq, Set.mem_empty_iff_false, not_false_eq_true, and_true]
      at alike ⊢
    constructor
    · rintro ⟨old | ⟨rfl, own⟩, alive, fresh⟩
      · obtain ⟨⟨d', member, keys⟩, unnamed⟩ := alike.mp ⟨old, alive⟩
        exact ⟨⟨d', Or.inl member, keys⟩, unnamed, fresh⟩
      · refine ⟨⟨d, Or.inr ⟨rfl, rfl⟩, own⟩, fun named => ?_, fresh⟩
        rcases kept key own named with tomb | tomb
        · exact alive tomb
        · exact fresh tomb
    · rintro ⟨⟨d', member | ⟨rfl, rfl⟩, keys⟩, unnamed, fresh⟩
      · obtain ⟨old, alive⟩ := alike.mpr ⟨⟨d', member, keys⟩, unnamed⟩
        exact ⟨Or.inl old, alive, fresh⟩
      · exact ⟨Or.inr ⟨rfl, keys⟩, fun tomb => unnamed (merged.tombs key tomb), fresh⟩
  have own : (id, d) ∈ blocks ++ [(id, d)] := by simp
  refine ⟨fun key x member => ?_, fun key x member => ?_, live, fun key => ?_⟩
  · rcases (elems key x).mp member with old | ⟨rfl, keys⟩
    · obtain ⟨d', here, keys⟩ := merged.elems key x old
      exact ⟨d', List.mem_append_left _ here, keys⟩
    · exact ⟨d, own, keys⟩
  · rw [tombs key] at member
    rw [namedIds_next]
    exact member.imp_left (fun old => merged.tombs key old)
  · have before := merged.settled (fun b member => dag b (List.mem_append_left _ member))
      (fun b member => produced b (List.mem_append_left _ member)) key
    obtain ⟨q, stores, winner⟩ := added.settled (produced _ own).ranked (dag _ own) (buried.settled before)
    exact ⟨q, stores, by rw [← ranks_liveIds dag produced, ← live]; exact winner⟩

theorem liveRanks_congr {blocks' : List (Id × Delta)} (same : ∀ b, b ∈ blocks ↔ b ∈ blocks') (key : Key) :
    liveRanks blocks key = liveRanks blocks' key := by
  simp only [liveRanks, same]

end Invariant

/-- One delivery on a set that has merged `done`: it returns, with its two commits. -/
theorem Merged.delivery {done : List Delivery} {x : Delivery} {w : World Unit}
    (merged : Merged (done.map Delivery.block) w.store) (free : w.mutex = none)
    (served : ∀ y ∈ done ++ [x], x.env.dag y.id = some y.delta) (produced : ∀ y ∈ done ++ [x], y.delta.Produced)
    (kept : ∀ key ∈ x.delta.keys, x.id ∈ namedIds (done.map Delivery.block) key →
      x.id ∈ tombsOf w.store key ∨ x.id ∈ x.delta.tombIds key) :
    ∃ v, (merge x.delta x.id).run (exec x.env ()) w = some (.ok (), v) ∧ v.mutex = none ∧
      Merged ((done ++ [x]).map Delivery.block) v.store ∧
      ∀ key, tombsOf v.store key = tombsOf w.store key ∪ x.delta.tombIds key := by
  have grown : (done ++ [x]).map Delivery.block = done.map Delivery.block ++ [x.block] := by simp
  have dag : ∀ b ∈ done.map Delivery.block ++ [x.block], x.env.dag b.1 = some b.2 := by
    intro b member
    rw [← grown] at member
    obtain ⟨y, here, rfl⟩ := List.mem_map.mp member
    exact served y here
  have produced' : ∀ b ∈ done.map Delivery.block ++ [x.block], b.2.Produced := by
    intro b member
    rw [← grown] at member
    obtain ⟨y, here, rfl⟩ := List.mem_map.mp member
    exact produced y here
  have own : x.block ∈ done.map Delivery.block ++ [x.block] := by simp
  have sane := merged.sane (fun b member => dag b (List.mem_append_left _ member))
    (fun b member => produced' b (List.mem_append_left _ member))
  obtain ⟨v, t, run, unlocked, buried, added, _⟩ := merge_run (i := ()) ((produced' _ own).orderly _) (dag _ own) sane free
  refine ⟨v, run, unlocked, ?_, fun key => ?_⟩
  · rw [grown]
    exact merged.next dag produced' buried added kept
  · rw [added.tombs_eq, buried.tombs_eq]
    rfl

/-- Merging one after the other always returns, in the merged state. -/
theorem mergeEach_merged (done : List Delivery) (todo : List Delivery) {w : World Unit}
    (merged : Merged (done.map Delivery.block) w.store)
    (tombs : ∀ key, tombsOf w.store key = namedIds (done.map Delivery.block) key) (free : w.mutex = none)
    (served : Served (done ++ todo)) (produced : ∀ x ∈ done ++ todo, x.delta.Produced) :
    ∃ u, mergeEach todo w = some u ∧ Merged ((done ++ todo).map Delivery.block) u.store := by
  induction todo generalizing done w with
  | nil => exact ⟨w, rfl, by simpa using merged⟩
  | cons x rest ih =>
    have split : done ++ x :: rest = (done ++ [x]) ++ rest := by simp
    obtain ⟨v, run, unlocked, next, grown⟩ := merged.delivery free (served done x rest rfl)
      (fun y member => produced y (by rw [split]; exact List.mem_append_left _ member))
      (fun key _ named => Or.inl (by rw [tombs]; exact named))
    rw [split] at served produced ⊢
    have tombs' : ∀ key, tombsOf v.store key = namedIds ((done ++ [x]).map Delivery.block) key := fun key => by
      rw [grown, tombs, List.map_append, List.map_singleton, namedIds_next]
      rfl
    obtain ⟨u, result, final⟩ := ih (done ++ [x]) next tombs' unlocked served produced
    refine ⟨u, ?_, final⟩
    simp only [mergeEach, run]
    exact result

theorem mergeEach_empty (order : List Delivery) (served : Served order) (produced : ∀ x ∈ order, x.delta.Produced) :
    ∃ u, mergeEach order World.empty = some u ∧ Merged (order.map Delivery.block) u.store :=
  mergeEach_merged [] order Merged.empty
    (fun key => by simp [tombsOf, namedIds, Store.has, World.empty]) rfl served produced

/-- The answers of a set that has merged these blocks. -/
theorem Merged.answers {blocks : List (Id × Delta)} {w : World Unit} (merged : Merged blocks w.store) (env : Env)
    {key : Key} {q : Option Rank} (winner : Winner (liveRanks blocks key) q) :
    getAnswer env w key = some (q.map (fun r => (ofLex r).2)) ∧ hasAnswer env w key = some q.isSome := by
  obtain ⟨q', stores, best⟩ := merged.stored key
  cases winner.unique best
  have value := stores.lookup_value
  refine ⟨congrArg some value, ?_⟩
  show some (w.store.has (valueKey key)) = some q.isSome
  rw [Store.has, value, Option.isSome_map]

/-- Convergence. Two replicas that merge the same blocks, each in its own order and with
its own repetitions, clock and iteration orders, give the same answers, and the answer for
a key is the value of the highest element of that key that no tombstone names. -/
theorem set_converges (blocks : List (Id × Delta)) (produced : ∀ b ∈ blocks, b.2.Produced)
    (order₁ order₂ : List Delivery) (covers₁ : ∀ b, b ∈ order₁.map Delivery.block ↔ b ∈ blocks)
    (covers₂ : ∀ b, b ∈ order₂.map Delivery.block ↔ b ∈ blocks) (served₁ : Served order₁) (served₂ : Served order₂) :
    ∃ w₁ w₂, mergeEach order₁ World.empty = some w₁ ∧ mergeEach order₂ World.empty = some w₂ ∧
      ∀ env key, ∃ q, Winner (liveRanks blocks key) q ∧
        getAnswer env w₁ key = some (q.map (fun r => (ofLex r).2)) ∧ hasAnswer env w₁ key = some q.isSome ∧
        getAnswer env w₂ key = some (q.map (fun r => (ofLex r).2)) ∧ hasAnswer env w₂ key = some q.isSome := by
  have produced₁ : ∀ x ∈ order₁, x.delta.Produced := fun x member =>
    produced x.block ((covers₁ _).mp (List.mem_map_of_mem member))
  have produced₂ : ∀ x ∈ order₂, x.delta.Produced := fun x member =>
    produced x.block ((covers₂ _).mp (List.mem_map_of_mem member))
  obtain ⟨w₁, run₁, merged₁⟩ := mergeEach_empty order₁ served₁ produced₁
  obtain ⟨w₂, run₂, merged₂⟩ := mergeEach_empty order₂ served₂ produced₂
  refine ⟨w₁, w₂, run₁, run₂, fun env key => ?_⟩
  obtain ⟨q, stores, winner⟩ := merged₁.stored key
  have ranks₁ := liveRanks_congr covers₁ key
  have ranks₂ := liveRanks_congr covers₂ key
  obtain ⟨get₁, has₁⟩ := merged₁.answers env winner
  rw [ranks₁] at winner
  obtain ⟨get₂, has₂⟩ := merged₂.answers env (by rw [ranks₂]; exact winner)
  exact ⟨q, winner, get₁, has₁, get₂, has₂⟩

namespace Overlap

/-- Two writes to one key and a delete that saw the second of them only. -/
def first : Delta := .of [{ key := ["k"], value := [1] }] [] 1

def second : Delta := .of [{ key := ["k"], value := [2] }] [] 2

def removal : Delta := .of [] [{ key := ["k"], id := "b" }] 3

def dag (id : Id) : Option Delta :=
  if id = "a" then some first else if id = "b" then some second else if id = "c" then some removal else none

def deliver (id : Id) (delta : Delta) : Delivery := { env := Env.plain dag, id, delta }

end Overlap

open Overlap in
/-- The delete arrives last, or before everything it knows about. -/
theorem set_converges_overlap : ∃ w₁ w₂,
    mergeEach [deliver "a" first, deliver "b" second, deliver "c" removal] World.empty = some w₁ ∧
    mergeEach [deliver "c" removal, deliver "b" second, deliver "a" first, deliver "b" second] World.empty = some w₂ ∧
    ∀ env key, getAnswer env w₁ key = getAnswer env w₂ key ∧ hasAnswer env w₁ key = hasAnswer env w₂ key := by
  obtain ⟨w₁, w₂, run₁, run₂, answers⟩ := set_converges [("a", first), ("b", second), ("c", removal)] (by decide)
    [deliver "a" first, deliver "b" second, deliver "c" removal]
    [deliver "c" removal, deliver "b" second, deliver "a" first, deliver "b" second]
    (fun b => Iff.rfl) (fun b => by simp only [deliver, Delivery.block, List.map_cons, List.map_nil, List.mem_cons]; tauto)
    (Served.of_all (by decide)) (Served.of_all (by decide))
  refine ⟨w₁, w₂, run₁, run₂, fun env key => ?_⟩
  obtain ⟨q, _, get₁, has₁, get₂, has₂⟩ := answers env key
  exact ⟨get₁.trans get₂.symm, has₁.trans has₂.symm⟩

end OpenTela
