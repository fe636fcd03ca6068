import OpenTela.Crdt.Races

namespace OpenTela

section Seeds

variable {env : Env} {key k : Key} {dead : List Id} {live : Option (Id × Rank)} {x : Id}

/-- A set that holds tombstones for one key and at most one element of it. -/
def seeded (key : Key) (dead : List Id) (live : Option (Id × Rank)) : World Bool :=
  { World.empty with
    store := Batch.apply ((dead.map (tombsKey key)).map (fun path => (path, some [])) ++
      live.elim [] (fun e => [(elemsKey key e.1, some []), (valueKey key, some (ofLex e.2).2),
        (priorityKey key, some (putUvarint (((ofLex e.2).1 + 1) % word)))])) ∅ }

theorem lookup_seeded (key : Key) (dead : List Id) (live : Option (Id × Rank)) (path : Path) :
    (seeded key dead live).store.lookup path =
      if path ∈ dead.map (tombsKey key) then some []
      else live.elim none (fun e => if path = elemsKey key e.1 then some [] else
        if path = valueKey key then some (ofLex e.2).2 else
        if path = priorityKey key then some (putUvarint (((ofLex e.2).1 + 1) % word)) else none) := by
  rw [seeded, lookup_apply_tombs]
  cases live with
  | none => simp
  | some e => simp [Batch.lookup_apply_cons]

theorem seeded_elems : x ∈ elemsOf (seeded key dead live).store k ↔ k = key ∧ ∃ r, live = some (x, r) := by
  have untombed : elemsKey k x ∉ dead.map (tombsKey key) := by simp
  simp only [elemsOf, Store.has, Set.mem_ofPred_eq, lookup_seeded, if_neg untombed]
  cases live with
  | none => simp
  | some e =>
    obtain ⟨y, r⟩ := e
    by_cases same : k = key ∧ x = y
    · obtain ⟨rfl, rfl⟩ := same
      simp
    · have apart : ¬ (k = key ∧ y = x) := fun both => same ⟨both.1, both.2.symm⟩
      simp [same, apart]

theorem seeded_tombs : x ∈ tombsOf (seeded key dead live).store k ↔ k = key ∧ x ∈ dead := by
  simp only [tombsOf, Store.has, Set.mem_ofPred_eq, lookup_seeded, List.mem_map, tombsKey_inj]
  by_cases here : k = key ∧ x ∈ dead
  · obtain ⟨rfl, member⟩ := here
    rw [if_pos ⟨x, member, rfl, rfl⟩]
    simp [member]
  · rw [if_neg (by rintro ⟨y, member, rfl, rfl⟩; exact here ⟨rfl, member⟩)]
    cases live with
    | none => simp [here]
    | some e => simp [here]

theorem seeded_stores (key k : Key) (dead : List Id) (bound : ∀ e, live = some e → (ofLex e.2).1 < word) :
    Stores (seeded key dead live).store k (if k = key then live.map Prod.snd else none) := by
  have value := lookup_seeded key dead live (valueKey k)
  have priority := lookup_seeded key dead live (priorityKey k)
  rw [if_neg (by simp)] at value priority
  cases live with
  | none =>
    simp only [Option.map_none, ite_self]
    exact ⟨value, priority⟩
  | some e =>
    by_cases same : k = key
    · subst same
      simp only [Option.elim_some, valueKey_ne_elemsKey, priorityKey_ne_elemsKey, priorityKey_ne_valueKey, if_false,
        if_true, Option.map_some] at value priority ⊢
      exact ⟨value, priority, bound e rfl⟩
    · simp only [Option.elim_some, valueKey_ne_elemsKey, valueKey_ne_priorityKey, priorityKey_ne_elemsKey,
        priorityKey_ne_valueKey, valueKey_inj, priorityKey_inj, same, if_false] at value priority ⊢
      exact ⟨value, priority⟩

theorem Env.rank_lt {r : Rank} (rank : env.rank key x = some r) : (ofLex r).1 < word := by
  simp only [Env.rank, Delta.rank, Option.bind_eq_some_iff, Option.map_eq_some_iff] at rank
  obtain ⟨d, _, v, _, rfl⟩ := rank
  exact d.priority_lt

/-- Such a set is one the calls may find. -/
theorem seeded_ready (known : ∀ e, live = some e → env.rank key e.1 = some e.2 ∧ e.1 ∉ dead) :
    Ready env (seeded key dead live) := by
  have stores := fun k => seeded_stores key k dead (fun e here => Env.rank_lt (known e here).1)
  refine ⟨⟨fun k x member => ?_, fun k => ⟨_, stores k⟩⟩, fun k => ⟨_, stores k, ?_⟩, rfl⟩
  · obtain ⟨rfl, r, here⟩ := seeded_elems.mp member
    exact ⟨r, (known _ here).1⟩
  · have members : ∀ r, r ∈ env.ranks k (survivors (seeded key dead live).store k ∅) ↔
        k = key ∧ ∃ e, live = some e ∧ e.2 = r := by
      intro r
      constructor
      · rintro ⟨x, ⟨elem, _, _⟩, rank⟩
        obtain ⟨rfl, r', here⟩ := seeded_elems.mp elem
        exact ⟨rfl, (x, r'), here, Option.some.inj ((known _ here).1.symm.trans rank)⟩
      · rintro ⟨rfl, ⟨x, r'⟩, here, rfl⟩
        refine ⟨x, ⟨seeded_elems.mpr ⟨rfl, r', here⟩, fun tomb => ?_, by simp⟩, (known _ here).1⟩
        exact (known _ here).2 (seeded_tombs.mp tomb).2
    by_cases same : k = key
    · rw [if_pos same]
      cases live with
      | none =>
        exact Set.eq_empty_iff_forall_notMem.mpr (fun r member => by simpa using (members r).mp member)
      | some e =>
        refine ⟨(members e.2).mpr ⟨same, e, rfl, rfl⟩, fun r member => ?_⟩
        obtain ⟨_, e', here, rfl⟩ := (members r).mp member
        cases here
        exact le_rfl
    · rw [if_neg same]
      exact Set.eq_empty_iff_forall_notMem.mpr (fun r member => same ((members r).mp member).1)

/-- With no live element the key is bare. -/
theorem seeded_bare (key : Key) (dead : List Id) : Bare (seeded key dead none).store key := by
  refine ⟨?_, Set.eq_empty_iff_forall_notMem.mpr (fun x member => ?_)⟩
  · have stores := seeded_stores key key dead (fun (e : Id × Rank) (here : none = some e) => by cases here)
    rw [if_pos rfl] at stores
    exact stores
  · obtain ⟨_, _, here⟩ := seeded_elems.mp member.1
    cases here

end Seeds

theorem ids_ne {id : Bool → Id} (distinct : id false ≠ id true) (i : Bool) : id (!i) ≠ id i := by
  cases i
  · exact distinct.symm
  · exact distinct

section Order

variable {env : Env} {d : Bool → Delta} {id : Bool → Id} (serial : Serializable env d id)
  (ranked : ∀ i, (d i).Ranked) (blocks : ∀ i, env.dag (id i) = some (d i)) (distinct : id false ≠ id true)

include serial ranked blocks distinct

/-- The other call does not tombstone an element that its own call adds and leaves alive. -/
theorem Serializable.unnamed {i : Bool} {key : Key} (own : key ∈ (d !i).keys) (clean : id (!i) ∉ (d !i).tombIds key) :
    id (!i) ∉ (d i).tombIds key := by
  intro named
  have ready : Ready env (seeded key [id i] none) := seeded_ready (fun e here => by cases here)
  have alive : id (!i) ∉ tombsOf (seeded key [id i] none).store key := fun tomb =>
    ids_ne distinct i (by simpa using (seeded_tombs.mp tomb).2)
  obtain ⟨c, v, reach, returned, value, dead⟩ := straddled_add ranked blocks ready i own clean (seeded_bare key _) alive
    (seeded_tombs.mpr ⟨rfl, by simp⟩) named
  obtain ⟨_, _, settled⟩ := serial _ c ready reach returned
  obtain ⟨⟨q, stores, winner⟩, _⟩ := settled key
  cases q with
  | none => exact absurd (stores.1.symm.trans value) (by simp)
  | some r =>
    obtain ⟨x, member, _⟩ := winner.1
    rw [dead] at member
    exact member.elim

/-- What a call stores of a key with several elements is the greatest. -/
theorem Serializable.last {i : Bool} {key : Key} (own : key ∈ (d i).keys) (clean : id i ∉ (d i).tombIds key) :
    lastValue (d i).priority key (d i).elements = greatestValueInDelta key (d i) := by
  have others : ∀ j, id i ∉ (d j).tombIds key := by
    refine forall_bool_of clean ?_
    have result : key ∈ (d !!i).keys → id (!!i) ∉ (d !!i).tombIds key → id (!!i) ∉ (d !i).tombIds key :=
      serial.unnamed ranked blocks distinct
    simp only [Bool.not_not] at result
    exact result own clean
  have ready : Ready env (seeded key [id !i] none) := seeded_ready (fun e here => by cases here)
  have alive : id i ∉ tombsOf (seeded key [id !i] none).store key := fun tomb =>
    (ids_ne distinct i).symm (by simpa using (seeded_tombs.mp tomb).2)
  obtain ⟨c, reach, returned, value, living⟩ := last_left ranked blocks ready i (seeded_bare key _)
    (seeded_tombs.mpr ⟨rfl, by simp⟩) alive others
  obtain ⟨_, _, settled⟩ := serial _ c ready reach returned
  obtain ⟨⟨q, stores, winner⟩, _⟩ := settled key
  obtain ⟨r, rank⟩ := ranked i key own
  have known : env.rank key (id i) = some r := by rw [Env.rank, blocks, Option.bind_some, rank]
  obtain ⟨best, rfl, _⟩ := winner.isSome_of_mem ⟨id i, (living _).mpr ⟨rfl, own⟩, known⟩
  obtain ⟨x, member, rank'⟩ := winner.1
  obtain ⟨rfl, _⟩ := (living x).mp member
  obtain rfl : best = r := Option.some.inj (rank'.symm.trans known)
  obtain ⟨v, greatest, rfl⟩ := Option.map_eq_some_iff.mp rank
  exact value.symm.trans (stores.1.trans greatest.symm)

theorem Serializable.orderly (i : Bool) : (d i).Orderly (id i) :=
  ⟨ranked i, fun _ own clean => serial.last ranked blocks distinct own clean⟩

end Order

section Necessity

variable {env : Env} {d : Bool → Delta} {id : Bool → Id} (serial : Serializable env d id)
  (orderly : ∀ i, (d i).Orderly (id i)) (blocks : ∀ i, env.dag (id i) = some (d i)) (distinct : id false ≠ id true)

include serial orderly blocks

/-- Where one call tombstones a key, what it tombstones covers what the other tombstones. -/
theorem Serializable.tombs_agree {i : Bool} {key : Key} (some : ((d i).tombIds key).Nonempty) {x : Id} {r : Rank}
    (rank : env.rank key x = .some r) (named : x ∈ (d !i).tombIds key) : x ∈ (d i).tombIds key := by
  by_contra fresh
  let dead := [id i, id !i].filter (· ≠ x)
  have ready : Ready env (seeded key dead (.some (x, r))) := seeded_ready (by
    rintro e here
    cases here
    exact ⟨rank, by simp [dead]⟩)
  have gone : ∀ j, id j = x ∨ id j ∈ dead := by
    intro j
    by_cases same : id j = x
    · exact Or.inl same
    · refine Or.inr (List.mem_filter.mpr ⟨?_, by simpa using same⟩)
      cases i <;> cases j <;> simp
  obtain ⟨c, q, reach, returned, winner, stores, elems, tombs⟩ := stale_tombs orderly blocks ready i some (fun _ => by
    rcases gone i with same | member
    · exact Or.inr ⟨!i, same ▸ named⟩
    · exact Or.inl (seeded_tombs.mpr ⟨rfl, member⟩))
  have alive : r ∈ env.ranks key (survivors (seeded key dead (.some (x, r))).store key ((d i).tombIds key)) :=
    ⟨x, ⟨seeded_elems.mpr ⟨rfl, r, rfl⟩, fun tomb => by simpa [dead] using (seeded_tombs.mp tomb).2, fresh⟩, rank⟩
  obtain ⟨best, rfl, _⟩ := winner.isSome_of_mem alive
  obtain ⟨_, _, settled⟩ := serial _ c ready reach returned
  obtain ⟨⟨q', stores', winner'⟩, _⟩ := settled key
  cases stores.unique stores'
  obtain ⟨y, ⟨elem, living, _⟩, _⟩ := winner'.1
  rcases (elems y).mp elem with old | ⟨j, rfl, _⟩
  · obtain ⟨_, _, same⟩ := seeded_elems.mp old
    cases same
    exact living ((tombs _).mpr (Or.inr ⟨!i, named⟩))
  · rcases gone j with same | member
    · exact living ((tombs _).mpr (Or.inr ⟨!i, same ▸ named⟩))
    · exact living ((tombs _).mpr (Or.inl (seeded_tombs.mpr ⟨rfl, member⟩)))

include distinct

/-- Where one call tombstones a key, an element the other adds to it is tombstoned. -/
theorem Serializable.add_named {i : Bool} {key : Key} (some : ((d i).tombIds key).Nonempty)
    (own : key ∈ (d !i).keys) : ∃ j, id (!i) ∈ (d j).tombIds key := by
  by_contra fresh
  have ready : Ready env (seeded key [id i] none) := seeded_ready (fun e here => by cases here)
  obtain ⟨c, q, reach, returned, winner, stores, elems, tombs⟩ := stale_tombs orderly blocks ready i some
    (fun _ => Or.inl (seeded_tombs.mpr ⟨rfl, by simp⟩))
  have empty : q = none := by
    cases q with
    | none => rfl
    | some r =>
      obtain ⟨x, ⟨elem, _⟩, _⟩ := winner.1
      obtain ⟨_, _, here⟩ := seeded_elems.mp elem
      cases here
  subst empty
  obtain ⟨_, _, settled⟩ := serial _ c ready reach returned
  obtain ⟨⟨q', stores', winner'⟩, _⟩ := settled key
  cases stores.unique stores'
  obtain ⟨r, rank⟩ := (orderly !i).ranked.known (blocks !i) own
  have living : r ∈ env.ranks key (survivors c.state.store key ∅) := by
    refine ⟨id !i, ⟨(elems _).mpr (Or.inr ⟨!i, rfl, own⟩), fun tomb => ?_, by simp⟩, rank⟩
    rcases (tombs _).mp tomb with old | named
    · exact ids_ne distinct i (by simpa using (seeded_tombs.mp old).2)
    · exact fresh named
  rw [show env.ranks key (survivors c.state.store key ∅) = ∅ from winner'] at living
  exact living

theorem Serializable.apart : Apart env d id := by
  intro i key some
  by_cases both : ((d !i).tombIds key).Nonempty
  · have agree : ∀ x r, env.rank key x = .some r → (x ∈ (d i).tombIds key ↔ x ∈ (d !i).tombIds key) := by
      intro x r rank
      refine ⟨fun here => serial.tombs_agree orderly blocks both rank ?_, serial.tombs_agree orderly blocks some rank⟩
      rw [Bool.not_not]
      exact here
    refine Or.inr ⟨both, agree, fun j own => ?_⟩
    obtain ⟨r, rank⟩ := (orderly j).ranked.known (blocks j) own
    have named : ∃ l, id j ∈ (d l).tombIds key := by
      by_cases mine : j = i
      · subst mine
        have result := serial.add_named orderly blocks distinct (i := !j) both (by rw [Bool.not_not]; exact own)
        rwa [Bool.not_not] at result
      · obtain rfl : j = !i := by cases i <;> cases j <;> simp_all
        exact serial.add_named orderly blocks distinct some own
    obtain ⟨l, here⟩ := named
    by_cases mine : l = i
    · exact mine ▸ here
    · obtain rfl : l = !i := by cases i <;> cases l <;> simp_all
      exact (agree _ r rank).mpr here
  · refine Or.inl ⟨fun own => both ?_, both⟩
    obtain ⟨j, named⟩ := serial.add_named orderly blocks distinct some own
    by_cases mine : j = i
    · exact absurd (mine ▸ named) (serial.unnamed (fun i => (orderly i).ranked) blocks distinct own (fun here => both ⟨_, here⟩))
    · obtain rfl : j = !i := by cases i <;> cases j <;> simp_all
      exact ⟨_, named⟩

end Necessity

namespace Pair

/-- A write, two writes of one key in one delta, and deletes that know an older write of that key and of another one. -/
def write : Delta := .of [{ key := ["k"], value := [1] }] [] 2

def rewrite : Delta := .of [{ key := ["k"], value := [1] }, { key := ["k"], value := [2] }] [] 2

def removal : Delta := .of [] [{ key := ["k"], id := "a" }] 2

def elsewhere : Delta := .of [] [{ key := ["l"], id := "a" }] 2

def deltas (first second : Delta) : Bool → Delta
  | false => first
  | true => second

def ids : Bool → Id
  | false => "b"
  | true => "c"

def dag (first second : Delta) (id : Id) : Option Delta :=
  if id = "b" then some first else if id = "c" then some second else none

end Pair

end OpenTela
