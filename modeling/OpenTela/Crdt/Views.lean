import OpenTela.Lib.Winner
import OpenTela.Crdt.Set
import Mathlib.Data.Prod.Lex
import Mathlib.Data.Set.Insert

namespace OpenTela

abbrev SetStore := Store Path Bytes

/-- Elements compete by priority, ties by value. -/
abbrev Rank := ℕ ×ₗ Bytes

/-- The rank a delta gives to a key. -/
def Delta.rank (key : Key) (d : Delta) : Option Rank :=
  (greatestValueInDelta key d).map (fun v => toLex (d.priority, v))

def Delta.keys (d : Delta) : List Key := d.elements.map Element.key

/-- The blocks whose element of a key the delta removes. -/
def Delta.tombIds (d : Delta) (key : Key) : Set Id := {id | ∃ e ∈ d.tombstones, e.key = key ∧ e.id = id}

/-- A delta as `Put` and `Delete` produce them: one element a key, none with an empty value. -/
structure Delta.Produced (d : Delta) : Prop where
  nodup : d.keys.Nodup
  nonempty : ∀ e ∈ d.elements, e.value ≠ []

instance (d : Delta) : Decidable d.Produced :=
  decidable_of_iff (d.keys.Nodup ∧ ∀ e ∈ d.elements, e.value ≠ [])
    ⟨fun both => ⟨both.1, both.2⟩, fun produced => ⟨produced.nodup, produced.nonempty⟩⟩

/-- Each key of the delta has a value that is not empty. -/
def Delta.Ranked (d : Delta) : Prop := ∀ key ∈ d.keys, ∃ r, d.rank key = some r

/-- The last value among elements of a key. An empty one at priority 0 does not count. -/
def lastValue (prio : ℕ) (key : Key) (elements : List Element) : Option Bytes :=
  elements.foldl (fun last elem => if elem.key = key ∧ (0 < prio ∨ elem.value ≠ []) then some elem.value else last) none

/-- A delta that may have several elements of a key: the last of them is the greatest, unless the
delta of block `id` removes its own element of the key. -/
structure Delta.Orderly (d : Delta) (id : Id) : Prop where
  ranked : d.Ranked
  last : ∀ key ∈ d.keys, id ∉ d.tombIds key → lastValue d.priority key d.elements = greatestValueInDelta key d

/-- The rank of the element of a key that a block holds. -/
def Env.rank (env : Env) (key : Key) (id : Id) : Option Rank := (env.dag id).bind (Delta.rank key)

def Env.ranks (env : Env) (key : Key) (ids : Set Id) : Set Rank :=
  {r | ∃ id ∈ ids, env.rank key id = some r}

section Views

variable (s : SetStore) (key : Key)

def elemsOf : Set Id := {id | s.has (elemsKey key id) = true}

def tombsOf : Set Id := {id | s.has (tombsKey key id) = true}

/-- The elements of a key that are neither tombstoned nor in `ids`. -/
def survivors (ids : Set Id) : Set Id := {id | id ∈ elemsOf s key ∧ id ∉ tombsOf s key ∧ id ∉ ids}

/-- The value and priority keys hold this rank; without one, neither is there. -/
def Stores : Option Rank → Prop
  | none => s.lookup (valueKey key) = none ∧ s.lookup (priorityKey key) = none
  | some r => s.lookup (valueKey key) = some (ofLex r).2 ∧
      s.lookup (priorityKey key) = some (putUvarint (((ofLex r).1 + 1) % word)) ∧ (ofLex r).1 < word

/-- What is stored for the key is the best of its elements that no tombstone names. -/
def Settled (env : Env) : Prop :=
  ∃ q, Stores s key q ∧ Winner (env.ranks key (survivors s key ∅)) q

end Views

/-- Every element comes from a block the DAG service has, and what is stored for a key decodes. -/
structure Sane (env : Env) (s : SetStore) : Prop where
  known : ∀ key, ∀ id ∈ elemsOf s key, ∃ r, env.rank key id = some r
  cells : ∀ key, ∃ q, Stores s key q

section Transitions

variable (env : Env) (key : Key) (s t : SetStore)

/-- Nothing about the key differs between the stores. -/
structure Unchanged : Prop where
  elems : elemsOf t key = elemsOf s key
  tombs : tombsOf t key = tombsOf s key
  value : t.lookup (valueKey key) = s.lookup (valueKey key)
  priority : t.lookup (priorityKey key) = s.lookup (priorityKey key)

/-- The ids are tombstoned, and the best survivor is what is stored now. -/
structure Buries (ids : Set Id) : Prop where
  elems : elemsOf t key = elemsOf s key
  tombs : tombsOf t key = tombsOf s key ∪ ids
  best : ∃ q, Winner (env.ranks key (survivors s key ids)) q ∧ Stores t key q

/-- The element of block `id` is added and challenges what is stored, unless it is tombstoned. -/
structure Adds (id : Id) : Prop where
  elems : elemsOf t key = insert id (elemsOf s key)
  tombs : tombsOf t key = tombsOf s key
  buried : id ∈ tombsOf s key → t.lookup (valueKey key) = s.lookup (valueKey key) ∧
    t.lookup (priorityKey key) = s.lookup (priorityKey key)
  alive : id ∉ tombsOf s key → ∀ q r, Stores s key q → env.rank key id = some r → Stores t key (challenge q r)

end Transitions

section Lemmas

variable {env : Env} {key : Key} {s t : SetStore} {q q' : Option Rank} {id : Id} {ids : Set Id}

theorem Stores.unique (first : Stores s key q) (second : Stores s key q') : q = q' := by
  cases q with
  | none =>
    cases q' with
    | none => rfl
    | some r => exact absurd (first.1.symm.trans second.1) (by simp)
  | some r =>
    cases q' with
    | none => exact absurd (first.1.symm.trans second.1) (by simp)
    | some r' =>
      have value := Option.some.inj (first.1.symm.trans second.1)
      have code := Option.some.inj (first.2.1.symm.trans second.2.1)
      have wrapped : ((ofLex r).1 + 1) % word = ((ofLex r').1 + 1) % word := by
        have positive : 0 < word := by decide
        have decoded := congrArg uvarint code
        rw [uvarint_putUvarint (Nat.mod_lt _ positive), uvarint_putUvarint (Nat.mod_lt _ positive)] at decoded
        exact Option.some.inj decoded
      have bound := first.2.2
      have bound' := second.2.2
      have priority : (ofLex r).1 = (ofLex r').1 := by
        simp only [word] at wrapped bound bound'
        omega
      exact congrArg some (ofLex.injective (Prod.ext priority value))

theorem Stores.congr (value : t.lookup (valueKey key) = s.lookup (valueKey key))
    (priority : t.lookup (priorityKey key) = s.lookup (priorityKey key)) (stores : Stores s key q) :
    Stores t key q := by
  cases q with
  | none => exact ⟨value.trans stores.1, priority.trans stores.2⟩
  | some r => exact ⟨value.trans stores.1, priority.trans stores.2.1, stores.2.2⟩

/-- `Element` and `InSet` read the stored rank. -/
theorem Stores.lookup_value (stores : Stores s key q) :
    s.lookup (valueKey key) = q.map (fun r => (ofLex r).2) := by
  cases q with
  | none => exact stores.1
  | some r => exact stores.1

theorem Unchanged.refl (key : Key) (s : SetStore) : Unchanged key s s := ⟨rfl, rfl, rfl, rfl⟩

theorem Unchanged.stores (same : Unchanged key s t) (stores : Stores s key q) : Stores t key q :=
  stores.congr same.value same.priority

theorem Unchanged.survivors (same : Unchanged key s t) (ids : Set Id) :
    survivors t key ids = survivors s key ids := by
  simp only [OpenTela.survivors, same.elems, same.tombs]

theorem Env.ranks_insert (env : Env) {id : Id} {r : Rank} (rank : env.rank key id = some r) (ids : Set Id) :
    env.ranks key (insert id ids) = insert r (env.ranks key ids) := by
  ext q
  constructor
  · rintro ⟨i, member, same⟩
    rcases Set.mem_insert_iff.mp member with rfl | old
    · exact Or.inl (Option.some.inj (same.symm.trans rank))
    · exact Or.inr ⟨i, old, same⟩
  · rintro (rfl | ⟨i, old, same⟩)
    · exact ⟨id, Set.mem_insert _ _, rank⟩
    · exact ⟨i, Set.mem_insert_of_mem _ old, same⟩

theorem Unchanged.settled (same : Unchanged key s t) (settled : Settled s key env) : Settled t key env := by
  obtain ⟨q, stores, best⟩ := settled
  exact ⟨q, same.stores stores, by rw [same.survivors]; exact best⟩

/-- After a tombstone step the key is settled, whatever was stored before. -/
theorem Buries.settled (buries : Buries env key s t ids) : Settled t key env := by
  obtain ⟨q, best, stores⟩ := buries.best
  refine ⟨q, stores, ?_⟩
  have same : OpenTela.survivors t key ∅ = OpenTela.survivors s key ids := by
    ext i
    simp only [OpenTela.survivors, buries.elems, buries.tombs, Set.mem_ofPred_eq, Set.mem_union, not_or,
      Set.mem_empty_iff_false, not_false_eq_true, and_true]
  rw [same]
  exact best

theorem Adds.settled (adds : Adds env key s t id) (known : ∃ r, env.rank key id = some r)
    (settled : Settled s key env) : Settled t key env := by
  obtain ⟨q, stores, best⟩ := settled
  obtain ⟨r, rank⟩ := known
  by_cases buried : id ∈ tombsOf s key
  · obtain ⟨value, priority⟩ := adds.buried buried
    refine ⟨q, stores.congr value priority, ?_⟩
    have same : OpenTela.survivors t key ∅ = OpenTela.survivors s key ∅ := by
      ext i
      simp only [OpenTela.survivors, adds.elems, adds.tombs, Set.mem_ofPred_eq, Set.mem_insert_iff]
      constructor
      · rintro ⟨rfl | old, alive, _⟩
        · exact absurd buried alive
        · exact ⟨old, alive, by simp⟩
      · rintro ⟨old, rest⟩
        exact ⟨Or.inr old, rest⟩
    rw [same]
    exact best
  · refine ⟨challenge q r, adds.alive buried q r stores rank, ?_⟩
    have grown : OpenTela.survivors t key ∅ = insert id (OpenTela.survivors s key ∅) := by
      ext i
      simp only [OpenTela.survivors, adds.elems, adds.tombs, Set.mem_ofPred_eq, Set.mem_insert_iff]
      constructor
      · rintro ⟨rfl | old, rest⟩
        · exact Or.inl rfl
        · exact Or.inr ⟨old, rest⟩
      · rintro (rfl | ⟨old, rest⟩)
        · exact ⟨Or.inl rfl, buried, by simp⟩
        · exact ⟨Or.inr old, rest⟩
    rw [grown, env.ranks_insert rank]
    exact best.insert r

theorem Unchanged.of_lookup (elems : ∀ id, t.lookup (elemsKey key id) = s.lookup (elemsKey key id))
    (tombs : ∀ id, t.lookup (tombsKey key id) = s.lookup (tombsKey key id))
    (value : t.lookup (valueKey key) = s.lookup (valueKey key))
    (priority : t.lookup (priorityKey key) = s.lookup (priorityKey key)) : Unchanged key s t := by
  refine ⟨?_, ?_, value, priority⟩
  · ext id
    simp only [elemsOf, Store.has, Set.mem_ofPred_eq, elems]
  · ext id
    simp only [tombsOf, Store.has, Set.mem_ofPred_eq, tombs]

end Lemmas

section Ranks

variable {key : Key}

/-- The fold of `greatestValueInDelta` over elements of other keys keeps its value. -/
theorem greatest_fold_other {elements : List Element} (other : ∀ e ∈ elements, e.key ≠ key)
    (greatest : Option Bytes) :
    elements.foldl (fun greatest elem =>
      if elem.key = key then
        if greatest.getD [] < elem.value then some elem.value else greatest
      else greatest) greatest = greatest := by
  induction elements generalizing greatest with
  | nil => rfl
  | cons e rest ih =>
    simp only [List.foldl_cons, if_neg (other e (List.mem_cons_self ..))]
    exact ih (fun e' member => other e' (List.mem_cons_of_mem _ member)) greatest

theorem nil_lt_of_ne_nil {value : Bytes} (nonempty : value ≠ []) : ([] : Bytes) < value := by
  cases value with
  | nil => exact absurd rfl nonempty
  | cons b rest => exact List.nil_lt_cons b rest

/-- A produced delta gives each of its keys the value of its one element. -/
theorem Delta.Produced.greatest {d : Delta} (produced : d.Produced) {e : Element} (member : e ∈ d.elements) :
    greatestValueInDelta e.key d = some e.value := by
  obtain ⟨before, after, split⟩ := List.append_of_mem member
  have nodup := produced.nodup
  simp only [Delta.keys, split, List.map_append, List.map_cons] at nodup
  have apart := List.nodup_append.mp nodup
  have left : ∀ e' ∈ before, e'.key ≠ e.key := fun e' here =>
    apart.2.2 e'.key (List.mem_map_of_mem here) e.key (List.mem_cons_self ..)
  have right : ∀ e' ∈ after, e'.key ≠ e.key := by
    intro e' here same
    exact (List.nodup_cons.mp apart.2.1).1 (same ▸ List.mem_map_of_mem here)
  have positive := nil_lt_of_ne_nil (produced.nonempty e member)
  unfold greatestValueInDelta
  rw [split, List.foldl_append, greatest_fold_other left, List.foldl_cons, if_pos rfl, Option.getD_none,
    if_pos positive, greatest_fold_other right]

theorem Delta.Produced.rank {d : Delta} (produced : d.Produced) {e : Element} (member : e ∈ d.elements) :
    d.rank e.key = some (toLex (d.priority, e.value)) := by
  rw [Delta.rank, produced.greatest member, Option.map_some]

theorem Delta.Produced.ranked {d : Delta} (produced : d.Produced) : d.Ranked := by
  intro key own
  obtain ⟨e, member, rfl⟩ := List.mem_map.mp own
  exact ⟨_, produced.rank member⟩

theorem last_fold_other {prio : ℕ} {elements : List Element} (other : ∀ e ∈ elements, e.key ≠ key) (last : Option Bytes) :
    elements.foldl (fun last elem => if elem.key = key ∧ (0 < prio ∨ elem.value ≠ []) then some elem.value else last) last = last := by
  induction elements with
  | nil => rfl
  | cons e rest ih =>
    rw [List.foldl_cons, if_neg (fun both => other e (List.mem_cons_self ..) both.1)]
    exact ih (fun e' member => other e' (List.mem_cons_of_mem _ member))

theorem Delta.Produced.orderly {d : Delta} (produced : d.Produced) (id : Id) : d.Orderly id := by
  refine ⟨produced.ranked, fun key own _ => ?_⟩
  obtain ⟨e, member, rfl⟩ := List.mem_map.mp own
  rw [produced.greatest member]
  obtain ⟨before, after, split⟩ := List.append_of_mem member
  have nodup := produced.nodup
  simp only [Delta.keys, split, List.map_append, List.map_cons] at nodup
  have right : ∀ e' ∈ after, e'.key ≠ e.key := by
    intro e' here same
    exact (List.nodup_cons.mp (List.nodup_append.mp nodup).2.1).1 (same ▸ List.mem_map_of_mem here)
  rw [lastValue, split, List.foldl_append, List.foldl_cons, if_pos ⟨rfl, Or.inr (produced.nonempty e member)⟩, last_fold_other right]

theorem le_greatest_fold (elements : List Element) (greatest : Option Bytes) :
    let final := elements.foldl (fun greatest elem =>
      if elem.key = key then
        if greatest.getD [] < elem.value then some elem.value else greatest
      else greatest) greatest
    greatest.getD [] ≤ final.getD [] ∧ ∀ e ∈ elements, e.key = key → e.value ≤ final.getD [] := by
  induction elements generalizing greatest with
  | nil => exact ⟨le_rfl, fun _ none => by cases none⟩
  | cons e rest ih =>
    simp only [List.foldl_cons]
    obtain ⟨above, others⟩ := ih (if e.key = key then
      if greatest.getD [] < e.value then some e.value else greatest
      else greatest)
    refine ⟨le_trans ?_ above, fun e' member own => ?_⟩
    · split
      · split
        · rename_i below
          exact below.le
        · exact le_rfl
      · exact le_rfl
    · rcases List.mem_cons.mp member with rfl | later
      · refine le_trans ?_ above
        rw [if_pos own]
        split
        · exact le_rfl
        · rename_i notBelow
          exact not_lt.mp notBelow
      · exact others e' later own

theorem greatest_fold_mem {elements : List Element} {greatest : Option Bytes} {v : Bytes}
    (final : elements.foldl (fun greatest elem =>
      if elem.key = key then
        if greatest.getD [] < elem.value then some elem.value else greatest
      else greatest) greatest = some v) : greatest = some v ∨ ∃ e ∈ elements, e.key = key ∧ e.value = v := by
  induction elements generalizing greatest with
  | nil => exact Or.inl final
  | cons e rest ih =>
    rw [List.foldl_cons] at final
    rcases ih final with before | ⟨e', member, same⟩
    · split at before
      · rename_i own
        split at before
        · exact Or.inr ⟨e, List.mem_cons_self .., own, Option.some.inj before⟩
        · exact Or.inl before
      · exact Or.inl before
    · exact Or.inr ⟨e', List.mem_cons_of_mem _ member, same⟩

/-- No element of the key is above the rank. -/
theorem Delta.le_of_rank {d : Delta} {r : Rank} (rank : d.rank key = some r) {e : Element} (member : e ∈ d.elements) (own : e.key = key) :
    toLex (d.priority, e.value) ≤ r := by
  obtain ⟨v, greatest, rfl⟩ := Option.map_eq_some_iff.mp rank
  have above := (le_greatest_fold d.elements none).2 e member own
  simp only [greatestValueInDelta] at greatest
  rw [greatest, Option.getD_some] at above
  exact Prod.Lex.toLex_mono (Prod.mk_le_mk.mpr ⟨le_rfl, above⟩)

theorem greatest_fold_positive {key : Key} {elements : List Element} {greatest : Option Bytes}
    (positive : ∀ v, greatest = some v → [] < v) :
    ∀ v, elements.foldl (fun greatest elem =>
      if elem.key = key then
        if greatest.getD [] < elem.value then some elem.value else greatest
      else greatest) greatest = some v → [] < v := by
  induction elements generalizing greatest with
  | nil => exact positive
  | cons e rest ih =>
    rw [List.foldl_cons]
    apply ih
    intro v value
    split at value
    · split at value
      · rename_i above
        cases Option.some.inj value
        cases greatest with
        | none => exact above
        | some old => exact lt_trans (positive old rfl) above
      · exact positive v value
    · exact positive v value

theorem greatestValueInDelta_positive {key : Key} {d : Delta} {v : Bytes}
    (greatest : greatestValueInDelta key d = some v) : [] < v :=
  greatest_fold_positive (fun _ none => by cases none) v greatest

end Ranks

end OpenTela
