import OpenTela.Crdt.Triples
import Mathlib.Data.List.Induction

namespace OpenTela

open OpenTela.SetM

/-- The priority `getPriority` reads. -/
def curPriority (s : SetStore) (key : Key) : ℕ :=
  match s.lookup (priorityKey key) with
  | none => 0
  | some data => ((uvarint data).getD 0 + (word - 1)) % word

/-- The test `setValue` makes on a store: not tombstoned, and above what is stored. -/
def accepts (s : SetStore) (key : Key) (id : Id) (value : Bytes) (prio : ℕ) : Bool :=
  !s.has (tombsKey key id) && (decide (curPriority s key < prio) ||
    decide (prio = curPriority s key) && decide ((s.lookup (valueKey key)).getD [] < value))

/-- The put hooks of a call that finds this store, in the order of its elements. -/
def putHooks (s : SetStore) (id : Id) (prio : ℕ) (elems : List Element) : List Hook :=
  (elems.filter (fun e => accepts s e.key id e.value prio)).map (fun e => Hook.put e.key e.value)

def elemWrites (s : SetStore) (id : Id) (prio : ℕ) : List Element → Batch Path Bytes → Batch Path Bytes
  | [], b => b
  | e :: rest, b =>
    elemWrites s id prio rest
      (if accepts s e.key id e.value prio then
        setPriority ((b.put (elemsKey e.key id) []).put (valueKey e.key) e.value) e.key prio
      else b.put (elemsKey e.key id) [])

section Writes

variable {s t : SetStore} {id : Id} {prio : ℕ}

theorem curPriority_of_stores {key : Key} {q : Option Rank} (stores : Stores s key q) :
    curPriority s key = q.elim 0 (fun r => (ofLex r).1) := by
  cases q with
  | none => simp [curPriority, stores.2]
  | some r =>
    have wrapped : ((ofLex r).1 + 1) % word < word := Nat.mod_lt _ (by decide)
    have bound := stores.2.2
    simp only [curPriority, stores.2.1, uvarint_putUvarint wrapped, Option.getD_some, Option.elim_some]
    simp only [word] at bound ⊢
    omega

/-- Where nothing is stored, an element is refused only for a tombstone, or for an empty value at priority 0. -/
theorem accepts_none (id : Id) (prio : ℕ) {key : Key} {value : Bytes} (stores : Stores s key none) :
    accepts s key id value prio = true ↔ id ∉ tombsOf s key ∧ (0 < prio ∨ value ≠ []) := by
  have priority := curPriority_of_stores stores
  have stored := stores.lookup_value
  simp only [accepts, Bool.and_eq_true, Bool.not_eq_true', Bool.or_eq_true, decide_eq_true_eq, priority, stored]
  refine and_congr (by simp [tombsOf]) ?_
  simp only [Option.elim_none, Option.map_none, Option.getD_none]
  constructor
  · rintro (above | ⟨_, positive⟩)
    · exact Or.inl above
    · exact Or.inr (fun empty => absurd (empty ▸ positive) (lt_irrefl _))
  · rintro (above | nonempty)
    · exact Or.inl above
    · rcases Nat.eq_zero_or_pos prio with zero | above
      · exact Or.inr ⟨zero, nil_lt_of_ne_nil nonempty⟩
      · exact Or.inl above

theorem accepts_some (id : Id) (prio : ℕ) {key : Key} {value : Bytes} {r : Rank} (stores : Stores s key (some r)) :
    accepts s key id value prio = true ↔ id ∉ tombsOf s key ∧ r < toLex (prio, value) := by
  have priority := curPriority_of_stores stores
  have stored := stores.lookup_value
  simp only [accepts, Bool.and_eq_true, Bool.not_eq_true', Bool.or_eq_true, decide_eq_true_eq, priority, stored]
  refine and_congr (by simp [tombsOf]) ?_
  simp only [Option.elim_some, Option.map_some, Option.getD_some]
  rw [Prod.Lex.lt_iff]
  simp only [ofLex_toLex, eq_comm (a := prio)]

/-- On a store that decodes, the test is the comparison of ranks. -/
theorem accepts_iff (id : Id) (prio : ℕ) {key : Key} {value : Bytes} {q : Option Rank} (stores : Stores s key q) (nonempty : value ≠ []) :
    accepts s key id value prio = true ↔
      id ∉ tombsOf s key ∧ ∀ r, q = some r → r < toLex (prio, value) := by
  cases q with
  | none =>
    rw [accepts_none id prio stores]
    exact and_congr_right (fun _ => ⟨fun _ r none => (by cases none), fun _ => Or.inr nonempty⟩)
  | some r => simp only [accepts_some id prio stores, Option.some.injEq, forall_eq']

theorem lookup_elemWrites_other {elems : List Element} {b : Batch Path Bytes} {path : Path}
    (noElem : ∀ e ∈ elems, path ≠ elemsKey e.key id) (noValue : ∀ e ∈ elems, path ≠ valueKey e.key)
    (noPriority : ∀ e ∈ elems, path ≠ priorityKey e.key) :
    ((elemWrites s id prio elems b).apply t).lookup path = (b.apply t).lookup path := by
  induction elems generalizing b with
  | nil => rfl
  | cons e rest ih =>
    rw [elemWrites, ih (fun e' member => noElem e' (List.mem_cons_of_mem _ member))
      (fun e' member => noValue e' (List.mem_cons_of_mem _ member))
      (fun e' member => noPriority e' (List.mem_cons_of_mem _ member))]
    have h₁ := noElem e (List.mem_cons_self ..)
    have h₂ := noValue e (List.mem_cons_self ..)
    have h₃ := noPriority e (List.mem_cons_self ..)
    split <;> simp [setPriority, h₁, h₂, h₃]

theorem lookup_elemWrites_elem {elems : List Element} {b : Batch Path Bytes} {key : Key}
    (own : key ∈ elems.map Element.key ∨ (b.apply t).lookup (elemsKey key id) = some []) :
    ((elemWrites s id prio elems b).apply t).lookup (elemsKey key id) = some [] := by
  induction elems generalizing b with
  | nil => exact own.resolve_left (by simp)
  | cons e rest ih =>
    rw [elemWrites]
    refine ih ?_
    by_cases here : key = e.key
    · subst here
      refine Or.inr ?_
      split <;> simp [setPriority]
    · refine own.imp (fun member => ?_) (fun before => ?_)
      · exact (List.mem_cons.mp member).resolve_left here
      · split <;> simp [setPriority, here, before]

/-- The value a call that finds the store `s` leaves of a key: that of the last element it accepts. -/
def taken (s : SetStore) (id : Id) (prio : ℕ) (key : Key) (elems : List Element) (old : Option Bytes) : Option Bytes :=
  elems.foldl (fun value e => if e.key = key ∧ accepts s key id e.value prio = true then some e.value else value) old

theorem lookup_elemWrites_value (s t : SetStore) (id : Id) (prio : ℕ) (elems : List Element) (b : Batch Path Bytes) (key : Key) :
    ((elemWrites s id prio elems b).apply t).lookup (valueKey key) =
      taken s id prio key elems ((b.apply t).lookup (valueKey key)) := by
  induction elems generalizing b with
  | nil => rfl
  | cons e rest ih =>
    rw [elemWrites, ih, taken, taken, List.foldl_cons]
    congr 1
    by_cases here : key = e.key
    · subst here
      split <;> rename_i test <;> simp [setPriority, test]
    · split <;> simp [setPriority, here, Ne.symm here]

theorem lookup_elemWrites_priority (s t : SetStore) (id : Id) (prio : ℕ) (elems : List Element) (b : Batch Path Bytes) (key : Key) :
    ((elemWrites s id prio elems b).apply t).lookup (priorityKey key) =
      if ∃ e ∈ elems, e.key = key ∧ accepts s key id e.value prio = true then some (putUvarint ((prio + 1) % word))
      else (b.apply t).lookup (priorityKey key) := by
  induction elems generalizing b with
  | nil => simp [elemWrites]
  | cons e rest ih =>
    rw [elemWrites, ih]
    simp only [List.exists_mem_cons_iff]
    by_cases later : ∃ e ∈ rest, e.key = key ∧ accepts s key id e.value prio = true
    · rw [if_pos later, if_pos (Or.inr later)]
    · rw [if_neg later]
      simp only [later, or_false]
      by_cases here : key = e.key
      · subst here
        split <;> rename_i test <;> simp [setPriority, test]
      · split <;> simp [setPriority, here, Ne.symm here]

section Taken

variable {key : Key} {elems : List Element}

/-- Where none of its elements of a key is accepted, the call leaves the key alone. -/
theorem taken_of_refused (refused : ∀ e ∈ elems, e.key = key → accepts s key id e.value prio = false) (old : Option Bytes) :
    taken s id prio key elems old = old := by
  induction elems with
  | nil => rfl
  | cons e rest ih =>
    have not : ¬ (e.key = key ∧ accepts s key id e.value prio = true) := fun both => by
      rw [refused e (List.mem_cons_self ..) both.1] at both
      cases both.2
    rw [taken, List.foldl_cons, if_neg not]
    exact ih (fun e' member => refused e' (List.mem_cons_of_mem _ member))

/-- Nothing of a tombstoned element is accepted. -/
theorem accepts_dead {value : Bytes} (dead : id ∈ tombsOf s key) : accepts s key id value prio = false := by
  have tomb : s.has (tombsKey key id) = true := dead
  simp [accepts, tomb]

theorem taken_isSome (some : ∃ e ∈ elems, e.key = key ∧ accepts s key id e.value prio = true) (old : Option Bytes) :
    ∃ v, taken s id prio key elems old = .some v := by
  induction elems generalizing old with
  | nil =>
    obtain ⟨e, member, _⟩ := some
    cases member
  | cons e rest ih =>
    rw [taken, List.foldl_cons]
    by_cases later : ∃ e ∈ rest, e.key = key ∧ accepts s key id e.value prio = true
    · exact ih later _
    · obtain ⟨e', member, accepted⟩ := some
      rcases List.mem_cons.mp member with rfl | there
      · refine ⟨e'.value, ?_⟩
        rw [if_pos accepted]
        refine taken_of_refused (fun e member own => Bool.eq_false_iff.mpr (fun accepted => later ⟨e, member, own, accepted⟩)) _
      · exact absurd ⟨e', there, accepted⟩ later

/-- An empty value is never accepted at priority 0. -/
theorem refuses_empty : accepts s key id [] 0 = false := by simp [accepts]

/-- Where the last value is accepted, it is the one left. -/
theorem taken_of_last {v : Bytes} (last : lastValue prio key elems = some v) (accepted : accepts s key id v prio = true)
    (old : Option Bytes) : taken s id prio key elems old = some v := by
  induction elems using List.reverseRecOn with
  | nil => cases last
  | append_singleton init e ih =>
    rw [lastValue, List.foldl_append, List.foldl_cons, List.foldl_nil] at last
    rw [taken, List.foldl_append, List.foldl_cons, List.foldl_nil]
    by_cases counts : e.key = key ∧ (0 < prio ∨ e.value ≠ [])
    · rw [if_pos counts] at last
      obtain rfl := Option.some.inj last
      rw [if_pos ⟨counts.1, accepted⟩]
    · rw [if_neg counts] at last
      rw [if_neg ?_]
      · exact ih last
      · rintro ⟨own, test⟩
        have never : ¬ (0 < prio ∨ e.value ≠ []) := fun either => counts ⟨own, either⟩
        obtain ⟨zero, empty⟩ := not_or.mp never
        rw [Nat.eq_zero_of_not_pos zero, not_not.mp empty, refuses_empty] at test
        cases test

/-- Where nothing is stored and no tombstone is in the way, the last value is what a call leaves. -/
theorem taken_of_none (stores : Stores s key none) (alive : id ∉ tombsOf s key) :
    taken s id prio key elems none = lastValue prio key elems := by
  rw [taken, lastValue]
  congr 1
  funext value e
  have same : (e.key = key ∧ accepts s key id e.value prio = true) ↔ (e.key = key ∧ (0 < prio ∨ e.value ≠ [])) :=
    and_congr_right (fun _ => (accepts_none id prio stores).trans (and_iff_right alive))
  simp only [same]

theorem last_mem {v : Bytes} (last : lastValue prio key elems = some v) : ∃ e ∈ elems, e.key = key ∧ e.value = v := by
  induction elems using List.reverseRecOn with
  | nil => cases last
  | append_singleton init e ih =>
    rw [lastValue, List.foldl_append, List.foldl_cons, List.foldl_nil] at last
    by_cases counts : e.key = key ∧ (0 < prio ∨ e.value ≠ [])
    · rw [if_pos counts] at last
      exact ⟨e, List.mem_append_right _ (List.mem_singleton.mpr rfl), counts.1, Option.some.inj last⟩
    · rw [if_neg counts] at last
      obtain ⟨e', member, same⟩ := ih last
      exact ⟨e', List.mem_append_left _ member, same⟩

theorem last_isSome {e : Element} (member : e ∈ elems) (own : e.key = key) (nonempty : e.value ≠ []) :
    ∃ v, lastValue prio key elems = some v := by
  induction elems using List.reverseRecOn with
  | nil => cases member
  | append_singleton init e' ih =>
    rw [lastValue, List.foldl_append, List.foldl_cons, List.foldl_nil]
    by_cases counts : e'.key = key ∧ (0 < prio ∨ e'.value ≠ [])
    · exact ⟨e'.value, if_pos counts⟩
    · rw [if_neg counts]
      rcases List.mem_append.mp member with before | last
      · exact ih before
      · obtain rfl := List.mem_singleton.mp last
        exact absurd ⟨own, Or.inr nonempty⟩ counts

end Taken

/-- A key with a rank has a last value. -/
theorem Delta.last_isSome {d : Delta} {key : Key} {r : Rank} (rank : d.rank key = some r) :
    ∃ v, lastValue d.priority key d.elements = some v := by
  obtain ⟨v, greatest, _⟩ := Option.map_eq_some_iff.mp rank
  have positive := greatestValueInDelta_positive greatest
  obtain ⟨e, member, own, rfl⟩ := (greatest_fold_mem greatest).resolve_left (fun none => by cases none)
  exact OpenTela.last_isSome member own (fun empty => absurd (empty ▸ positive) (lt_irrefl _))

/-- A call adds its element to the keys it has elements for, and no tombstone. -/
theorem tombs_elemWrites (s t : SetStore) (id : Id) (prio : ℕ) (elems : List Element) (key : Key) :
    tombsOf ((elemWrites s id prio elems []).apply t) key = tombsOf t key := by
  ext x
  simp only [tombsOf, Store.has, Set.mem_ofPred_eq]
  rw [lookup_elemWrites_other (by simp) (by simp) (by simp), Batch.lookup_apply_nil]

theorem elems_elemWrites (s t : SetStore) (id : Id) (prio : ℕ) (elems : List Element) (key : Key) (x : Id) :
    x ∈ elemsOf ((elemWrites s id prio elems []).apply t) key ↔ x ∈ elemsOf t key ∨ x = id ∧ key ∈ elems.map Element.key := by
  simp only [elemsOf, Store.has, Set.mem_ofPred_eq]
  by_cases own : x = id ∧ key ∈ elems.map Element.key
  · obtain ⟨rfl, member⟩ := own
    rw [lookup_elemWrites_elem (Or.inl member)]
    simp [member]
  · have other : ∀ e ∈ elems, elemsKey key x ≠ elemsKey e.key id := by
      intro e member path
      obtain ⟨rfl, rfl⟩ := elemsKey_inj.mp path
      exact own ⟨rfl, List.mem_map_of_mem member⟩
    rw [lookup_elemWrites_other other (by simp) (by simp), Batch.lookup_apply_nil]
    simp only [own, or_false]

end Writes

/-- Every key of the delta has its element added; the other keys are left alone. -/
def ElemsCommitted (env : Env) (d : Delta) (id : Id) (s t : SetStore) : Prop :=
  ∀ key, (key ∈ d.keys → Adds env key s t id) ∧ (key ∉ d.keys → Unchanged key s t)

theorem Delta.Ranked.known {env : Env} {d : Delta} {id : Id} (ranked : d.Ranked)
    (block : env.dag id = some d) {key : Key} (member : key ∈ d.keys) : ∃ r, env.rank key id = some r := by
  obtain ⟨r, rank⟩ := ranked key member
  exact ⟨r, by rw [Env.rank, block, Option.bind_some, rank]⟩

theorem ElemsCommitted.sane {env : Env} {d : Delta} {id : Id} {s t : SetStore} (ranked : d.Ranked)
    (block : env.dag id = some d) (committed : ElemsCommitted env d id s t) (sane : Sane env s) : Sane env t := by
  refine ⟨fun key x member => ?_, fun key => ?_⟩
  · by_cases own : key ∈ d.keys
    · rw [((committed key).1 own).elems] at member
      rcases Set.mem_insert_iff.mp member with rfl | old
      · exact ranked.known block own
      · exact sane.known key x old
    · exact sane.known key x (((committed key).2 own).elems ▸ member)
  · obtain ⟨q, stores⟩ := sane.cells key
    by_cases own : key ∈ d.keys
    · have adds := (committed key).1 own
      by_cases buried : id ∈ tombsOf s key
      · exact ⟨q, stores.congr (adds.buried buried).1 (adds.buried buried).2⟩
      · obtain ⟨r, rank⟩ := ranked.known block own
        exact ⟨_, adds.alive buried q r stores rank⟩
    · exact ⟨q, ((committed key).2 own).stores stores⟩

theorem ElemsCommitted.elems_iff {env : Env} {d : Delta} {id : Id} {s t : SetStore} (added : ElemsCommitted env d id s t) (key : Key) (x : Id) :
    x ∈ elemsOf t key ↔ x ∈ elemsOf s key ∨ x = id ∧ key ∈ d.keys := by
  by_cases own : key ∈ d.keys
  · rw [((added key).1 own).elems, Set.mem_insert_iff, or_comm]
    simp only [own, and_true]
  · rw [((added key).2 own).elems]
    simp only [own, and_false, or_false]

theorem ElemsCommitted.tombs_eq {env : Env} {d : Delta} {id : Id} {s t : SetStore} (added : ElemsCommitted env d id s t) (key : Key) :
    tombsOf t key = tombsOf s key := by
  by_cases own : key ∈ d.keys
  · exact ((added key).1 own).tombs
  · exact ((added key).2 own).tombs

theorem ElemsCommitted.settled {env : Env} {d : Delta} {id : Id} {s t : SetStore} (added : ElemsCommitted env d id s t) (ranked : d.Ranked)
    (block : env.dag id = some d) {key : Key} (settled : Settled s key env) : Settled t key env := by
  by_cases own : key ∈ d.keys
  · exact ((added key).1 own).settled (ranked.known block own) settled
  · exact ((added key).2 own).settled settled

/-- What `Get` answers after the commit: the value of the delta's element where that was accepted. -/
theorem ElemsCommitted.value {env : Env} {d : Delta} {id : Id} {s t : SetStore} (added : ElemsCommitted env d id s t)
    (produced : d.Produced) (block : env.dag id = some d) (sane : Sane env s) {e : Element} (member : e ∈ d.elements) :
    t.lookup (valueKey e.key) =
      if accepts s e.key id e.value d.priority then some e.value else s.lookup (valueKey e.key) := by
  have adds := (added e.key).1 (List.mem_map_of_mem member)
  have rank : env.rank e.key id = some (toLex (d.priority, e.value)) := by
    rw [Env.rank, block, Option.bind_some, produced.rank member]
  obtain ⟨q, stores⟩ := sane.cells e.key
  have test := accepts_iff id d.priority stores (produced.nonempty e member)
  by_cases buried : id ∈ tombsOf s e.key
  · rw [if_neg (fun accepted => (test.mp accepted).1 buried)]
    exact (adds.buried buried).1
  have after := (adds.alive buried q _ stores rank).lookup_value
  by_cases accepted : accepts s e.key id e.value d.priority = true
  · rw [if_pos accepted, after, challenge_of_lt (test.mp accepted).2]
    rfl
  · rw [if_neg accepted, after, stores.lookup_value]
    have beaten : ∃ r, q = some r ∧ toLex (d.priority, e.value) ≤ r := by
      by_contra none
      refine accepted (test.mpr ⟨buried, fun r here => ?_⟩)
      exact lt_of_not_ge (fun above => none ⟨r, here, above⟩)
    obtain ⟨r, rfl, above⟩ := beaten
    rw [challenge_of_le above]

/-- A delta that is no better than what is stored has all of its elements of the key refused. -/
theorem refused_of_beaten {d : Delta} {s : SetStore} (id : Id) {key : Key} {r best : Rank} (stores : Stores s key (some r))
    (rank : d.rank key = some best) (above : best ≤ r) :
    ∀ e ∈ d.elements, e.key = key → accepts s key id e.value d.priority = false := by
  intro e member same
  refine Bool.eq_false_iff.mpr (fun accepted => ?_)
  have beats : r < toLex (d.priority, e.value) := ((accepts_some id d.priority stores).mp accepted).2
  have below : toLex (d.priority, e.value) ≤ best := Delta.le_of_rank rank member same
  exact not_lt_of_ge above (beats.trans_le below)

theorem elemWrites_committed {env : Env} {d : Delta} {id : Id} {s : SetStore} (orderly : d.Orderly id)
    (block : env.dag id = some d) (buried : ∀ key, id ∈ d.tombIds key → id ∈ tombsOf s key) :
    ElemsCommitted env d id s ((elemWrites s id d.priority d.elements []).apply s) := by
  intro key
  have value := lookup_elemWrites_value s s id d.priority d.elements [] key
  have priority := lookup_elemWrites_priority s s id d.priority d.elements [] key
  rw [Batch.lookup_apply_nil] at value priority
  -- What holds of a key none of whose elements is accepted.
  have refusing : (∀ e ∈ d.elements, e.key = key → accepts s key id e.value d.priority = false) →
      ((elemWrites s id d.priority d.elements []).apply s).lookup (valueKey key) = s.lookup (valueKey key) ∧
        ((elemWrites s id d.priority d.elements []).apply s).lookup (priorityKey key) = s.lookup (priorityKey key) := by
    intro refused
    refine ⟨value.trans (taken_of_refused refused _), priority.trans (if_neg ?_)⟩
    rintro ⟨e, member, own, accepted⟩
    rw [refused e member own] at accepted
    cases accepted
  constructor
  · intro own
    refine ⟨?_, tombs_elemWrites s s id d.priority d.elements key, fun dead => refusing (fun e _ _ => accepts_dead dead),
      fun alive q r stores rank => ?_⟩
    · ext x
      rw [elems_elemWrites, Set.mem_insert_iff, or_comm]
      exact or_congr_left (and_iff_left own)
    · have last := orderly.last key own (fun named => alive (buried key named))
      rw [Env.rank, block, Option.bind_some] at rank
      obtain ⟨v, greatest, rfl⟩ := Option.map_eq_some_iff.mp rank
      have positive : v ≠ [] := fun empty => absurd (empty ▸ greatestValueInDelta_positive greatest) (lt_irrefl _)
      rw [greatest] at last
      have test := accepts_iff id d.priority stores positive
      by_cases accepted : accepts s key id v d.priority = true
      · obtain ⟨e, member, same, rfl⟩ := last_mem last
        rw [challenge_of_lt (test.mp accepted).2]
        exact ⟨value.trans (taken_of_last last accepted _), priority.trans (if_pos ⟨e, member, same, accepted⟩), d.priority_lt⟩
      · have beaten : ∃ r, q = some r ∧ toLex (d.priority, v) ≤ r := by
          by_contra none
          refine accepted (test.mpr ⟨alive, fun r here => ?_⟩)
          exact lt_of_not_ge (fun above => none ⟨r, here, above⟩)
        obtain ⟨r, rfl, above⟩ := beaten
        rw [challenge_of_le above]
        obtain ⟨sameValue, samePriority⟩ := refusing (refused_of_beaten id stores rank above)
        exact stores.congr sameValue samePriority
  · intro other
    have apart : ∀ e ∈ d.elements, key ≠ e.key := fun e member same => other (same ▸ List.mem_map_of_mem member)
    refine Unchanged.of_lookup (fun x => ?_) (fun x => ?_) ?_ ?_
    · rw [lookup_elemWrites_other (by simpa using fun e member same => absurd same (apart e member)) (by simp) (by simp),
        Batch.lookup_apply_nil]
    · rw [lookup_elemWrites_other (by simp) (by simp) (by simp), Batch.lookup_apply_nil]
    · rw [lookup_elemWrites_other (by simp) (by simpa using apart) (by simp), Batch.lookup_apply_nil]
    · rw [lookup_elemWrites_other (by simp) (by simp) (by simpa using apart), Batch.lookup_apply_nil]

end OpenTela
