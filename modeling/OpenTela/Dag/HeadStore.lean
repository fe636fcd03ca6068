import OpenTela.Dag.Replica

namespace OpenTela

open Prog

/-- What the head set does to its datastore, to the cache of it, and to the mutex of the cache.
A write answers whether it succeeded. -/
inductive HeadOp where
  | write (c : Cid) (height : ℕ)
  | erase (h : Cid)
  | commit (h c : Cid) (height : ℕ)
  | lock
  | unlock
  | cacheSet (c : Cid) (height : ℕ)
  | cacheDelete (h : Cid)

def HeadOp.Res : HeadOp → Type
  | .write _ _ | .erase _ | .commit _ _ _ => Bool
  | _ => Unit

abbrev HeadM := Prog HeadOp HeadOp.Res String

namespace HeadM

def write (c : Cid) (height : ℕ) : HeadM Bool := Prog.perform (HeadOp.write c height)
def erase (h : Cid) : HeadM Bool := Prog.perform (HeadOp.erase h)
def commit (h c : Cid) (height : ℕ) : HeadM Bool := Prog.perform (HeadOp.commit h c height)
def lock : HeadM Unit := Prog.perform HeadOp.lock
def unlock : HeadM Unit := Prog.perform HeadOp.unlock
def cacheSet (c : Cid) (height : ℕ) : HeadM Unit := Prog.perform (HeadOp.cacheSet c height)
def cacheDelete (h : Cid) : HeadM Unit := Prog.perform (HeadOp.cacheDelete h)

/-- `heads.Add`. -/
def add (c : Cid) (height : ℕ) : HeadM Unit := do
  if ← write c height then
    lock
    cacheSet c height
    unlock
  else .fail "datastore error"

/-- `heads.Replace` on a batching datastore: the batch puts the new head, then deletes the old one. -/
def replaceBatching (h c : Cid) (height : ℕ) : HeadM Unit := do
  lock
  if ← commit h c height then
    cacheDelete h
    cacheSet c height
    unlock
  else
    unlock
    .fail "datastore error"

/-- `heads.Replace` on any other datastore. -/
def replacePlain (h c : Cid) (height : ℕ) : HeadM Unit := do
  if ← write c height then
    lock
    cacheSet c height
    if ← erase h then
      cacheDelete h
      unlock
    else
      unlock
      .fail "datastore error"
  else .fail "datastore error"

end HeadM

/-- The calls. The same head may come with several heights. -/
inductive HeadCall where
  | add (c : Cid) (height : ℕ)
  | replace (h c : Cid) (height : ℕ)

/-- The head that comes with the call, and its height. -/
def HeadCall.brings : HeadCall → Cid × ℕ
  | .add c height => (c, height)
  | .replace _ c height => (c, height)

/-- What a thread has done to the datastore that the cache does not know of yet, and whether it holds the mutex. -/
structure Note where
  adding : Option (Cid × ℕ) := none
  removing : Option Cid := none
  holding : Bool := false
  deriving DecidableEq

/-- The head that is being added. -/
def Note.newHead (k : Note) : Option Cid := k.adding.map Prod.fst

theorem Note.newHead_eq_some {k : Note} {x : Cid} : k.newHead = some x ↔ ∃ n, k.adding = some (x, n) := by
  simp [Note.newHead]

def Note.learn (k : Note) : (o : HeadOp) → o.Res → Note
  | .write c height => fun ok : Bool => if ok then { k with adding := some (c, height) } else k
  | .erase h => fun ok : Bool => if ok then { k with removing := some h } else k
  | .commit h c height => fun ok : Bool => if ok then { k with adding := some (c, height), removing := some h } else k
  | .lock => fun _ => { k with holding := true }
  | .unlock => fun _ => { k with holding := false }
  | .cacheSet _ _ => fun _ => { k with adding := none }
  | .cacheDelete _ => fun _ => { k with removing := none }

/-- The datastore below the namespace of the heads, and the rest. -/
structure HeadState where
  store : Store Cid Bytes := ∅
  cache : Store Cid ℕ := ∅
  mutex : Option ℕ := none
  notes : ℕ → Note := fun _ => {}

section Exec

variable (i : ℕ)

/-- One operation, which fails where it can and `ok` does not hold. A write that fails changes nothing. -/
def HeadOp.apply (ok : Bool) : (o : HeadOp) → HeadState → Option (o.Res × HeadState)
  | .write c height, w => some (ok, if ok then { w with store := w.store.insert c (putUvarint height) } else w)
  | .erase h, w => some (ok, if ok then { w with store := w.store.erase h } else w)
  | .commit h c height, w => some (ok, if ok then { w with store := (w.store.insert c (putUvarint height)).erase h } else w)
  | .lock, w =>
    match w.mutex with
    | none => some ((), { w with mutex := some i })
    | some _ => none
  | .unlock, w => some ((), { w with mutex := none })
  | .cacheSet c height, w => some ((), { w with cache := w.cache.insert c height })
  | .cacheDelete h, w => some ((), { w with cache := w.cache.erase h })

def HeadOp.exec (ok : Bool) (o : HeadOp) (w : HeadState) : Option (o.Res × HeadState) :=
  (o.apply i ok w).map (fun out =>
    (out.1, { out.2 with notes := Function.update w.notes i ((w.notes i).learn o out.1) }))

end Exec

/-- Any number of calls at once, on a datastore of one kind or the other. Heights have 64 bits. -/
def headSystem (batching : Bool) : System HeadOp HeadOp.Res String HeadState Bool HeadCall where
  exec := HeadOp.exec
  starts := fun _ => []
  body
    | .add c height => HeadM.add c height
    | .replace h c height => if batching then HeadM.replaceBatching h c height else HeadM.replacePlain h c height
  entry := fun call => decide (call.brings.2 < word)

abbrev HeadCrew := Prog.Crew HeadOp HeadOp.Res String HeadState HeadCall

def HeadCrew.fresh : HeadCrew := ⟨{}, []⟩

/-- The loop of `primeCache` over the results of its query. -/
def primeCache : List (Cid × Bytes) → Store Cid ℕ → Except String (Store Cid ℕ)
  | [], cache => .ok cache
  | (c, value) :: rest, cache =>
    match uvarint value with
    | none => .error "error decoding height"
    | some height => primeCache rest (cache.insert c height)

/-- What a thread may do next, by its call and what it has done. -/
def Note.allows (k : Note) (call : HeadCall) : HeadOp → Prop
  | .write c height => k = {} ∧ (c, height) = call.brings
  | .commit _ c height => k.holding = true ∧ k.adding = none ∧ k.removing = none ∧ (c, height) = call.brings
  | .erase _ | .unlock => k.holding = true ∧ k.adding = none ∧ k.removing = none
  | .lock => k.holding = false
  | .cacheSet c height => k.holding = true ∧ k.adding = some (c, height) ∧ k.removing = none
  | .cacheDelete h => k.holding = true ∧ k.removing = some h

abbrev Note.Orderly (k : Note) (call : HeadCall) (p : HeadM Unit) : Prop :=
  Always (fun _ _ => True) Note.learn (fun k o _ _ => k.allows call o) (fun k _ => k = {}) k p

theorem add_orderly (c : Cid) (height : ℕ) : Note.Orderly {} (.add c height) (HeadM.add c height) := by
  intro ok _
  refine ⟨⟨rfl, rfl⟩, ?_⟩
  cases ok with
  | false => exact rfl
  | true => exact fun _ _ => ⟨rfl, fun _ _ => ⟨⟨rfl, rfl, rfl⟩, fun _ _ => ⟨⟨rfl, rfl, rfl⟩, rfl⟩⟩⟩

theorem replaceBatching_orderly (h c : Cid) (height : ℕ) :
    Note.Orderly {} (.replace h c height) (HeadM.replaceBatching h c height) := by
  intro _ _
  refine ⟨rfl, fun ok _ => ⟨⟨rfl, rfl, rfl, rfl⟩, ?_⟩⟩
  cases ok with
  | false => exact fun _ _ => ⟨⟨rfl, rfl, rfl⟩, rfl⟩
  | true => exact fun _ _ => ⟨⟨rfl, rfl⟩, fun _ _ => ⟨⟨rfl, rfl, rfl⟩, fun _ _ => ⟨⟨rfl, rfl, rfl⟩, rfl⟩⟩⟩

theorem replacePlain_orderly (h c : Cid) (height : ℕ) : Note.Orderly {} (.replace h c height) (HeadM.replacePlain h c height) := by
  intro ok _
  refine ⟨⟨rfl, rfl⟩, ?_⟩
  cases ok with
  | false => exact rfl
  | true =>
    refine fun _ _ => ⟨rfl, fun _ _ => ⟨⟨rfl, rfl, rfl⟩, fun erased _ => ⟨⟨rfl, rfl, rfl⟩, ?_⟩⟩⟩
    cases erased with
    | false => exact fun _ _ => ⟨⟨rfl, rfl, rfl⟩, rfl⟩
    | true => exact fun _ _ => ⟨⟨rfl, rfl⟩, fun _ _ => ⟨⟨rfl, rfl, rfl⟩, rfl⟩⟩

theorem body_orderly (batching : Bool) (call : HeadCall) : Note.Orderly {} call ((headSystem batching).body call) := by
  cases call with
  | add c height => exact add_orderly c height
  | replace h c height =>
    cases batching with
    | true => exact replaceBatching_orderly h c height
    | false => exact replacePlain_orderly h c height

/-- What is in the datastore is in the cache, or will be. -/
structure HeadState.Backed (w : HeadState) : Prop where
  mutex : ∀ i, (w.notes i).holding = true ↔ w.mutex = some i
  removes : ∀ i h, (w.notes i).removing = some h → (w.notes i).holding = true
  stored : ∀ x, (w.store.lookup x).isSome = true → (w.cache.lookup x).isSome = true ∨ ∃ i, (w.notes i).newHead = some x
  removed : ∀ i h, (w.notes i).removing = some h → (w.store.lookup h).isSome = true → ∃ j, (w.notes j).newHead = some h

/-- Heads are stored and cached under heights they came with. -/
structure HeadState.Given (w : HeadState) (came : Cid → ℕ → Prop) : Prop where
  stored : ∀ x data, w.store.lookup x = some data → ∃ n, came x n ∧ data = putUvarint n
  cached : ∀ x n, w.cache.lookup x = some n → came x n

/-- Every thread goes on as its note says. -/
structure Noted (c : HeadCrew) : Prop where
  threads : ∀ i t, c.threads[i]? = some t → Note.Orderly (c.state.notes i) t.task t.prog
  adds : ∀ i t e, c.threads[i]? = some t → (c.state.notes i).adding = some e → e = t.task.brings
  fits : ∀ t ∈ c.threads, t.task.brings.2 < word
  later : ∀ i, c.threads.length ≤ i → c.state.notes i = {}

section Step

variable {call : HeadCall} {i : ℕ} {ok : Bool} {o : HeadOp} {r : o.Res} {w w' : HeadState}

theorem HeadOp.exec_eq_some (executed : o.exec i ok w = some (r, w')) :
    ∃ u, o.apply i ok w = some (r, u) ∧ w' = { u with notes := Function.update w.notes i ((w.notes i).learn o r) } := by
  obtain ⟨⟨r', u⟩, applied, same⟩ := Option.map_eq_some_iff.mp executed
  obtain ⟨rfl, rfl⟩ := Prod.mk.inj same
  exact ⟨u, applied, rfl⟩

theorem HeadOp.exec_notes (executed : o.exec i ok w = some (r, w')) : w'.notes i = (w.notes i).learn o r := by
  obtain ⟨u, _, rfl⟩ := HeadOp.exec_eq_some executed
  exact Function.update_self ..

theorem HeadOp.exec_notes_other (executed : o.exec i ok w = some (r, w')) {j : ℕ} (other : j ≠ i) : w'.notes j = w.notes j := by
  obtain ⟨u, _, rfl⟩ := HeadOp.exec_eq_some executed
  exact Function.update_of_ne other ..

/-- Whoever else adds a head goes on adding it. -/
theorem HeadOp.adding_kept (executed : o.exec i ok w = some (r, w')) {x : Cid} (adding : ∃ j, (w.notes j).newHead = some x)
    (mine : (w.notes i).newHead = some x → (w'.notes i).adding = (w.notes i).adding) : ∃ j, (w'.notes j).newHead = some x := by
  obtain ⟨j, here⟩ := adding
  by_cases same : j = i
  · subst same
    exact ⟨j, by rw [Note.newHead, mine here]; exact here⟩
  · exact ⟨j, by rw [HeadOp.exec_notes_other executed same]; exact here⟩

/-- A head is added by the call that comes with it, with a write of it. -/
theorem HeadOp.adding_of_exec (allowed : (w.notes i).allows call o) (executed : o.exec i ok w = some (r, w')) {e : Cid × ℕ}
    (adding : (w'.notes i).adding = some e) :
    (w.notes i).adding = some e ∨ (e = call.brings ∧ (o = .write e.1 e.2 ∨ ∃ h, o = .commit h e.1 e.2)) := by
  rw [HeadOp.exec_notes executed] at adding
  obtain ⟨u, applied, _⟩ := HeadOp.exec_eq_some executed
  cases o with
  | write c height =>
    obtain ⟨rfl, _⟩ := Prod.mk.inj (Option.some.inj applied)
    cases ok with
    | false => exact Or.inl adding
    | true =>
      obtain rfl := Option.some.inj adding
      exact Or.inr ⟨allowed.2, Or.inl rfl⟩
  | commit h c height =>
    obtain ⟨rfl, _⟩ := Prod.mk.inj (Option.some.inj applied)
    cases ok with
    | false => exact Or.inl adding
    | true =>
      obtain rfl := Option.some.inj adding
      exact Or.inr ⟨allowed.2.2.2, Or.inr ⟨h, rfl⟩⟩
  | erase h =>
    obtain ⟨rfl, _⟩ := Prod.mk.inj (Option.some.inj applied)
    cases ok <;> exact Or.inl adding
  | cacheSet => cases adding
  | lock | unlock | cacheDelete => exact Or.inl adding

/-- The mutex is held by who took it. -/
theorem HeadState.Backed.mutex_step (backed : w.Backed) (allowed : (w.notes i).allows call o)
    (executed : o.exec i ok w = some (r, w')) (j : ℕ) : (w'.notes j).holding = true ↔ w'.mutex = some j := by
  have mine := HeadOp.exec_notes executed
  have others : j ≠ i → w'.notes j = w.notes j := HeadOp.exec_notes_other executed
  obtain ⟨u, applied, rfl⟩ := HeadOp.exec_eq_some executed
  have free : o ≠ .lock → o ≠ .unlock → u.mutex = w.mutex ∧ ((w.notes i).learn o r).holding = (w.notes i).holding := by
    intro notLock notUnlock
    cases o with
    | lock => exact absurd rfl notLock
    | unlock => exact absurd rfl notUnlock
    | write | erase | commit =>
      obtain ⟨rfl, rfl⟩ := Prod.mk.inj (Option.some.inj applied)
      cases ok <;> exact ⟨rfl, rfl⟩
    | cacheSet | cacheDelete =>
      obtain ⟨_, rfl⟩ := Prod.mk.inj (Option.some.inj applied)
      exact ⟨rfl, rfl⟩
  by_cases same : j = i
  · subst same
    rw [mine]
    cases o with
    | lock =>
      simp only [HeadOp.apply] at applied
      split at applied
      · obtain ⟨_, rfl⟩ := Prod.mk.inj (Option.some.inj applied)
        simp [Note.learn]
      · cases applied
    | unlock =>
      obtain ⟨_, rfl⟩ := Prod.mk.inj (Option.some.inj applied)
      simp [Note.learn]
    | _ =>
      obtain ⟨mutex, holding⟩ := free (by simp) (by simp)
      rw [holding, backed.mutex]
      simp only [mutex]
  · rw [others same, backed.mutex]
    cases o with
    | lock =>
      simp only [HeadOp.apply] at applied
      split at applied
      · rename_i unlocked
        obtain ⟨_, rfl⟩ := Prod.mk.inj (Option.some.inj applied)
        simp [unlocked, Ne.symm same]
      · cases applied
    | unlock =>
      obtain ⟨_, rfl⟩ := Prod.mk.inj (Option.some.inj applied)
      have held := (backed.mutex i).mp allowed.1
      simp [held, Ne.symm same]
    | _ => simp only [(free (by simp) (by simp)).1]

/-- Only who holds the mutex removes a head from the cache. -/
theorem HeadState.Backed.removes_step (backed : w.Backed) (allowed : (w.notes i).allows call o)
    (executed : o.exec i ok w = some (r, w')) (j : ℕ) (h : Cid) (removing : (w'.notes j).removing = some h) :
    (w'.notes j).holding = true := by
  by_cases same : j = i
  · subst same
    rw [HeadOp.exec_notes executed] at removing ⊢
    obtain ⟨u, applied, _⟩ := HeadOp.exec_eq_some executed
    cases o with
    | write c =>
      obtain ⟨rfl, _⟩ := Prod.mk.inj (Option.some.inj applied)
      have fresh : w.notes j = {} := allowed.1
      cases ok <;> simp [Note.learn, fresh] at removing
    | erase | commit =>
      obtain ⟨rfl, _⟩ := Prod.mk.inj (Option.some.inj applied)
      cases ok <;> exact allowed.1
    | lock => rfl
    | unlock =>
      have none : (w.notes j).removing = none := allowed.2.2
      simp [Note.learn, none] at removing
    | cacheSet | cacheDelete => exact allowed.1
  · rw [HeadOp.exec_notes_other executed same] at removing ⊢
    exact backed.removes j h removing

/-- The mutex has one holder. -/
theorem HeadState.Backed.only (backed : w.Backed) {j : ℕ} (mine : (w.notes i).holding = true)
    (other : (w.notes j).holding = true) : j = i :=
  Option.some.inj (((backed.mutex j).mp other).symm.trans ((backed.mutex i).mp mine))

/-- What an operation does to the datastore: a head of this thread comes, or one goes, or nothing happens. -/
theorem HeadOp.exec_store (allowed : (w.notes i).allows call o) (executed : o.exec i ok w = some (r, w')) (x : Cid) :
    (w'.store.lookup x = w.store.lookup x ∧
      ((∀ n, o ≠ .cacheSet x n) → (w.notes i).newHead = some x → (w'.notes i).adding = (w.notes i).adding) ∧
      ((w'.notes i).newHead = some x → (w.notes i).newHead = some x) ∧
      ((w'.notes i).removing = some x → (w.notes i).removing = some x)) ∨
    (∃ n, w'.store.lookup x = some (putUvarint n) ∧ (w'.notes i).adding = some (x, n)) ∨
    (w'.store.lookup x = none ∧ (w'.notes i).removing = some x ∧ (w.notes i).adding = none) := by
  have mine := HeadOp.exec_notes executed
  obtain ⟨u, applied, rfl⟩ := HeadOp.exec_eq_some executed
  rw [mine]
  cases o with
  | write c height =>
    obtain ⟨rfl, rfl⟩ := Prod.mk.inj (Option.some.inj applied)
    cases ok with
    | false => exact Or.inl ⟨rfl, fun _ _ => rfl, id, id⟩
    | true =>
      have fresh : w.notes i = {} := allowed.1
      by_cases same : x = c
      · subst same
        exact Or.inr (Or.inl ⟨height, AList.lookup_insert _, rfl⟩)
      · refine Or.inl ⟨AList.lookup_insert_ne same, fun _ adding => ?_, fun new => absurd (Option.some.inj new).symm same, id⟩
        rw [fresh] at adding
        cases adding
  | erase h =>
    obtain ⟨rfl, rfl⟩ := Prod.mk.inj (Option.some.inj applied)
    cases ok with
    | false => exact Or.inl ⟨rfl, fun _ _ => rfl, id, id⟩
    | true =>
      by_cases same : x = h
      · subst same
        exact Or.inr (Or.inr ⟨AList.lookup_erase _ _, rfl, allowed.2.1⟩)
      · exact Or.inl ⟨AList.lookup_erase_ne same, fun _ _ => rfl, id, fun removing => absurd (Option.some.inj removing).symm same⟩
  | commit h c height =>
    obtain ⟨rfl, rfl⟩ := Prod.mk.inj (Option.some.inj applied)
    cases ok with
    | false => exact Or.inl ⟨rfl, fun _ _ => rfl, id, id⟩
    | true =>
      by_cases gone : x = h
      · subst gone
        exact Or.inr (Or.inr ⟨AList.lookup_erase _ _, rfl, allowed.2.1⟩)
      by_cases same : x = c
      · subst same
        exact Or.inr (Or.inl ⟨height, (AList.lookup_erase_ne gone).trans (AList.lookup_insert _), rfl⟩)
      · refine Or.inl ⟨(AList.lookup_erase_ne gone).trans (AList.lookup_insert_ne same), fun _ adding => ?_,
          fun new => absurd (Option.some.inj new).symm same, fun removing => absurd (Option.some.inj removing).symm gone⟩
        rw [Note.newHead, allowed.2.1] at adding
        cases adding
  | lock =>
    simp only [HeadOp.apply] at applied
    split at applied
    · obtain ⟨_, rfl⟩ := Prod.mk.inj (Option.some.inj applied)
      exact Or.inl ⟨rfl, fun _ _ => rfl, id, id⟩
    · cases applied
  | unlock =>
    obtain ⟨_, rfl⟩ := Prod.mk.inj (Option.some.inj applied)
    exact Or.inl ⟨rfl, fun _ _ => rfl, id, id⟩
  | cacheDelete =>
    obtain ⟨_, rfl⟩ := Prod.mk.inj (Option.some.inj applied)
    exact Or.inl ⟨rfl, fun _ _ => rfl, id, fun removing => by cases removing⟩
  | cacheSet c height =>
    obtain ⟨_, rfl⟩ := Prod.mk.inj (Option.some.inj applied)
    refine Or.inl ⟨rfl, fun other adding => ?_, (fun new => by cases new), id⟩
    rw [Note.newHead, allowed.2.1] at adding
    obtain rfl : c = x := Option.some.inj adding
    exact absurd rfl (other height)

theorem HeadOp.exec_cache (executed : o.exec i ok w = some (r, w')) (x : Cid) :
    w'.cache.lookup x = w.cache.lookup x ∨ (∃ n, o = .cacheSet x n ∧ w'.cache.lookup x = some n) ∨
      (o = .cacheDelete x ∧ w'.cache.lookup x = none) := by
  obtain ⟨u, applied, rfl⟩ := HeadOp.exec_eq_some executed
  cases o with
  | cacheSet c height =>
    obtain ⟨_, rfl⟩ := Prod.mk.inj (Option.some.inj applied)
    by_cases same : x = c
    · subst same
      exact Or.inr (Or.inl ⟨height, rfl, AList.lookup_insert _⟩)
    · exact Or.inl (AList.lookup_insert_ne same)
  | cacheDelete h =>
    obtain ⟨_, rfl⟩ := Prod.mk.inj (Option.some.inj applied)
    by_cases same : x = h
    · subst same
      exact Or.inr (Or.inr ⟨rfl, AList.lookup_erase _ _⟩)
    · exact Or.inl (AList.lookup_erase_ne same)
  | write | erase | commit =>
    obtain ⟨rfl, rfl⟩ := Prod.mk.inj (Option.some.inj applied)
    cases ok <;> exact Or.inl rfl
  | lock =>
    simp only [HeadOp.apply] at applied
    split at applied
    · obtain ⟨_, rfl⟩ := Prod.mk.inj (Option.some.inj applied)
      exact Or.inl rfl
    · cases applied
  | unlock =>
    obtain ⟨_, rfl⟩ := Prod.mk.inj (Option.some.inj applied)
    exact Or.inl rfl

/-- A head set in the cache is there. -/
theorem HeadOp.exec_cacheSet {c : Cid} {height : ℕ} {r : (HeadOp.cacheSet c height).Res}
    (executed : (HeadOp.cacheSet c height).exec i ok w = some (r, w')) : w'.cache.lookup c = some height := by
  obtain ⟨u, applied, rfl⟩ := HeadOp.exec_eq_some executed
  obtain ⟨_, rfl⟩ := Prod.mk.inj (Option.some.inj applied)
  exact AList.lookup_insert _

theorem HeadState.Given.step {came : Cid → ℕ → Prop} (given : w.Given came) (allowed : (w.notes i).allows call o)
    (adds : ∀ e, (w.notes i).adding = some e → e = call.brings) (comes : came call.brings.1 call.brings.2)
    (executed : o.exec i ok w = some (r, w')) : w'.Given came := by
  refine ⟨fun x data found => ?_, fun x n found => ?_⟩
  · rcases HeadOp.exec_store allowed executed x with ⟨same, _⟩ | ⟨n, new, adding⟩ | ⟨gone, _⟩
    · exact given.stored x data (same.symm.trans found)
    · have brought : (x, n) = call.brings := (HeadOp.adding_of_exec allowed executed adding).elim (adds _) And.left
      rw [← brought] at comes
      exact ⟨n, comes, Option.some.inj (found.symm.trans new)⟩
    · cases gone.symm.trans found
  · rcases HeadOp.exec_cache executed x with same | ⟨m, rfl, set⟩ | ⟨_, gone⟩
    · exact given.cached x n (same.symm.trans found)
    · obtain rfl := Option.some.inj (found.symm.trans set)
      rw [← adds _ allowed.2.1] at comes
      exact comes
    · cases gone.symm.trans found

theorem HeadState.Backed.stored_step (backed : w.Backed) (allowed : (w.notes i).allows call o)
    (executed : o.exec i ok w = some (r, w')) (x : Cid) (there : (w'.store.lookup x).isSome = true) :
    (w'.cache.lookup x).isSome = true ∨ ∃ j, (w'.notes j).newHead = some x := by
  rcases HeadOp.exec_store allowed executed x with ⟨same, kept, _⟩ | ⟨n, _, adding⟩ | ⟨gone, _⟩
  · rw [same] at there
    rcases HeadOp.exec_cache executed x with cache | ⟨n, _, cache⟩ | ⟨rfl, _⟩
    · rcases backed.stored x there with cached | adding
      · exact Or.inl (cache ▸ cached)
      · by_cases sets : ∃ n, o = .cacheSet x n
        · obtain ⟨n, rfl⟩ := sets
          exact Or.inl (by rw [HeadOp.exec_cacheSet executed]; rfl)
        · exact Or.inr (HeadOp.adding_kept executed adding (kept (not_exists.mp sets)))
    · exact Or.inl (by rw [cache]; rfl)
    · -- The head was erased before it leaves the cache: where it is stored again, somebody adds it.
      exact Or.inr (HeadOp.adding_kept executed (backed.removed i x allowed.2 there) (kept (by simp)))
  · exact Or.inr ⟨i, Note.newHead_eq_some.mpr ⟨n, adding⟩⟩
  · rw [gone] at there
    cases there

theorem HeadState.Backed.removed_step (backed : w.Backed) (allowed : (w.notes i).allows call o)
    (executed : o.exec i ok w = some (r, w')) (j : ℕ) (h : Cid) (removing : (w'.notes j).removing = some h)
    (there : (w'.store.lookup h).isSome = true) : ∃ k, (w'.notes k).newHead = some h := by
  rcases HeadOp.exec_store allowed executed h with ⟨same, kept, _, older⟩ | ⟨n, _, adding⟩ | ⟨gone, _⟩
  · have before : (w.notes j).removing = some h := by
      by_cases mine : j = i
      · subst mine
        exact older removing
      · rw [← HeadOp.exec_notes_other executed mine]
        exact removing
    have adding := backed.removed j h before (same ▸ there)
    refine HeadOp.adding_kept executed adding (kept ?_)
    rintro n rfl
    have mine : j = i := backed.only allowed.1 (backed.removes j h before)
    subst mine
    cases allowed.2.2.symm.trans before
  · exact ⟨i, Note.newHead_eq_some.mpr ⟨n, adding⟩⟩
  · rw [gone] at there
    cases there

theorem HeadState.Backed.step (backed : w.Backed) (allowed : (w.notes i).allows call o)
    (executed : o.exec i ok w = some (r, w')) : w'.Backed where
  mutex := backed.mutex_step allowed executed
  removes := backed.removes_step allowed executed
  stored := backed.stored_step allowed executed
  removed := backed.removed_step allowed executed

end Step

theorem Noted.enter {batching : Bool} {c : HeadCrew} (noted : Noted c) {call : HeadCall} (fits : call.brings.2 < word) :
    Noted ⟨c.state, c.threads ++ [(headSystem batching).start call]⟩ := by
  refine ⟨fun i t found => ?_, fun i t e found adding => ?_, fun t member => ?_, fun i beyond => noted.later i ?_⟩
  · rw [List.getElem?_append] at found
    split at found
    · exact noted.threads i t found
    · rename_i beyond
      obtain rfl := List.mem_singleton.mp (List.mem_of_getElem? found)
      have fresh : c.state.notes i = {} := noted.later i (Nat.not_lt.mp beyond)
      exact fresh.symm ▸ body_orderly batching call
  · rw [List.getElem?_append] at found
    split at found
    · exact noted.adds i t e found adding
    · rename_i beyond
      rw [noted.later i (Nat.not_lt.mp beyond)] at adding
      cases adding
  · rcases List.mem_append.mp member with old | new
    · exact noted.fits t old
    · obtain rfl := List.mem_singleton.mp new
      exact fits
  · simp only [List.length_append] at beyond
    omega

theorem Noted.act {c : HeadCrew} (noted : Noted c) {i : ℕ} {ok : Bool} {call : HeadCall} {o : HeadOp}
    {next : o.Res → HeadM Unit} {r : o.Res} {s : HeadState} (present : c.threads[i]? = some ⟨call, .op o next⟩)
    (executed : o.exec i ok c.state = some (r, s)) :
    (c.state.notes i).allows call o ∧ Noted (c.after i s ⟨call, next r⟩ []) := by
  obtain ⟨allowed, rest⟩ := noted.threads i _ present r trivial
  obtain ⟨bound, _⟩ := List.getElem?_eq_some_iff.mp present
  refine ⟨allowed, fun j t found => ?_, fun j t e found adding => ?_, fun t member => ?_, fun j beyond => ?_⟩
  · rw [Crew.after_state]
    rcases Crew.at_after present found with ⟨rfl, rfl⟩ | ⟨other, there⟩ | ⟨_, none⟩
    · rw [HeadOp.exec_notes executed]
      exact rest
    · rw [HeadOp.exec_notes_other executed other]
      exact noted.threads j t there
    · cases none
  · rw [Crew.after_state] at adding
    rcases Crew.at_after present found with ⟨rfl, rfl⟩ | ⟨other, there⟩ | ⟨_, none⟩
    · rcases HeadOp.adding_of_exec allowed executed adding with old | new
      · exact noted.adds j ⟨call, .op o next⟩ e present old
      · exact new.1
    · rw [HeadOp.exec_notes_other executed other] at adding
      exact noted.adds j t e there adding
    · cases none
  · rcases Crew.mem_after present member with rfl | there | none
    · exact noted.fits ⟨call, .op o next⟩ (List.mem_of_getElem? present)
    · exact noted.fits t there
    · cases none
  · simp only [Crew.after, List.length_append, List.length_set] at beyond
    rw [Crew.after_state, HeadOp.exec_notes_other executed (by omega)]
    exact noted.later j (by simpa using beyond)

/-- A thread that has ended has left nothing half done. -/
theorem Noted.ended {c : HeadCrew} (noted : Noted c) {i : ℕ} {t : Thread HeadOp HeadOp.Res String HeadCall}
    (present : c.threads[i]? = some t) (halted : t.prog.Ended) : c.state.notes i = {} := by
  have orderly := noted.threads i t present
  obtain ⟨call, p⟩ := t
  cases p with
  | ret => exact orderly
  | fail => exact orderly
  | op => exact halted.elim

theorem Noted.settled {c : HeadCrew} (noted : Noted c) (ended : ∀ t ∈ c.threads, t.prog.Ended) (i : ℕ) : c.state.notes i = {} := by
  cases present : c.threads[i]? with
  | none => exact noted.later i (List.getElem?_eq_none_iff.mp present)
  | some t => exact noted.ended present (ended t (List.mem_of_getElem? present))

/-- No head is taken out of the datastore while a call is adding it, nor by the call that brings it. -/
def LeavesAdded (c : HeadCrew) (_ : ℕ) (_ : HeadCall) (o : HeadOp) (_ : o.Res) : Prop :=
  match o with
  | .erase h => ∀ j, (c.state.notes j).newHead ≠ some h
  | .commit h x _ => h ≠ x ∧ ∀ j, (c.state.notes j).newHead ≠ some h
  | _ => True

/-- No head is written while another call is adding it with another height. -/
def OneHeight (c : HeadCrew) (_ : ℕ) (_ : HeadCall) (o : HeadOp) (_ : o.Res) : Prop :=
  match o with
  | .write x n | .commit _ x n => ∀ j m, (c.state.notes j).adding = some (x, m) → m = n
  | _ => True

/-- What is in the cache is in the datastore, unless it has just been taken out. -/
structure HeadState.Durable (w : HeadState) : Prop where
  adding : ∀ i x, (w.notes i).newHead = some x → (w.store.lookup x).isSome = true
  cached : ∀ x, (w.cache.lookup x).isSome = true → (w.store.lookup x).isSome = true ∨ ∃ i, (w.notes i).removing = some x

section Durable

variable {i : ℕ} {ok : Bool} {call : HeadCall} {o : HeadOp} {next : o.Res → HeadM Unit} {r : o.Res}
  {c : HeadCrew} {s : HeadState}

/-- A head that goes is one nobody adds. -/
theorem LeavesAdded.gone (undisturbed : LeavesAdded c i call o r) (allowed : (c.state.notes i).allows call o)
    (executed : o.exec i ok c.state = some (r, s)) {x : Cid} (stored : (c.state.store.lookup x).isSome = true)
    (missing : s.store.lookup x = none) : (∀ j, (c.state.notes j).newHead ≠ some x) ∧ (s.notes i).removing = some x ∧
      (s.notes i).newHead ≠ some x := by
  have mine := HeadOp.exec_notes executed
  obtain ⟨u, applied, rfl⟩ := HeadOp.exec_eq_some executed
  rw [mine]
  cases o with
  | erase h =>
    obtain ⟨rfl, rfl⟩ := Prod.mk.inj (Option.some.inj applied)
    cases ok with
    | false => rw [show (c.state.store.lookup x) = none from missing] at stored; cases stored
    | true =>
      by_cases same : x = h
      · subst same
        exact ⟨undisturbed, rfl, undisturbed i⟩
      · rw [← AList.lookup_erase_ne same, show ((c.state.store.erase h).lookup x) = none from missing] at stored
        cases stored
  | commit h y height =>
    obtain ⟨rfl, rfl⟩ := Prod.mk.inj (Option.some.inj applied)
    cases ok with
    | false => rw [show (c.state.store.lookup x) = none from missing] at stored; cases stored
    | true =>
      by_cases same : x = h
      · subst same
        exact ⟨undisturbed.2, rfl, fun no => undisturbed.1 (Option.some.inj no).symm⟩
      · have kept : (c.state.store.insert y (putUvarint height)).lookup x = none :=
          (AList.lookup_erase_ne same).symm.trans missing
        by_cases new : x = y
        · subst new
          rw [AList.lookup_insert] at kept
          cases kept
        · rw [AList.lookup_insert_ne new] at kept
          rw [kept] at stored
          cases stored
  | write y height =>
    obtain ⟨rfl, rfl⟩ := Prod.mk.inj (Option.some.inj applied)
    cases ok with
    | false => rw [show (c.state.store.lookup x) = none from missing] at stored; cases stored
    | true =>
      have kept : (c.state.store.insert y (putUvarint height)).lookup x = none := missing
      by_cases new : x = y
      · subst new
        rw [AList.lookup_insert] at kept
        cases kept
      · rw [AList.lookup_insert_ne new] at kept
        rw [kept] at stored
        cases stored
  | lock =>
    simp only [HeadOp.apply] at applied
    split at applied
    · obtain ⟨_, rfl⟩ := Prod.mk.inj (Option.some.inj applied)
      rw [show (c.state.store.lookup x) = none from missing] at stored
      cases stored
    · cases applied
  | unlock | cacheSet | cacheDelete =>
    obtain ⟨_, rfl⟩ := Prod.mk.inj (Option.some.inj applied)
    rw [show (c.state.store.lookup x) = none from missing] at stored
    cases stored

/-- A head that a call has begun to add is stored. -/
theorem LeavesAdded.stored (undisturbed : LeavesAdded c i call o r) (executed : o.exec i ok c.state = some (r, s)) {x : Cid}
    (adding : (s.notes i).newHead = some x) : (c.state.notes i).newHead = some x ∨ (s.store.lookup x).isSome = true := by
  rw [HeadOp.exec_notes executed] at adding
  obtain ⟨u, applied, rfl⟩ := HeadOp.exec_eq_some executed
  cases o with
  | write y height =>
    obtain ⟨rfl, rfl⟩ := Prod.mk.inj (Option.some.inj applied)
    cases ok with
    | false => exact Or.inl adding
    | true =>
      obtain rfl : y = x := Option.some.inj adding
      exact Or.inr (congrArg Option.isSome (AList.lookup_insert _))
  | commit h y height =>
    obtain ⟨rfl, rfl⟩ := Prod.mk.inj (Option.some.inj applied)
    cases ok with
    | false => exact Or.inl adding
    | true =>
      obtain rfl : y = x := Option.some.inj adding
      exact Or.inr (congrArg Option.isSome ((AList.lookup_erase_ne undisturbed.1.symm).trans (AList.lookup_insert _)))
  | erase h =>
    obtain ⟨rfl, _⟩ := Prod.mk.inj (Option.some.inj applied)
    cases ok <;> exact Or.inl adding
  | cacheSet => cases adding
  | lock | unlock | cacheDelete => exact Or.inl adding

/-- A thread goes on removing a head until that has left the cache. -/
theorem HeadOp.removing_kept (allowed : (c.state.notes i).allows call o) (executed : o.exec i ok c.state = some (r, s)) {x : Cid}
    (removing : (c.state.notes i).removing = some x) : (s.notes i).removing = some x ∨ o = .cacheDelete x := by
  rw [HeadOp.exec_notes executed]
  cases o with
  | write =>
    have fresh : c.state.notes i = {} := allowed.1
    rw [fresh] at removing
    cases removing
  | commit => cases allowed.2.2.1.symm.trans removing
  | erase | unlock => cases allowed.2.2.symm.trans removing
  | cacheSet => exact Or.inl removing
  | cacheDelete h => exact Or.inr (congrArg HeadOp.cacheDelete (Option.some.inj (allowed.2.symm.trans removing)))
  | lock => exact Or.inl removing

theorem HeadState.Durable.step (durable : c.state.Durable) (undisturbed : LeavesAdded c i call o r)
    (allowed : (c.state.notes i).allows call o) (executed : o.exec i ok c.state = some (r, s)) : s.Durable := by
  -- What is stored stays so, except for a head that this thread now removes and nobody adds.
  have stays : ∀ x, (c.state.store.lookup x).isSome = true → (s.store.lookup x).isSome = true ∨
      ((∀ j, (c.state.notes j).newHead ≠ some x) ∧ (s.notes i).removing = some x ∧ (s.notes i).newHead ≠ some x) := by
    intro x stored
    cases missing : s.store.lookup x with
    | some data => exact Or.inl rfl
    | none => exact Or.inr (undisturbed.gone allowed executed stored missing)
  refine ⟨fun j x adding => ?_, fun x cached => ?_⟩
  · have before : (c.state.notes j).newHead = some x ∨ j = i ∧ (s.store.lookup x).isSome = true := by
      by_cases mine : j = i
      · subst mine
        exact (undisturbed.stored executed adding).imp_right (fun stored => ⟨rfl, stored⟩)
      · exact Or.inl (by rw [← HeadOp.exec_notes_other executed mine]; exact adding)
    rcases before with old | ⟨_, stored⟩
    · rcases stays x (durable.adding j x old) with stored | ⟨nobody, _⟩
      · exact stored
      · exact absurd old (nobody j)
    · exact stored
  · have old : (c.state.cache.lookup x).isSome = true ∨ ∃ n, o = .cacheSet x n := by
      rcases HeadOp.exec_cache executed x with same | ⟨n, rfl, _⟩ | ⟨_, gone⟩
      · exact Or.inl (same ▸ cached)
      · exact Or.inr ⟨n, rfl⟩
      · rw [gone] at cached
        cases cached
    have backing : (c.state.store.lookup x).isSome = true ∨ ∃ j, (c.state.notes j).removing = some x := by
      rcases old with there | ⟨n, rfl⟩
      · exact durable.cached x there
      · exact Or.inl (durable.adding i x (Note.newHead_eq_some.mpr ⟨n, allowed.2.1⟩))
    rcases backing with stored | ⟨j, removing⟩
    · rcases stays x stored with still | ⟨_, removing, _⟩
      · exact Or.inl still
      · exact Or.inr ⟨i, removing⟩
    · by_cases mine : j = i
      · subst mine
        rcases HeadOp.removing_kept allowed executed removing with kept | rfl
        · exact Or.inr ⟨j, kept⟩
        · rcases HeadOp.exec_cache executed x with same | ⟨_, no, _⟩ | ⟨_, gone⟩
          · obtain ⟨u, applied, rfl⟩ := HeadOp.exec_eq_some executed
            obtain ⟨_, rfl⟩ := Prod.mk.inj (Option.some.inj applied)
            rw [show ((c.state.cache.erase x).lookup x) = none from AList.lookup_erase _ _] at cached
            cases cached
          · cases no
          · rw [gone] at cached
            cases cached
      · exact Or.inr ⟨j, by rw [HeadOp.exec_notes_other executed mine]; exact removing⟩

end Durable

/-- The heads that are being added agree with the datastore on their heights, and so does the cache on those that are not. -/
structure HeadState.Matched (w : HeadState) : Prop where
  same : ∀ i j x m n, (w.notes i).adding = some (x, m) → (w.notes j).adding = some (x, n) → m = n
  stored : ∀ x data, w.store.lookup x = some data → (∃ i n, (w.notes i).adding = some (x, n) ∧ data = putUvarint n) ∨
    (∀ i, (w.notes i).newHead ≠ some x) ∧ ∃ n, w.cache.lookup x = some n ∧ data = putUvarint n

section Matched

variable {i : ℕ} {ok : Bool} {call : HeadCall} {o : HeadOp} {r : o.Res} {c : HeadCrew} {s : HeadState}

theorem HeadState.Matched.adding {w : HeadState} (matched : w.Matched) {x : Cid} {n : ℕ} {data : Bytes}
    (adding : (w.notes i).adding = some (x, n)) (stored : w.store.lookup x = some data) : data = putUvarint n := by
  rcases matched.stored x data stored with ⟨j, m, other, rfl⟩ | ⟨nobody, _⟩
  · rw [matched.same i j x n m adding other]
  · exact absurd (Note.newHead_eq_some.mpr ⟨n, adding⟩) (nobody i)

/-- A head that this call begins to add is added with the same height by all others. -/
theorem OneHeight.others (one : OneHeight c i call o r) (allowed : (c.state.notes i).allows call o)
    (executed : o.exec i ok c.state = some (r, s)) {x : Cid} {m n : ℕ} {j : ℕ} (mine : (s.notes i).adding = some (x, m))
    (other : (c.state.notes j).adding = some (x, n)) (matched : c.state.Matched) : n = m := by
  rcases HeadOp.adding_of_exec allowed executed mine with old | ⟨_, rfl | ⟨h, rfl⟩⟩
  · exact matched.same j i x n m other old
  · exact one j n other
  · exact one j n other

theorem HeadState.Matched.same_step (matched : c.state.Matched) (one : OneHeight c i call o r)
    (allowed : (c.state.notes i).allows call o) (executed : o.exec i ok c.state = some (r, s)) (j k : ℕ) (x : Cid) (m n : ℕ)
    (first : (s.notes j).adding = some (x, m)) (second : (s.notes k).adding = some (x, n)) : m = n := by
  by_cases mine : j = i
  · subst mine
    by_cases mine' : k = j
    · subst mine'
      exact (Prod.mk.inj (Option.some.inj (first.symm.trans second))).2
    · rw [HeadOp.exec_notes_other executed mine'] at second
      exact (one.others allowed executed first second matched).symm
  · rw [HeadOp.exec_notes_other executed mine] at first
    by_cases mine' : k = i
    · subst mine'
      exact one.others allowed executed second first matched
    · rw [HeadOp.exec_notes_other executed mine'] at second
      exact matched.same j k x m n first second

theorem HeadState.Matched.stored_step (matched : c.state.Matched) (backed : c.state.Backed)
    (allowed : (c.state.notes i).allows call o) (executed : o.exec i ok c.state = some (r, s)) (x : Cid) (data : Bytes)
    (found : s.store.lookup x = some data) : (∃ j n, (s.notes j).adding = some (x, n) ∧ data = putUvarint n) ∨
      (∀ j, (s.notes j).newHead ≠ some x) ∧ ∃ n, s.cache.lookup x = some n ∧ data = putUvarint n := by
  rcases HeadOp.exec_store allowed executed x with ⟨same, kept, newer, _⟩ | ⟨n, new, adding⟩ | ⟨gone, _⟩
  · rw [same] at found
    by_cases sets : ∃ n, o = .cacheSet x n
    · obtain ⟨n, rfl⟩ := sets
      have value := matched.adding allowed.2.1 found
      by_cases another : ∃ j, (s.notes j).newHead = some x
      · obtain ⟨j, adding⟩ := another
        obtain ⟨m, adding⟩ := Note.newHead_eq_some.mp adding
        have different : j ≠ i := by
          rintro rfl
          rw [HeadOp.exec_notes executed] at adding
          cases adding
        have before : (c.state.notes j).adding = some (x, m) := by
          rw [← HeadOp.exec_notes_other executed different]
          exact adding
        exact Or.inl ⟨j, m, adding, matched.adding before found⟩
      · exact Or.inr ⟨not_exists.mp another, n, HeadOp.exec_cacheSet executed, value⟩
    · have sets' := not_exists.mp sets
      rcases matched.stored x data found with ⟨j, n, adding, value⟩ | ⟨nobody, n, cached, value⟩
      · refine Or.inl ⟨j, n, ?_, value⟩
        by_cases mine : j = i
        · subst mine
          rw [kept sets' (Note.newHead_eq_some.mpr ⟨n, adding⟩)]
          exact adding
        · rw [HeadOp.exec_notes_other executed mine]
          exact adding
      · refine Or.inr ⟨fun j adding => ?_, n, ?_, value⟩
        · by_cases mine : j = i
          · subst mine
            exact nobody j (newer adding)
          · rw [HeadOp.exec_notes_other executed mine] at adding
            exact nobody j adding
        · rcases HeadOp.exec_cache executed x with cache | ⟨m, set, _⟩ | ⟨rfl, _⟩
          · exact cache.trans cached
          · exact absurd set (sets' m)
          · obtain ⟨j, adding⟩ := backed.removed i x allowed.2 (by rw [found]; rfl)
            exact absurd adding (nobody j)
  · exact Or.inl ⟨i, n, adding, Option.some.inj (found.symm.trans new)⟩
  · cases gone.symm.trans found

theorem HeadState.Matched.step (matched : c.state.Matched) (backed : c.state.Backed) (one : OneHeight c i call o r)
    (allowed : (c.state.notes i).allows call o) (executed : o.exec i ok c.state = some (r, s)) : s.Matched where
  same := matched.same_step one allowed executed
  stored := matched.stored_step backed allowed executed

end Matched

/-- A datastore whose heads have just been read into the cache. -/
structure HeadState.Opened (w : HeadState) : Prop where
  free : w.mutex = none
  notes : w.notes = fun _ => {}
  heights : ∀ x n, w.cache.lookup x = some n → n < word
  stored : ∀ x, w.store.lookup x = (w.cache.lookup x).map putUvarint

/-- The head was there with this height when the datastore was opened, or a call has come with it. -/
def Came (first c : HeadCrew) (x : Cid) (n : ℕ) : Prop :=
  first.state.cache.lookup x = some n ∨ ∃ t ∈ c.threads, t.task.brings = (x, n)

section Runs

variable {batching : Bool} {first c : HeadCrew} {meets : HeadCrew → ℕ → HeadCall → (o : HeadOp) → o.Res → Prop}

theorem HeadState.Opened.backed {w : HeadState} (opened : w.Opened) : w.Backed where
  mutex := fun i => by simp [opened.notes, opened.free]
  removes := fun i h removing => by simp [opened.notes] at removing
  stored := fun x there => Or.inl (by rwa [opened.stored, Option.isSome_map] at there)
  removed := fun i h removing => by simp [opened.notes] at removing

theorem HeadState.Opened.durable {w : HeadState} (opened : w.Opened) : w.Durable where
  adding := fun i x adding => by simp [opened.notes, Note.newHead] at adding
  cached := fun x there => Or.inl (by rw [opened.stored, Option.isSome_map]; exact there)

theorem HeadState.Opened.matched {w : HeadState} (opened : w.Opened) : w.Matched where
  same := fun i j x m n adding => by simp [opened.notes] at adding
  stored := fun x data found => by
    rw [opened.stored] at found
    obtain ⟨n, cached, rfl⟩ := Option.map_eq_some_iff.mp found
    exact Or.inr ⟨fun i adding => by simp [opened.notes, Note.newHead] at adding, n, cached, rfl⟩

theorem HeadState.Opened.given {w : HeadState} (opened : w.Opened) : w.Given (fun x n => w.cache.lookup x = some n) where
  stored := fun x data found => by
    rw [opened.stored] at found
    obtain ⟨n, cached, rfl⟩ := Option.map_eq_some_iff.mp found
    exact ⟨n, cached, rfl⟩
  cached := fun _ _ cached => cached

theorem HeadState.Given.mono {w : HeadState} {came came' : Cid → ℕ → Prop} (given : w.Given came)
    (more : ∀ x n, came x n → came' x n) : w.Given came' where
  stored := fun x data found => by
    obtain ⟨n, before, value⟩ := given.stored x data found
    exact ⟨n, more x n before, value⟩
  cached := fun x n cached => more x n (given.cached x n cached)

theorem backed_of_reach (opened : first.state.Opened) (idle : first.threads = [])
    (reach : Crew.Reach (headSystem batching) meets first c) : Noted c ∧ c.state.Backed ∧ c.state.Given (Came first c) := by
  induction reach with
  | start =>
    refine ⟨⟨fun i t found => ?_, fun i t e found => ?_, fun t member => ?_, fun i _ => by rw [opened.notes]⟩, opened.backed,
      opened.given.mono (fun x n => Or.inl)⟩
    · rw [idle] at found
      cases found
    · rw [idle] at found
      cases found
    · rw [idle] at member
      cases member
  | @next d _ _ step ih =>
    obtain ⟨noted, backed, given⟩ := ih
    cases step with
    | enter call outside =>
      refine ⟨noted.enter (of_decide_eq_true outside), backed, given.mono (fun x n => Or.imp_right ?_)⟩
      exact fun ⟨t, member, brings⟩ => ⟨t, List.mem_append_left _ member, brings⟩
    | @act i ok task o next r s present executed =>
      obtain ⟨allowed, after⟩ := noted.act present executed
      refine ⟨after, backed.step allowed executed, ?_⟩
      have before : Came first d task.brings.1 task.brings.2 := Or.inr ⟨_, List.mem_of_getElem? present, rfl⟩
      refine (given.step allowed (fun e => noted.adds i _ e present) before executed).mono (fun x n => Or.imp_right ?_)
      rintro ⟨t, member, brings⟩
      rcases Crew.kept present member with rfl | still
      · exact ⟨_, Crew.moved_mem present, brings⟩
      · exact ⟨t, still, brings⟩

theorem durable_of_reach (opened : first.state.Opened) (idle : first.threads = [])
    (reach : Crew.Reach (headSystem batching) LeavesAdded first c) : c.state.Durable := by
  induction reach with
  | start => exact opened.durable
  | next before step ih =>
    cases step with
    | enter call => exact ih
    | act i ok present executed undisturbed =>
      obtain ⟨allowed, _⟩ := (backed_of_reach opened idle before).1.act present executed
      exact ih.step undisturbed allowed executed

theorem matched_of_reach (opened : first.state.Opened) (idle : first.threads = [])
    (reach : Crew.Reach (headSystem batching) OneHeight first c) : c.state.Matched := by
  induction reach with
  | start => exact opened.matched
  | next before step ih =>
    cases step with
    | enter call => exact ih
    | act i ok present executed one =>
      obtain ⟨noted, backed, _⟩ := backed_of_reach opened idle before
      exact ih.step backed one (noted.act present executed).1 executed

theorem Came.fits (opened : first.state.Opened) (noted : Noted c) {x : Cid} {n : ℕ} (came : Came first c x n) : n < word := by
  rcases came with old | ⟨t, member, brings⟩
  · exact opened.heights x n old
  · have bound := noted.fits t member
    rw [brings] at bound
    exact bound

end Runs

/-- What `primeCache` reads of values that decode. -/
theorem primeCache_lookup (value : Cid → Option Bytes) (results : List (Cid × Bytes))
    (written : ∀ e ∈ results, value e.1 = some e.2 ∧ ∃ n < word, e.2 = putUvarint n) (cache : Store Cid ℕ) :
    ∃ cache', primeCache results cache = .ok cache' ∧
      ∀ x, cache'.lookup x = if x ∈ results.map Prod.fst then (value x).bind uvarint else cache.lookup x := by
  induction results generalizing cache with
  | nil => exact ⟨cache, rfl, fun x => rfl⟩
  | cons e rest ih =>
    obtain ⟨c, data⟩ := e
    obtain ⟨stored, n, small, rfl⟩ := written _ (List.mem_cons_self ..)
    obtain ⟨cache', primed, lookup⟩ := ih (fun e member => written e (List.mem_cons_of_mem _ member)) (cache.insert c n)
    refine ⟨cache', by rw [primeCache, uvarint_putUvarint small]; exact primed, fun x => ?_⟩
    rw [lookup, List.map_cons]
    by_cases later : x ∈ rest.map Prod.fst
    · rw [if_pos later, if_pos (List.mem_cons_of_mem _ later)]
    · rw [if_neg later]
      by_cases same : x = c
      · subst same
        rw [AList.lookup_insert, if_pos (List.mem_cons_self ..), stored, Option.bind_some, uvarint_putUvarint small]
      · have absent : x ∉ c :: rest.map Prod.fst := by
          rw [List.mem_cons, not_or]
          exact ⟨same, later⟩
        rw [AList.lookup_insert_ne same, if_neg absent]

/-- A call under way that brings the head. -/
def Adding (c : HeadCrew) (h : Cid) : Prop := ∃ t ∈ c.threads, t.task.brings.1 = h ∧ ¬ t.prog.Ended

/-- Heads that are being added are those of calls under way. -/
theorem Noted.adding {c : HeadCrew} (noted : Noted c) {i : ℕ} {x : Cid} (adding : (c.state.notes i).newHead = some x) : Adding c x := by
  obtain ⟨n, adding⟩ := Note.newHead_eq_some.mp adding
  cases present : c.threads[i]? with
  | none =>
    rw [noted.later i (List.getElem?_eq_none_iff.mp present)] at adding
    cases adding
  | some t =>
    refine ⟨t, List.mem_of_getElem? present, (congrArg Prod.fst (noted.adds i t _ present adding)).symm, fun halted => ?_⟩
    rw [noted.ended present halted] at adding
    cases adding

/-- Closed at any moment, the heads can be read back: each that is stored, with its height. -/
theorem primeCache_stored {batching : Bool} {first c : HeadCrew} (opened : first.state.Opened) (idle : first.threads = [])
    (reach : Crew.Reach (headSystem batching) Crew.Anyhow first c) {results : List (Cid × Bytes)}
    (order : results.Perm (c.state.store.select (fun _ => true))) :
    ∃ cache, primeCache results ∅ = .ok cache ∧
      ∀ x n, cache.lookup x = some n ↔ c.state.store.lookup x = some (putUvarint n) ∧ n < word := by
  obtain ⟨noted, _, given⟩ := backed_of_reach opened idle reach
  have members : ∀ x data, (x, data) ∈ results ↔ c.state.store.lookup x = some data := fun x data => by
    rw [order.mem_iff, Store.mem_select, and_iff_right rfl]
  have written : ∀ e ∈ results, c.state.store.lookup e.1 = some e.2 ∧ ∃ n < word, e.2 = putUvarint n := by
    intro e member
    have stored := (members e.1 e.2).mp member
    obtain ⟨n, came, value⟩ := given.stored e.1 e.2 stored
    exact ⟨stored, n, came.fits opened noted, value⟩
  obtain ⟨cache, primed, lookup⟩ := primeCache_lookup c.state.store.lookup results written ∅
  refine ⟨cache, primed, fun x n => ?_⟩
  rw [lookup]
  cases stored : c.state.store.lookup x with
  | none =>
    have absent : x ∉ results.map Prod.fst := by
      intro here
      obtain ⟨e, member, rfl⟩ := List.mem_map.mp here
      cases stored.symm.trans (written e member).1
    rw [if_neg absent]
    simp
  | some data =>
    have here := (members x data).mpr stored
    obtain ⟨_, m, small, rfl⟩ := written _ here
    rw [if_pos (List.mem_map.mpr ⟨_, here, rfl⟩), Option.bind_some, uvarint_putUvarint small, Option.some.injEq, Option.some.injEq]
    constructor
    · rintro rfl
      exact ⟨rfl, small⟩
    · rintro ⟨same, small'⟩
      have read := congrArg uvarint same
      rw [uvarint_putUvarint small, uvarint_putUvarint small'] at read
      exact Option.some.inj read

/-- Whatever calls are made at once and whichever writes fail, a datastore closed at any moment can be
opened again, with no head that was not in the cache or on its way there, each with a height it came with.
Once the calls have returned the heads are among those of the cache; they are the same where no call took out a
head that another one was adding, and have the same heights where none was added with two heights at once. -/
theorem heads_reload {batching : Bool} {first c : HeadCrew} (opened : first.state.Opened) (idle : first.threads = [])
    (reach : Crew.Reach (headSystem batching) Crew.Anyhow first c) {results : List (Cid × Bytes)}
    (order : results.Perm (c.state.store.select (fun _ => true))) :
    ∃ cache, primeCache results ∅ = .ok cache ∧ (⟨c.state.store, cache, none, fun _ => {}⟩ : HeadState).Opened ∧
      (∀ h n, cache.lookup h = some n → Came first c h n ∧ ((c.state.cache.lookup h).isSome = true ∨ Adding c h)) ∧
      ((∀ t ∈ c.threads, t.prog.Ended) →
        (∀ h, (cache.lookup h).isSome = true → (c.state.cache.lookup h).isSome = true) ∧
        (Crew.Reach (headSystem batching) LeavesAdded first c →
          ∀ h, (cache.lookup h).isSome = (c.state.cache.lookup h).isSome) ∧
        (Crew.Reach (headSystem batching) OneHeight first c →
          ∀ h n, cache.lookup h = some n → c.state.cache.lookup h = some n)) := by
  obtain ⟨noted, backed, given⟩ := backed_of_reach opened idle reach
  obtain ⟨cache, primed, read⟩ := primeCache_stored opened idle reach order
  have decoded : ∀ x data, c.state.store.lookup x = some data → ∃ n, Came first c x n ∧ data = putUvarint n ∧ cache.lookup x = some n := by
    intro x data stored
    obtain ⟨n, came, rfl⟩ := given.stored x data stored
    exact ⟨n, came, rfl, (read x n).mpr ⟨stored, came.fits opened noted⟩⟩
  have same : ∀ x, c.state.store.lookup x = (cache.lookup x).map putUvarint := by
    intro x
    cases stored : c.state.store.lookup x with
    | some data =>
      obtain ⟨n, _, rfl, cached⟩ := decoded x data stored
      rw [cached]
      rfl
    | none =>
      cases cached : cache.lookup x with
      | none => rfl
      | some n => cases stored.symm.trans ((read x n).mp cached).1
  have backing : ∀ x, (cache.lookup x).isSome = true →
      (c.state.cache.lookup x).isSome = true ∨ ∃ i, (c.state.notes i).newHead = some x := fun x there =>
    backed.stored x (by rw [same, Option.isSome_map]; exact there)
  refine ⟨cache, primed, ⟨rfl, rfl, fun x n found => ((read x n).mp found).2, same⟩, fun x n found => ?_, fun ended => ?_⟩
  · obtain ⟨m, came, _, cached⟩ := decoded x _ ((read x n).mp found).1
    obtain rfl := Option.some.inj (found.symm.trans cached)
    exact ⟨came, (backing x (by rw [found]; rfl)).imp_right (fun ⟨_, adding⟩ => noted.adding adding)⟩
  · have settled := noted.settled ended
    have nobody : ∀ i x, (c.state.notes i).newHead ≠ some x := fun i x adding => by
      rw [settled i] at adding
      cases adding
    have known : ∀ x, (cache.lookup x).isSome = true → (c.state.cache.lookup x).isSome = true := fun x there =>
      (backing x there).resolve_right (fun ⟨i, adding⟩ => nobody i x adding)
    refine ⟨known, fun undisturbed x => Bool.eq_iff_iff.mpr ⟨known x, fun there => ?_⟩, fun one x n found => ?_⟩
    · have stored := ((durable_of_reach opened idle undisturbed).cached x there).resolve_right (fun ⟨i, removing⟩ => by
        rw [settled i] at removing
        cases removing)
      rw [same, Option.isSome_map] at stored
      exact stored
    · rcases (matched_of_reach opened idle one).stored x _ ((read x n).mp found).1 with ⟨i, m, adding, _⟩ | ⟨_, m, cached, value⟩
      · exact absurd (Note.newHead_eq_some.mpr ⟨m, adding⟩) (nobody i x)
      · have small := (given.cached x m cached).fits opened noted
        have there := (read x m).mpr ⟨value ▸ ((read x n).mp found).1, small⟩
        rw [Option.some.inj (found.symm.trans there)]
        exact cached

namespace Reopening

/-- Block `a` becomes a head, and once more with a lower height; `b` replaces it while `c` is added. -/
def moves : List (Crew.Move Bool HeadCall) :=
  [.enter (.add "a" 7), .act 0 true, .act 0 true, .act 0 true, .act 0 true, .enter (.add "a" 5), .act 1 true, .act 1 true, .act 1 true,
    .act 1 true, .enter (.replace "a" "b" 8), .enter (.add "c" 3), .act 3 true, .act 2 true, .act 2 true, .act 2 true, .act 2 true,
    .act 2 true, .act 3 true, .act 3 true, .act 3 true]

def crew : HeadCrew := HeadCrew.fresh.play (headSystem true) (fun _ _ => true) moves

end Reopening

/-- A head added twice with different heights, and replaced while another one is being added. -/
theorem heads_reload_reopening :
    ∃ cache, primeCache (Reopening.crew.state.store.select (fun _ => true)) ∅ = .ok cache ∧
      ∀ h, (cache.lookup h).isSome = true → (Reopening.crew.state.cache.lookup h).isSome = true := by
  have opened : HeadCrew.fresh.state.Opened := ⟨rfl, rfl, fun _ _ none => (by cases none), fun _ => rfl⟩
  have reach : Crew.Reach (headSystem true) Crew.Anyhow HeadCrew.fresh Reopening.crew :=
    .of_play (fun _ _ => true) (fun _ _ _ _ _ _ => trivial) Reopening.moves .start
  obtain ⟨cache, primed, _, _, settled⟩ := heads_reload opened rfl reach (.refl _)
  exact ⟨cache, primed, (settled (by decide)).1⟩

end OpenTela
