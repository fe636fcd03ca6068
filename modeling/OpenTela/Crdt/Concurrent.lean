import OpenTela.Crdt.Merge

namespace OpenTela

section Stores

variable {env : Env} {s t : SetStore}

theorem Settled.same {key : Key} (first : Settled s key env) (second : Settled t key env)
    (elems : elemsOf t key = elemsOf s key) (tombs : tombsOf t key = tombsOf s key) :
    t.lookup (valueKey key) = s.lookup (valueKey key) ∧ t.lookup (priorityKey key) = s.lookup (priorityKey key) := by
  obtain ⟨q, stores, winner⟩ := first
  obtain ⟨q', stores', winner'⟩ := second
  have same : survivors t key ∅ = survivors s key ∅ := by simp only [survivors, elems, tombs]
  rw [same] at winner'
  cases winner.unique winner'
  cases q with
  | none => exact ⟨stores'.1.trans stores.1.symm, stores'.2.trans stores.2.symm⟩
  | some r => exact ⟨stores'.1.trans stores.1.symm, stores'.2.1.trans stores.2.1.symm⟩

end Stores

section Calls

variable (env : Env) (d : Bool → Delta) (id : Bool → Id)

/-- Two calls of `Merge` that have both just been made. -/
def calls (w : World Bool) : Prog.Pool SetOp SetOp.Res String Unit (World Bool) Bool :=
  ⟨w, fun i => merge (d i) (id i)⟩

/-- The same two calls, one after the other. -/
def oneAfterOther (w : World Bool) : Option (World Bool) :=
  match (merge (d false) (id false)).run (exec env false) w with
  | some (.ok (), u) =>
    match (merge (d true) (id true)).run (exec env true) u with
    | some (.ok (), v) => some v
    | _ => none
  | _ => none

/-- The set as the calls find it: the best live element of every key is stored, and nobody holds the mutex. -/
structure Ready (w : World Bool) : Prop where
  sane : Sane env w.store
  settled : ∀ key, Settled w.store key env
  free : w.mutex = none

/-- What two merges owe: their elements and tombstones are there, and every key is settled. -/
structure Outcome (s t : SetStore) : Prop where
  elems : ∀ key x, x ∈ elemsOf t key ↔ x ∈ elemsOf s key ∨ ∃ i, x = id i ∧ key ∈ (d i).keys
  tombs : ∀ key x, x ∈ tombsOf t key ↔ x ∈ tombsOf s key ∨ ∃ i, x ∈ (d i).tombIds key
  settled : ∀ key, Settled t key env

/-- Whatever the interleaving, once both calls have returned every key stores its best live
element, as it does after one call and then the other. -/
def Serializable : Prop :=
  ∀ w c, Ready env w → Prog.Pool.Reach (exec env) (calls d id w) c → (∀ i, c.thread i = .ret ()) →
    ∃ u, oneAfterOther env d id w = some u ∧ ∀ key, Settled c.state.store key env ∧
      c.state.store.lookup (valueKey key) = u.store.lookup (valueKey key) ∧
      c.state.store.lookup (priorityKey key) = u.store.lookup (priorityKey key)

/-- For every key that one call tombstones, the other call either leaves the key alone, or
tombstones the same of its elements while neither adds one that is not tombstoned. -/
def Apart : Prop :=
  ∀ i key, ((d i).tombIds key).Nonempty →
    (key ∉ (d !i).keys ∧ ¬ ((d !i).tombIds key).Nonempty) ∨
    (((d !i).tombIds key).Nonempty ∧
      (∀ x r, env.rank key x = some r → (x ∈ (d i).tombIds key ↔ x ∈ (d !i).tombIds key)) ∧
      ∀ j, key ∈ (d j).keys → id j ∈ (d i).tombIds key)

end Calls

section Compatible

variable {env : Env} {d : Bool → Delta} {id : Bool → Id}

theorem Outcome.same {s t u : SetStore} (first : Outcome env d id s t) (second : Outcome env d id s u) (key : Key) :
    t.lookup (valueKey key) = u.lookup (valueKey key) ∧ t.lookup (priorityKey key) = u.lookup (priorityKey key) := by
  refine (second.settled key).same (first.settled key) ?_ ?_
  · ext x
    rw [first.elems, second.elems]
  · ext x
    rw [first.tombs, second.tombs]

theorem Quiet.trans {τ : Type} {i : τ} {d : Delta} {id : Id} {a b c : Core τ} (first : Quiet env i d id a b)
    (second : Quiet env i d id b c) : Quiet env i d id a c where
  sane := fun sane => second.sane (first.sane sane)
  mutex := first.mutex.trans second.mutex
  elems := fun key => (first.elems key).trans (second.elems key)
  tombs := fun key => (first.tombs key).trans (second.tombs key)
  survivors := fun key some => (second.survivors key some).trans (first.survivors key some)
  locked := fun mine key own alive => by
    obtain ⟨value₁, priority₁, tomb₁⟩ := first.locked mine key own alive
    obtain ⟨value₂, priority₂, tomb₂⟩ := second.locked (first.mutex.mp mine) key own alive
    exact ⟨value₂.trans value₁, priority₂.trans priority₁, tomb₂.trans tomb₁⟩

/-- A step of a thread that makes one call is within what a thread making the other tolerates. -/
theorem Apart.quiet (apart : Apart env d id) (ranked : ∀ x, (d x).Ranked)
    (blocks : ∀ x, env.dag (id x) = some (d x)) {τ : Type} {i j : τ} (other : i ≠ j) {x : Bool} {w u : World τ}
    (acts : Acts env i (d x) (id x) w u) : Quiet env j (d !x) (id !x) w.toCore u.toCore := by
  refine ⟨acts.sane, ?_, fun key => ?_, fun key => ?_, fun key some => ?_, fun mine key own alive => ?_⟩
  · rcases acts.mutex with same | ⟨free, taken⟩ | ⟨held, released⟩
    · rw [same]
    · rw [free, taken]
      simp [other]
    · rw [held, released]
      simp [other]
  · rcases acts.keys key with same | ⟨_, _, buries⟩ | ⟨_, _, adds⟩
    · rw [same.elems]
    · rw [buries.elems]
    · rw [adds.elems]
      exact Set.subset_insert _ _
  · rcases acts.keys key with same | ⟨_, _, buries⟩ | ⟨_, _, adds⟩
    · rw [same.tombs]
    · rw [buries.tombs]
      exact Set.subset_union_left
    · rw [adds.tombs]
  · have agreed := apart (!x) key some
    rw [Bool.not_not] at agreed
    rcases acts.keys key with same | ⟨buried, sane, buries⟩ | ⟨_, own, adds⟩
    · exact same.survivors _
    · obtain ⟨_, agree, _⟩ := agreed.resolve_left (fun none => none.2 buried)
      ext y
      simp only [survivors, buries.elems, buries.tombs, Set.mem_ofPred_eq, Set.mem_union, not_or]
      constructor
      · rintro ⟨elem, ⟨alive, _⟩, fresh⟩
        exact ⟨elem, alive, fresh⟩
      · rintro ⟨elem, alive, fresh⟩
        obtain ⟨r, rank⟩ := sane.known key y elem
        exact ⟨elem, ⟨alive, fun own => fresh ((agree y r rank).mpr own)⟩, fresh⟩
    · obtain ⟨_, _, covered⟩ := agreed.resolve_left (fun none => none.1 own)
      ext y
      simp only [survivors, adds.elems, adds.tombs, Set.mem_ofPred_eq, Set.mem_insert_iff]
      constructor
      · rintro ⟨rfl | elem, alive, fresh⟩
        · exact absurd (covered x own) fresh
        · exact ⟨elem, alive, fresh⟩
      · rintro ⟨elem, rest⟩
        exact ⟨Or.inr elem, rest⟩
  · rcases acts.keys key with same | ⟨buried, _, _⟩ | ⟨held, _, _⟩
    · exact ⟨same.value, same.priority, by rw [same.tombs]⟩
    · obtain ⟨_, agree, covered⟩ := (apart x key buried).resolve_left (fun none => none.1 own)
      obtain ⟨r, rank⟩ := (ranked !x).known (blocks !x) own
      exact absurd ((agree _ r rank).mp (covered (!x) own)) alive
    · rw [held] at mine
      exact absurd (Option.some.inj mine) other

theorem Acts.settled {τ : Type} {i : τ} {d : Delta} {id : Id} {w u : World τ} (acts : Acts env i d id w u)
    (ranked : d.Ranked) (block : env.dag id = some d) {key : Key} (settled : Settled w.store key env) :
    Settled u.store key env := by
  rcases acts.keys key with same | ⟨_, _, buries⟩ | ⟨_, own, adds⟩
  · exact same.settled settled
  · exact buries.settled
  · exact adds.settled (ranked.known block own) settled

/-- One step adds no element and no tombstone but those of the delta. -/
theorem Acts.within {τ : Type} {i : τ} {d : Delta} {id : Id} {w u : World τ} (acts : Acts env i d id w u) (key : Key) :
    (∀ x ∈ elemsOf u.store key, x ∈ elemsOf w.store key ∨ x = id ∧ key ∈ d.keys) ∧
    ∀ x ∈ tombsOf u.store key, x ∈ tombsOf w.store key ∨ x ∈ d.tombIds key := by
  rcases acts.keys key with same | ⟨_, _, buries⟩ | ⟨_, own, adds⟩
  · rw [same.elems, same.tombs]
    exact ⟨fun _ old => Or.inl old, fun _ old => Or.inl old⟩
  · rw [buries.elems, buries.tombs]
    exact ⟨fun _ old => Or.inl old, fun _ member => member⟩
  · rw [adds.elems, adds.tombs]
    exact ⟨fun x member => (Set.mem_insert_iff.mp member).symm.imp_right (fun same => ⟨same, own⟩),
      fun _ old => Or.inl old⟩

/-- What holds along any number of steps of the two calls. -/
structure Progress (env : Env) (d : Bool → Delta) (id : Bool → Id) (s t : SetStore) : Prop where
  elems : ∀ key, ∀ x ∈ elemsOf t key, x ∈ elemsOf s key ∨ ∃ i, x = id i ∧ key ∈ (d i).keys
  tombs : ∀ key, ∀ x ∈ tombsOf t key, x ∈ tombsOf s key ∨ ∃ i, x ∈ (d i).tombIds key
  settled : ∀ key, Settled t key env

theorem Progress.of_steps {w u : World Bool} (ranked : ∀ i, (d i).Ranked) (blocks : ∀ i, env.dag (id i) = some (d i))
    (settled : ∀ key, Settled w.store key env)
    (steps : Relation.ReflTransGen (fun w u => ∃ i, Acts env i (d i) (id i) w u) w u) :
    Progress env d id w.store u.store := by
  induction steps with
  | refl => exact ⟨fun _ _ old => Or.inl old, fun _ _ old => Or.inl old, settled⟩
  | tail _ step ih =>
    obtain ⟨i, acts⟩ := step
    refine ⟨fun key x member => ?_, fun key x member => ?_, fun key => ?_⟩
    · rcases (acts.within key).1 x member with old | ⟨same, own⟩
      · exact ih.elems key x old
      · exact Or.inr ⟨i, same, own⟩
    · rcases (acts.within key).2 x member with old | own
      · exact ih.tombs key x old
      · exact Or.inr ⟨i, own⟩
    · exact acts.settled (ranked i) (blocks i) (ih.settled key)

/-- A call that has returned has left its elements and tombstones behind. -/
theorem merged_present {τ : Type} {i : τ} {d : Delta} {id : Id} {w v u : World τ}
    (tombsDone : TombsDone env i d (Quiet env i d id) w v) (elemsDone : ElemsDone env i d id (Quiet env i d id) v u)
    (key : Key) :
    elemsOf w.store key ⊆ elemsOf u.store key ∧ tombsOf w.store key ⊆ tombsOf u.store key ∧
    d.tombIds key ⊆ tombsOf u.store key ∧ (key ∈ d.keys → id ∈ elemsOf u.store key) := by
  obtain ⟨b, c, before, _, buried, after, _⟩ := tombsDone
  obtain ⟨a', b', c', e', locked, _, held, _, added, kept, freed, _⟩ := elemsDone
  have tombs : tombsOf c.store key ⊆ tombsOf u.store key :=
    calc tombsOf c.store key
        ⊆ tombsOf b'.store key := (after.tombs key).trans ((locked.tombs key).trans (held.tombs key))
      _ = tombsOf c'.store key := (added.tombs_eq key).symm
      _ ⊆ tombsOf u.store key := (kept.tombs key).trans (freed.tombs key)
  have elems : elemsOf c'.store key ⊆ elemsOf u.store key := (kept.elems key).trans (freed.elems key)
  have old : elemsOf w.store key ⊆ elemsOf b'.store key :=
    calc elemsOf w.store key
        ⊆ elemsOf b.store key := before.elems key
      _ = elemsOf c.store key := (buried.elems_eq key).symm
      _ ⊆ elemsOf b'.store key := (after.elems key).trans ((locked.elems key).trans (held.elems key))
  refine ⟨fun x member => ?_, fun x member => ?_, fun x member => ?_, fun own => ?_⟩
  · exact elems ((added.elems_iff key x).mpr (Or.inl (old member)))
  · exact tombs (by rw [buried.tombs_eq]; exact Or.inl (before.tombs key member))
  · exact tombs (by rw [buried.tombs_eq]; exact Or.inr member)
  · exact elems ((added.elems_iff key id).mpr (Or.inr ⟨rfl, own⟩))

theorem Tolerates.quiet_self {τ : Type} {i : τ} {d : Delta} {id : Id} :
    Tolerates env i d id (· = .lock) (Quiet env i d id) where
  refl := Quiet.refl
  trans := fun _ _ _ => Quiet.trans
  quiet := fun _ _ quiet => quiet
  free := fun _ _ _ _ => Or.inl rfl

/-- Calls that stay apart reach their outcome in every interleaving. -/
theorem Apart.outcome (apart : Apart env d id) (orderly : ∀ i, (d i).Orderly (id i))
    (blocks : ∀ i, env.dag (id i) = some (d i)) {w : World Bool}
    {c : Prog.Pool SetOp SetOp.Res String Unit (World Bool) Bool} (ready : Ready env w)
    (reach : Prog.Pool.Reach (exec env) (calls d id w) c) (returned : ∀ i, c.thread i = .ret ()) :
    Outcome env d id w.store c.state.store := by
  have tol : ∀ i, Tolerates env i (d i) (id i) (· = .lock) (Quiet env i (d i) (id i)) := fun _ => Tolerates.quiet_self
  obtain ⟨steps, posts⟩ := reach.preserves (· = .lock)
    (fun i => Steady (Quiet env i (d i) (id i)) i) (fun i => Acts env i (d i) (id i))
    (fun i _ u => ∃ v, TombsDone env i (d i) (Quiet env i (d i) (id i)) w v ∧
      ElemsDone env i (d i) (id i) (Quiet env i (d i) (id i)) v u)
    (fun i => (tol i).steady_refl) (fun i => (tol i).steady_trans)
    (fun i j different s t acts => by
      obtain rfl : j = !i := by cases i <;> cases j <;> simp_all
      exact ⟨apart.quiet (fun i => (orderly i).ranked) blocks different acts, acts.hooks _ (Ne.symm different)⟩)
    (fun i => merge_triple (tol i) (orderly i) (blocks i) ready.sane (Or.inl rfl))
  have progress := Progress.of_steps (fun i => (orderly i).ranked) blocks ready.settled steps
  have present : ∀ i key, elemsOf w.store key ⊆ elemsOf c.state.store key ∧
      tombsOf w.store key ⊆ tombsOf c.state.store key ∧ (d i).tombIds key ⊆ tombsOf c.state.store key ∧
      (key ∈ (d i).keys → id i ∈ elemsOf c.state.store key) := by
    intro i key
    have post := posts i
    rw [returned i] at post
    obtain ⟨v, tombsDone, elemsDone⟩ := post c.state ((tol i).steady_refl _)
    exact merged_present tombsDone elemsDone key
  refine ⟨fun key x => ⟨progress.elems key x, ?_⟩, fun key x => ⟨progress.tombs key x, ?_⟩, progress.settled⟩
  · rintro (old | ⟨i, rfl, own⟩)
    · exact (present false key).1 old
    · exact (present i key).2.2.2 own
  · rintro (old | ⟨i, own⟩)
    · exact (present false key).2.1 old
    · exact (present i key).2.2.1 own

theorem oneAfterOther_outcome (orderly : ∀ i, (d i).Orderly (id i)) (blocks : ∀ i, env.dag (id i) = some (d i))
    {w : World Bool} (ready : Ready env w) :
    ∃ u, oneAfterOther env d id w = some u ∧ Outcome env d id w.store u.store := by
  obtain ⟨u, s, run₁, free, buried₁, added₁, _⟩ :=
    merge_run (i := false) (orderly false) (blocks false) ready.sane ready.free
  have sane := added₁.sane (orderly false).ranked (blocks false) (buried₁.sane ready.sane)
  obtain ⟨v, t, run₂, _, buried₂, added₂, _⟩ := merge_run (i := true) (orderly true) (blocks true) sane free
  refine ⟨v, by simp only [oneAfterOther, run₁, run₂], fun key x => ?_, fun key x => ?_, fun key => ?_⟩
  · rw [added₂.elems_iff, buried₂.elems_eq, added₁.elems_iff, buried₁.elems_eq, Bool.exists_bool, or_assoc]
  · rw [added₂.tombs_eq, buried₂.tombs_eq, added₁.tombs_eq, buried₁.tombs_eq, Bool.exists_bool, Set.union_assoc]
    rfl
  · exact added₂.settled (orderly true).ranked (blocks true)
      (buried₂.settled (added₁.settled (orderly false).ranked (blocks false) (buried₁.settled (ready.settled key))))

theorem Apart.serializable (apart : Apart env d id) (orderly : ∀ i, (d i).Orderly (id i))
    (blocks : ∀ i, env.dag (id i) = some (d i)) : Serializable env d id := by
  intro w c ready reach returned
  obtain ⟨u, run, sequential⟩ := oneAfterOther_outcome orderly blocks ready
  have outcome := apart.outcome orderly blocks ready reach returned
  exact ⟨u, run, fun key => ⟨outcome.settled key, outcome.same sequential key⟩⟩

end Compatible

end OpenTela
