import OpenTela.Dag.Repair
import OpenTela.Dag.Writes

namespace OpenTela

open Prog

/-- The set holds the elements and the tombstones of the block. -/
structure Net.Absorbed (net : Net) (s : SetStore) (b : Cid) : Prop where
  elems : ∀ key ∈ (net.block b).delta.keys, b ∈ elemsOf s key
  tombs : ∀ key, (net.block b).delta.tombIds key ⊆ tombsOf s key

/-- No element and no tombstone goes. -/
structure Accrues (s t : SetStore) : Prop where
  elems : ∀ key, elemsOf s key ⊆ elemsOf t key
  tombs : ∀ key, tombsOf s key ⊆ tombsOf t key

/-- The thread is in the merge of `b`, at the end of which the set has absorbed it. -/
def Net.Absorbing (net : Net) (j : ℕ) (b : Cid) (p : DagM Unit) (w : World ℕ) : Prop :=
  ∃ m, MergesThen b m p ∧ Triple net.env j (net.block b).delta b (· = .lock) (Quiet net.env j (net.block b).delta b) m
    (fun _ u => net.Absorbed u.store b) w

/-- Every block that has been processed is in the set for good, and every merge under way
ends with its block there. -/
structure Thorough (net : Net) (c : Crew) : Prop where
  absorbed : ∀ b ∈ c.state.processed, net.Absorbed c.state.set.store b
  absorbing : ∀ j b, c.state.merging.lookup j = some b →
    ∃ t, c.threads[j]? = some t ∧ net.Absorbing j b t.prog c.state.set

section Stores

variable {net : Net} {s t u : SetStore} {b : Cid}

theorem Accrues.refl (s : SetStore) : Accrues s s := ⟨fun _ => subset_rfl, fun _ => subset_rfl⟩

theorem Net.Absorbed.grows (absorbed : net.Absorbed s b) (grows : Accrues s t) : net.Absorbed t b where
  elems := fun key own => grows.elems key (absorbed.elems key own)
  tombs := fun key => (absorbed.tombs key).trans (grows.tombs key)

theorem Quiet.grows {env : Env} {j : ℕ} {d : Delta} {id : Id} {x y : Core ℕ} (quiet : Quiet env j d id x y) :
    Accrues x.store y.store := ⟨quiet.elems, quiet.tombs⟩

theorem Acts.grows {env : Env} {j : ℕ} {d : Delta} {id : Id} {w v : World ℕ} (acts : Acts env j d id w v) :
    Accrues w.store v.store := by
  constructor
  · intro key
    rcases acts.keys key with same | ⟨_, _, buries⟩ | ⟨_, _, adds⟩
    · rw [same.elems]
    · rw [buries.elems]
    · rw [adds.elems]
      exact Set.subset_insert _ _
  · intro key
    rcases acts.keys key with same | ⟨_, _, buries⟩ | ⟨_, _, adds⟩
    · rw [same.tombs]
    · rw [buries.tombs]
      exact Set.subset_union_left
    · rw [adds.tombs]

/-- The two commits of a merge leave nothing of the block out. -/
theorem absorbed_of_commits {env : Env} {d : Delta} {x y : SetStore} (buried : TombsCommitted env d s t) (later : Accrues t x)
    (added : ElemsCommitted env d b x y) (same : (net.block b).delta = d) : net.Absorbed y b := by
  constructor
  · intro key own
    rw [same] at own
    exact (added.elems_iff key b).mpr (Or.inr ⟨rfl, own⟩)
  · intro key x own
    rw [same] at own
    rw [added.tombs_eq]
    refine later.tombs key ?_
    rw [buried.tombs_eq]
    exact Or.inr own

end Stores

section Step

variable {net : Net} {c d : Crew} {i : ℕ} {choice : Choice} {task : Task} {o : DagOp} {next : o.Res → DagM Unit} {r : o.Res}
  {s : Replica}

/-- A merge that begins on a sane set ends with the block absorbed. -/
theorem absorbing_start (produced : ∀ c, (net.block c).delta.Produced) {j : ℕ} {b : Cid} {p : DagM Unit} {w : World ℕ}
    (sane : Sane net.env w.store) (merges : MergesThen b (merge (net.block b).delta b) p) : net.Absorbing j b p w := by
  refine ⟨_, merges, (merge_triple Tolerates.quiet_self ((produced b).orderly b) (net.serves b) sane (Or.inl rfl)).mono ?_⟩
  rintro _ u ⟨v, ⟨x, y, _, _, buried, after, _⟩, a', b', c', e', first, _, second, _, added, third, fourth, _⟩
  have between : Accrues y.store b'.store := by
    constructor
    · exact fun key => ((after.elems key).trans (first.elems key)).trans (second.elems key)
    · exact fun key => ((after.tombs key).trans (first.tombs key)).trans (second.tombs key)
  have here : net.Absorbed c'.store b := absorbed_of_commits buried between added rfl
  exact (here.grows third.grows).grows fourth.grows

/-- A thread in a merge goes on with it, or marks the block, which is in the set by then. -/
theorem Net.Absorbing.step {w w' : Replica} {a : Cid} {next : o.Res → DagM Unit} (absorbing : net.Absorbing i a (.op o next) w.set)
    (executed : net.exec i choice o w = some (r, w')) :
    o = .markProcessed a ∧ net.Absorbed w.set.store a ∨ engaged (some a) o r = some a ∧ net.Absorbing i a (next r) w'.set := by
  obtain ⟨m, ⟨K, context, shape, last, marks⟩, triple⟩ := absorbing
  cases m with
  | ret u =>
    rw [show DagM.set (.ret u) = .ret () from rfl, marks] at shape
    cases shape
    exact Or.inl ⟨rfl, triple w.set (Tolerates.quiet_self.steady_refl _)⟩
  | fail e => exact triple.elim
  | op so rest =>
    rw [show DagM.set (.op so rest) = .op (.set so) (fun r => DagM.set (rest r)) from rfl, context] at shape
    cases shape
    obtain ⟨u, inner, rfl⟩ := Net.exec_set executed
    obtain ⟨_, later⟩ := (triple w.set (Tolerates.quiet_self.steady_refl _)).2 r u inner
    exact Or.inr ⟨rfl, rest r, ⟨K, context, rfl, last, marks⟩, later⟩

variable (calm : Calm net c) (present : c.threads[i]? = some ⟨task, .op o next⟩)
  (executed : net.exec i choice o c.state = some (r, s))

include calm present executed in
/-- No step takes anything out of the set. -/
theorem Calm.grows : Accrues c.state.set.store s.set.store := by
  rcases calm.moved present executed with ⟨_, same, _⟩ | ⟨a, _, ⟨_, same, _⟩ | ⟨_, acts, _⟩⟩
  · rw [same]
    exact .refl _
  · rw [same]
    exact .refl _
  · exact acts.grows

include calm present executed in
theorem Thorough.absorbed_step (thorough : Thorough net c) {b : Cid} (processed : b ∈ s.processed) :
    net.Absorbed s.set.store b := by
  have grows := calm.grows present executed
  rcases (Net.exec_advance executed).marked b processed with old | rfl
  · exact (thorough.absorbed b old).grows grows
  · rcases calm.moved present executed with ⟨_, _, no⟩ | ⟨a, here, ⟨same, _⟩ | ⟨no, _⟩⟩
    · exact no.elim
    · cases same
      obtain ⟨t, found, absorbing⟩ := thorough.absorbing i _ here
      obtain rfl := Option.some.inj (present.symm.trans found)
      rcases absorbing.step executed with ⟨_, absorbed⟩ | ⟨no, _⟩
      · exact absorbed.grows grows
      · cases no
    · cases no

include calm present executed in
theorem Thorough.absorbing_step (produced : ∀ c, (net.block c).delta.Produced) (thorough : Thorough net c) (j : ℕ) (b : Cid)
    (noted : s.merging.lookup j = some b) :
    ∃ t, (stepped net c i s task o (next r)).threads[j]? = some t ∧ net.Absorbing j b t.prog s.set := by
  have notes := Net.exec_merging executed
  by_cases mine : j = i
  · subst mine
    refine ⟨_, Crew.after_at present, ?_⟩
    rw [notes.1] at noted
    rcases calm.moved present executed with ⟨none, same, orderly⟩ | ⟨a, here, acting⟩
    · rw [none] at noted
      cases o with
      | enterMerge x =>
        obtain rfl : x = b := Option.some.inj noted
        obtain ⟨merges, _, _⟩ := orderly
        rw [same]
        exact absorbing_start produced calm.kempt.sane merges
      | _ => cases noted
    · obtain ⟨t, found, absorbing⟩ := thorough.absorbing j a here
      obtain rfl := Option.some.inj (present.symm.trans found)
      rcases absorbing.step executed with ⟨rfl, _⟩ | ⟨still, later⟩
      · cases noted
      · rw [here, still] at noted
        obtain rfl : a = b := Option.some.inj noted
        exact later
  · rw [notes.2 j mine] at noted
    obtain ⟨t, found, m, merges, triple⟩ := thorough.absorbing j b noted
    refine ⟨t, Crew.after_other mine found, m, merges, ?_⟩
    exact triple.stable Tolerates.quiet_self.steady_trans (calm.steady present executed produced mine noted)

end Step

theorem Thorough.fresh {net : Net} : Thorough net Crew.fresh where
  absorbed := fun _ none => absurd none (Finset.notMem_empty _)
  absorbing := fun _ _ none => by cases none

theorem Thorough.step {net : Net} {c d : Crew} (produced : ∀ c, (net.block c).delta.Produced) (calm : Calm net c)
    (thorough : Thorough net c) (step : Crew.Step net.system (TakesCare net) c d) : Thorough net d := by
  cases step with
  | enter task outside =>
    refine ⟨thorough.absorbed, fun j b noted => ?_⟩
    obtain ⟨t, present, absorbing⟩ := thorough.absorbing j b noted
    exact ⟨t, by rw [List.getElem?_append_left (List.getElem?_eq_some_iff.mp present).1]; exact present, absorbing⟩
  | @act i choice task o next r s present executed _ =>
    have executed : net.exec i choice o c.state = some (r, s) := executed
    exact ⟨fun b processed => thorough.absorbed_step calm present executed processed,
      thorough.absorbing_step calm present executed produced⟩

/-- In every run with care, what has been processed is in the set. -/
theorem thorough_of_reach {net : Net} {c : Crew} (honest : net.Honest) (produced : ∀ c, (net.block c).delta.Produced)
    (reach : Crew.Reach net.system (TakesCare net) Crew.fresh c) : Thorough net c := by
  induction reach with
  | start => exact .fresh
  | next reach step ih => exact ih.step produced (calm_of_reach honest produced reach) step

end OpenTela
