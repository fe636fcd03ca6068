import OpenTela.Dag.Obeys

namespace OpenTela

open Prog

def DagOp.sound : DagOp → Prop
  | .set o => o.sound
  | _ => True

/-- Reads of the set, and whatever else does not touch the store. -/
theorem exec_store {τ : Type} [DecidableEq τ] {env : Env} {i : τ} {o : SetOp} {w w' : World τ} {r : o.Res}
    (executed : exec env i o w = some (r, w')) :
    w'.store = w.store ∨ ∃ batch, o = .commit batch ∧ w'.store = batch.apply w.store := by
  cases o with
  | commit batch =>
    obtain ⟨_, rfl⟩ := Prod.mk.inj (Option.some.inj executed)
    exact Or.inr ⟨batch, rfl, rfl⟩
  | lock =>
    simp only [exec] at executed
    split at executed
    · obtain ⟨_, rfl⟩ := Prod.mk.inj (Option.some.inj executed)
      exact Or.inl rfl
    · cases executed
  | _ =>
    obtain ⟨_, rfl⟩ := Prod.mk.inj (Option.some.inj executed)
    exact Or.inl rfl

/-- Operations that change at most the sessions and the auto-ban. -/
def DagOp.Idle : DagOp → Prop
  | .set _ | .enterMerge _ | .markProcessed _ | .visit _ | .dequeue _ | .addHead _ _ | .replaceHead _ _ _ | .markDirty
  | .markClean => False
  | _ => True

/-- Two replicas that differ at most in the sessions and in what the auto-ban has added. -/
structure Alike (w w' : Replica) : Prop where
  set : w'.set = w.set
  heads : w'.heads = w.heads
  processed : w'.processed = w.processed
  queuedChildren : w'.queuedChildren = w.queuedChildren
  dirty : w'.dirty = w.dirty
  banned : w.banned ⊆ w'.banned
  merging : w'.merging = w.merging

theorem Alike.refl (w : Replica) : Alike w w := ⟨rfl, rfl, rfl, rfl, rfl, fun _ member => member, rfl⟩

section Answers

variable {net : Net} {i : ℕ} {choice : Choice} {o : DagOp} {w w' : Replica} {r : o.Res}

theorem Net.exec_alike (executed : net.exec i choice o w = some (r, w')) (idle : o.Idle) : Alike w w' := by
  cases o with
  | recordFailure c =>
    simp only [Net.exec] at executed
    split at executed
    · obtain ⟨_, rfl⟩ := Prod.mk.inj (Option.some.inj executed)
      exact .refl w
    · split at executed
      · obtain ⟨_, rfl⟩ := Prod.mk.inj (Option.some.inj executed)
        exact ⟨rfl, rfl, rfl, rfl, rfl, fun _ member => member, rfl⟩
      · obtain ⟨_, rfl⟩ := Prod.mk.inj (Option.some.inj executed)
        exact ⟨rfl, rfl, rfl, rfl, rfl, fun _ member => Finset.mem_insert_of_mem member, rfl⟩
  | getDeltas children =>
    simp only [Net.exec] at executed
    split at executed
    · obtain ⟨_, rfl⟩ := Prod.mk.inj (Option.some.inj executed)
      exact .refl w
    · cases executed
  | putBlock b =>
    simp only [Net.exec] at executed
    split at executed
    · obtain ⟨_, rfl⟩ := Prod.mk.inj (Option.some.inj executed)
      exact .refl w
    · split at executed
      · obtain ⟨_, rfl⟩ := Prod.mk.inj (Option.some.inj executed)
        exact .refl w
      · cases executed
  | sessionWait session =>
    simp only [Net.exec] at executed
    split at executed
    · obtain ⟨_, rfl⟩ := Prod.mk.inj (Option.some.inj executed)
      exact .refl w
    · cases executed
  | set | enterMerge | markProcessed | visit | dequeue | addHead | replaceHead | markDirty | markClean => exact idle.elim
  | _ =>
    obtain ⟨_, rfl⟩ := Prod.mk.inj (Option.some.inj executed)
    exact ⟨rfl, rfl, rfl, rfl, rfl, fun _ member => member, rfl⟩

/-- An operation of the set changes nothing but the set. -/
theorem Net.exec_set {so : SetOp} {r : so.Res} (executed : net.exec i choice (.set so) w = some (r, w')) :
    ∃ u, OpenTela.exec net.env i so w.set = some (r, u) ∧ w' = { w with set := u } := by
  obtain ⟨⟨r', u⟩, inner, same⟩ := Option.map_eq_some_iff.mp executed
  obtain ⟨rfl, rfl⟩ := Prod.mk.inj same
  exact ⟨u, inner, rfl⟩

theorem Net.exec_can (decodes : Decodes w.set.store) (executed : net.exec i choice o w = some (r, w')) :
    net.can o r := by
  cases o with
  | set so =>
    obtain ⟨u, inner, _⟩ := Net.exec_set executed
    cases so with
    | get path =>
      obtain ⟨rfl, _⟩ := Prod.mk.inj (Option.some.inj inner)
      rintro key data rfl found
      exact decodes key data found
    | fetch id =>
      obtain ⟨rfl, _⟩ := Prod.mk.inj (Option.some.inj inner)
      exact ⟨_, net.serves id⟩
    | _ => trivial
  | putBlock b =>
    simp only [Net.exec] at executed
    split at executed
    · obtain ⟨rfl, _⟩ := Prod.mk.inj (Option.some.inj executed)
      intro c none
      cases none
    · split at executed
      · rename_i named
        obtain ⟨rfl, _⟩ := Prod.mk.inj (Option.some.inj executed)
        intro c here
        exact Option.some.inj here ▸ named
      · cases executed
  | getDeltas children =>
    simp only [Net.exec] at executed
    split at executed
    · rename_i within
      obtain ⟨rfl, _⟩ := Prod.mk.inj (Option.some.inj executed)
      exact fun c member => within member
    · cases executed
  | _ => trivial

theorem Net.exec_decodes (decodes : Decodes w.set.store) (sound : o.sound)
    (executed : net.exec i choice o w = some (r, w')) : Decodes w'.set.store := by
  cases o with
  | set so =>
    obtain ⟨u, inner, rfl⟩ := Net.exec_set executed
    rcases exec_store inner with same | ⟨batch, rfl, applied⟩
    · exact same ▸ decodes
    · exact applied ▸ decodes.apply sound
  | enterMerge | markProcessed | visit | dequeue | addHead | replaceHead | markDirty | markClean =>
    obtain ⟨_, rfl⟩ := Prod.mk.inj (Option.some.inj executed)
    exact decodes
  | _ =>
    rw [(Net.exec_alike executed trivial).set]
    exact decodes

/-- What an operation can do to the marks of blocks. -/
structure Advance (o : DagOp) (w w' : Replica) : Prop where
  processed : w.processed ⊆ w'.processed
  banned : w.banned ⊆ w'.banned
  dirty : o ≠ .markClean → w.dirty = true → w'.dirty = true
  queued : ∀ l, l ∈ w'.queuedChildren → l ∈ w.queuedChildren ∨ o = .visit l
  marked : ∀ c, c ∈ w'.processed → c ∈ w.processed ∨ o = .markProcessed c

theorem Alike.advance (alike : Alike w w') : Advance o w w' where
  processed := by rw [alike.processed]
  banned := alike.banned
  dirty := fun _ dirty => by rw [alike.dirty]; exact dirty
  queued := fun l member => Or.inl (alike.queuedChildren ▸ member)
  marked := fun c member => Or.inl (alike.processed ▸ member)

theorem Net.exec_advance (executed : net.exec i choice o w = some (r, w')) : Advance o w w' := by
  cases o with
  | set so =>
    obtain ⟨u, _, rfl⟩ := Net.exec_set executed
    exact ⟨subset_rfl, subset_rfl, fun _ dirty => dirty, fun _ member => Or.inl member, fun _ member => Or.inl member⟩
  | markProcessed c =>
    obtain ⟨_, rfl⟩ := Prod.mk.inj (Option.some.inj executed)
    refine ⟨Finset.subset_insert _ _, subset_rfl, fun _ dirty => dirty, fun _ member => Or.inl member, fun x member => ?_⟩
    rcases Finset.mem_insert.mp member with rfl | old
    · exact Or.inr rfl
    · exact Or.inl old
  | visit c =>
    obtain ⟨_, rfl⟩ := Prod.mk.inj (Option.some.inj executed)
    refine ⟨subset_rfl, subset_rfl, fun _ dirty => dirty, fun x member => ?_, fun _ member => Or.inl member⟩
    rcases Finset.mem_insert.mp member with rfl | old
    · exact Or.inr rfl
    · exact Or.inl old
  | dequeue c =>
    obtain ⟨_, rfl⟩ := Prod.mk.inj (Option.some.inj executed)
    exact ⟨subset_rfl, subset_rfl, fun _ dirty => dirty, fun x member => Or.inl (Finset.mem_of_mem_erase member),
      fun _ member => Or.inl member⟩
  | markDirty =>
    obtain ⟨_, rfl⟩ := Prod.mk.inj (Option.some.inj executed)
    exact ⟨subset_rfl, subset_rfl, fun _ _ => rfl, fun _ member => Or.inl member, fun _ member => Or.inl member⟩
  | markClean =>
    obtain ⟨_, rfl⟩ := Prod.mk.inj (Option.some.inj executed)
    exact ⟨subset_rfl, subset_rfl, fun other => absurd rfl other, fun _ member => Or.inl member, fun _ member => Or.inl member⟩
  | enterMerge | addHead | replaceHead =>
    obtain ⟨_, rfl⟩ := Prod.mk.inj (Option.some.inj executed)
    exact ⟨subset_rfl, subset_rfl, fun _ dirty => dirty, fun _ member => Or.inl member, fun _ member => Or.inl member⟩
  | _ => exact (Net.exec_alike executed trivial).advance

end Answers

/-- Whatever a task does to the set is sound. -/
theorem Net.body_sound (net : Net) (task : Task) : Obeys net.can DagOp.sound (fun _ => True) (net.body task) := by
  have possible : ∀ (o : DagOp) (r : o.Res), net.can o r → net.can o r := fun _ _ answered => answered
  have plain : ∀ o : DagOp, o.Plain → o.sound := by
    intro o isPlain
    cases o with
    | set so => exact isPlain.elim
    | _ => trivial
  have published : ∀ elements tombstones, Obeys net.can DagOp.sound (fun _ => True) (publish net elements tombstones) :=
    fun _ _ => publish_obeys possible plain (fun _ sound => sound) (fun _ => trivial) (fun _ => trivial) (fun _ => trivial)
      (fun _ _ _ => trivial) (fun _ _ _ => trivial)
  cases task with
  | receive heads => exact handleNext_obeys plain heads (fun _ => trivial) (fun _ => trivial)
  | head c => exact processHead_obeys possible plain trivial (fun _ => trivial)
  | job session root rootPrio node =>
    exact dagWorker_obeys possible plain (fun _ sound => sound) trivial trivial trivial (fun _ _ => trivial) (fun _ _ => trivial)
      trivial (fun _ _ _ _ => trivial)
  | repairTimer => exact repair_obeys plain (fun _ _ => trivial)
  | repairCall => exact repairDAG_obeys plain (fun _ _ => trivial)
  | sweep nodes queued =>
    exact repairDAG_loop_obeys possible plain nodes queued trivial (fun _ _ => trivial) (fun _ _ _ _ => trivial)
      (fun _ _ => trivial)
  | put key value => exact published _ _
  | delete key =>
    refine (set_obeys possible (fun _ sound => sound) (rmv_sound key)).next (fun tombstones _ => ?_)
    split
    · exact Obeys.ret trivial
    · exact published _ _

/-- The priorities in the store decode, and what is under way keeps it so. -/
structure Sturdy (net : Net) (c : Crew) : Prop where
  decodes : Decodes c.state.set.store
  threads : ∀ t ∈ c.threads, Obeys net.can DagOp.sound (fun _ => True) t.prog

section Runs

variable {net : Net} {meets : Crew → ℕ → Task → (o : DagOp) → o.Res → Prop} {c d : Crew}

theorem Sturdy.step (sturdy : Sturdy net c) (step : Crew.Step net.system meets c d) : Sturdy net d := by
  cases step with
  | enter task _ => exact ⟨sturdy.decodes, Crew.always_enter (net.body_sound task) sturdy.threads⟩
  | act i choice present executed _ =>
    have answered := Net.exec_can sturdy.decodes executed
    obtain ⟨sound, threads⟩ := Crew.always_after net.system present answered
      (fun _ task _ => net.body_sound task) sturdy.threads
    exact ⟨Net.exec_decodes sturdy.decodes sound executed, threads⟩

theorem Sturdy.fresh : Sturdy net Crew.fresh where
  decodes := fun _ _ none => by cases none
  threads := fun _ none => by cases none

end Runs

end OpenTela
