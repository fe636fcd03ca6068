import OpenTela.Dag.Sweep

namespace OpenTela

open Prog

/-- The thread has block `c` in its care, or will come to it while nobody has reserved it. -/
def Net.Working (net : Net) (queued : Finset Cid) (c : Cid) (t : DagThread) : Prop :=
  t.task.walks = true ∧ (net.Fetching c t.prog ∨ c ∉ queued ∧ net.Coming c t.task.writes t.prog)

/-- A link that has not been lost sight of: it is processed or banned, the store is dirty, or
one of the threads is at it. -/
def Net.Tracked (net : Net) (threads : List DagThread) (w : Replica) (c : Cid) : Prop :=
  c ∈ w.processed ∨ c ∈ w.banned ∨ w.dirty = true ∨ ∃ t ∈ threads, net.Working w.queuedChildren c t

/-- The blocks a repair pass has set out to visit. -/
def Task.walked : Task → List Cid
  | .sweep _ queued => queued
  | _ => []

/-- A step that loses sight of no link of a processed block. Only three kinds of step can:
clearing the dirty bit, where the pass must have walked every block with a link that nothing
else keeps track of; giving up a broadcast head that could not be fetched; and a local write
that reserves a head it builds on. -/
def KeepsTrack (net : Net) (c : Crew) (i : ℕ) (task : Task) : (o : DagOp) → o.Res → Prop
  | .markClean, _ => ∀ p ∈ c.state.processed, ∀ l ∈ net.links p,
      p ∈ task.walked ∨ net.Tracked c.threads { c.state with dirty := false } l
  | .recordFailure l, banned => (∃ p ∈ c.state.processed, l ∈ net.links p) →
      banned = true ∨ net.Tracked (c.threads.eraseIdx i) c.state l
  | .visit l, reserved => task.writes = true → reserved = true →
      net.Tracked (c.threads.eraseIdx i) { c.state with queuedChildren := insert l c.state.queuedChildren } l
  | _, _ => True

theorem Net.Tracked.mono {net : Net} {w w' : Replica} {threads threads' : List DagThread} {l : Cid} (tracked : net.Tracked threads w l)
    (more : ∀ t ∈ threads, t ∈ threads') (processed : w.processed ⊆ w'.processed) (banned : w.banned ⊆ w'.banned)
    (dirty : w.dirty = true → w'.dirty = true) (queued : l ∈ w'.queuedChildren → l ∈ w.queuedChildren) :
    net.Tracked threads' w' l := by
  rcases tracked with done | ban | mark | ⟨t, member, walks, working⟩
  · exact Or.inl (processed done)
  · exact Or.inr (Or.inl (banned ban))
  · exact Or.inr (Or.inr (Or.inl (dirty mark)))
  · refine Or.inr (Or.inr (Or.inr ⟨t, more t member, walks, working.imp_right ?_⟩))
    exact fun ⟨free, coming⟩ => ⟨fun member => free (queued member), coming⟩

def Fact.Holds (net : Net) (c : Crew) : Fact → Prop
  | .reached x => x ∈ c.state.processed ∨ ∃ t ∈ c.threads, t.task.walks = true ∧ net.Marking x t.prog
  | .banned x => x ∈ c.state.banned

/-- No link is lost sight of, and what is under way keeps it so. -/
structure Upheld (net : Net) (c : Crew) : Prop where
  sturdy : Sturdy net c
  tracked : ∀ p ∈ c.state.processed, ∀ l ∈ net.links p, net.Tracked c.threads c.state l
  queued : ∀ l ∈ c.state.queuedChildren, ∃ p ∈ c.state.processed, l ∈ net.links p
  tidy : ∀ t ∈ c.threads, ∃ node, (∀ p, node = some p → p ∈ c.state.processed) ∧ net.Tidy t.task node t.prog
  learns : ∀ t ∈ c.threads, ∃ facts : List Fact, (∀ f ∈ facts, f.Holds net c) ∧
    net.Learns t.task (fun _ _ => True) facts t.prog

section Step

variable {net : Net} {c : Crew} {i : ℕ} {choice : Choice} {task : Task} {o : DagOp} {next : o.Res → DagM Unit} {r : o.Res}
  {s : Replica} (kept : Upheld net c) (present : c.threads[i]? = some ⟨task, .op o next⟩)
  (executed : net.exec i choice o c.state = some (r, s))

include kept executed in
theorem Upheld.answered : net.can o r := Net.exec_can kept.sturdy.decodes executed

include kept present executed in
/-- Facts stay true. -/
theorem Upheld.facts {f : Fact} (holds : f.Holds net c) : f.Holds net (stepped net c i s task o (next r)) := by
  have advance := Net.exec_advance executed
  cases f with
  | banned x => exact advance.banned holds
  | reached x =>
    rcases holds with done | ⟨t, member, walks, marking⟩
    · exact Or.inl (advance.processed done)
    · rcases Crew.kept present member with rfl | still
      · rcases marking r (kept.answered executed) with rfl | later
        · obtain ⟨_, rfl⟩ := Prod.mk.inj (Option.some.inj executed)
          exact Or.inl (Finset.mem_insert_self _ _)
        · exact Or.inr ⟨_, Crew.moved_mem present, walks, later⟩
      · exact Or.inr ⟨t, still, walks, marking⟩

include present executed in
/-- So is what the step has found out. -/
theorem learnt_holds {f : Fact} {facts : List Fact} (member : f ∈ learnt facts o r) :
    f ∈ facts ∨ f.Holds net (stepped net c i s task o (next r)) := by
  cases o with
  | isProcessed x =>
    obtain ⟨rfl, rfl⟩ := Prod.mk.inj (Option.some.inj executed)
    cases found : decide (x ∈ c.state.processed) with
    | false =>
      rw [found] at member
      exact Or.inl member
    | true =>
      rw [found] at member
      rcases List.mem_cons.mp member with rfl | old
      · exact Or.inr (Or.inl (of_decide_eq_true found))
      · exact Or.inl old
  | isBanned x =>
    obtain ⟨rfl, rfl⟩ := Prod.mk.inj (Option.some.inj executed)
    cases found : decide (x ∈ c.state.banned) with
    | false =>
      rw [found] at member
      exact Or.inl member
    | true =>
      rw [found] at member
      rcases List.mem_cons.mp member with rfl | old
      · exact Or.inr (show x ∈ c.state.banned from of_decide_eq_true found)
      · exact Or.inl old
  | go started =>
    cases started with
    | job session root rootPrio node =>
      rcases List.mem_cons.mp member with rfl | old
      · refine Or.inr (Or.inr ⟨_, Crew.new_mem (List.mem_singleton.mpr rfl), rfl, ?_⟩)
        exact job_marking session root rootPrio node
      · exact Or.inl old
    | _ => exact Or.inl member
  | _ => exact Or.inl member

include present executed in
/-- A thread settles a block: it is processed, banned or given to a job, or the store is dirty. -/
theorem settles_tracked {l : Cid} (settled : settles l o r) (kind : ∀ c, o ≠ .recordFailure c) :
    net.Tracked (stepped net c i s task o (next r)).threads s l := by
  cases o with
  | isProcessed x =>
    obtain ⟨rfl, rfl⟩ := Prod.mk.inj (Option.some.inj executed)
    obtain ⟨rfl, found⟩ := settled
    exact Or.inl (of_decide_eq_true found)
  | isBanned x =>
    obtain ⟨rfl, rfl⟩ := Prod.mk.inj (Option.some.inj executed)
    obtain ⟨rfl, found⟩ := settled
    exact Or.inr (Or.inl (of_decide_eq_true found))
  | markProcessed x =>
    obtain ⟨_, rfl⟩ := Prod.mk.inj (Option.some.inj executed)
    obtain rfl : x = l := settled
    exact Or.inl (Finset.mem_insert_self _ _)
  | markDirty =>
    obtain ⟨_, rfl⟩ := Prod.mk.inj (Option.some.inj executed)
    exact Or.inr (Or.inr (Or.inl rfl))
  | go started =>
    cases started with
    | job session root rootPrio node =>
      obtain rfl : node = l := settled
      refine Or.inr (Or.inr (Or.inr ⟨_, Crew.new_mem (List.mem_singleton.mpr rfl), rfl, Or.inl ?_⟩))
      exact (job_marking session root rootPrio node).fetching
    | _ => exact settled.elim
  | recordFailure x => exact absurd rfl (kind x)
  | _ => exact settled.elim

include kept present executed in
/-- A link stays tracked when the thread at it moves on, unless the step is of a special kind. -/
theorem Upheld.tracked_plain {l : Cid} (tracked : net.Tracked c.threads c.state l) (clean : o ≠ .markClean)
    (visit : o ≠ .visit l)
    (failure : o = .recordFailure l → net.Tracked (stepped net c i s task o (next r)).threads s l) :
    net.Tracked (stepped net c i s task o (next r)).threads s l := by
  have advance := Net.exec_advance executed
  have settled : settles l o r → net.Tracked (stepped net c i s task o (next r)).threads s l := by
    intro here
    by_cases kind : ∃ x, o = .recordFailure x
    · obtain ⟨x, rfl⟩ := kind
      obtain rfl : x = l := here
      exact failure rfl
    · exact settles_tracked present executed here (fun x same => kind ⟨x, same⟩)
  have free : l ∈ s.queuedChildren → l ∈ c.state.queuedChildren := fun member =>
    (advance.queued l member).resolve_right visit
  rcases tracked with done | ban | dirty | ⟨t, member, walks, working⟩
  · exact Or.inl (advance.processed done)
  · exact Or.inr (Or.inl (advance.banned ban))
  · exact Or.inr (Or.inr (Or.inl (advance.dirty clean dirty)))
  rcases Crew.kept present member with rfl | still
  · rcases working with fetching | ⟨unreserved, coming⟩
    · rcases fetching r (kept.answered executed) with here | later
      · exact settled here
      · exact Or.inr (Or.inr (Or.inr ⟨_, Crew.moved_mem present, walks, Or.inl later⟩))
    · rcases coming r (kept.answered executed) with here | later
      · cases o with
        | visit x => exact absurd (congrArg DagOp.visit here.1) visit
        | _ => exact settled here
      · exact Or.inr (Or.inr (Or.inr ⟨_, Crew.moved_mem present, walks,
          Or.inr ⟨fun member => unreserved (free member), later⟩⟩))
  · refine Or.inr (Or.inr (Or.inr ⟨t, still, walks, working.imp_right ?_⟩))
    exact fun ⟨unreserved, coming⟩ => ⟨fun member => unreserved (free member), coming⟩

end Step

section Special

variable {net : Net} {c : Crew} {i : ℕ} {choice : Choice} {task : Task} {s : Replica} {l : Cid} (kept : Upheld net c)

include kept in
/-- The pass that clears the dirty bit has reached every block it queued. -/
theorem Upheld.tracked_clean {next : Unit → DagM Unit} (present : c.threads[i]? = some ⟨task, .op .markClean next⟩)
    (meets : KeepsTrack net c i task .markClean ()) (linked : ∃ p ∈ c.state.processed, l ∈ net.links p) :
    net.Tracked (stepped net c i { c.state with dirty := false } task .markClean (next ())).threads
      { c.state with dirty := false } l := by
  obtain ⟨p, processed, link⟩ := linked
  obtain ⟨facts, holds, learns⟩ := kept.learns _ (List.mem_of_getElem? present)
  obtain ⟨⟨queued, rfl, swept⟩, _⟩ := learns () trivial
  have reached : ∀ q ∈ queued, .reached q ∈ facts ∧ ∀ l ∈ net.links q, .banned l ∈ facts ∨ l ∈ queued := by
    intro q member
    rcases swept q member with ⟨_, none⟩ | known
    · cases none
    · exact known
  have standing : ∀ t ∈ c.threads, t.task.walks = true →
      t ∈ (stepped net c i { c.state with dirty := false } (.sweep [] queued) .markClean (next ())).threads := by
    intro t member walks
    rcases Crew.kept present member with rfl | still
    · cases walks
    · exact still
  rcases meets p processed l link with walked | done | ban | dirty | ⟨t, member, walks, working⟩
  · rcases (reached p walked).2 l link with ban | inside
    · exact Or.inr (Or.inl (holds _ ban))
    · rcases holds _ (reached l inside).1 with done | ⟨t, member, walks, marking⟩
      · exact Or.inl done
      · exact Or.inr (Or.inr (Or.inr ⟨t, standing t member walks, walks, Or.inl marking.fetching⟩))
  · exact Or.inl done
  · exact Or.inr (Or.inl ban)
  · cases dirty
  · exact Or.inr (Or.inr (Or.inr ⟨t, standing t member walks, walks, working⟩))

include kept in
/-- A link that is visited is reserved, by a job that takes care of it or as the condition says. -/
theorem Upheld.tracked_visit {r : Bool} {next : Bool → DagM Unit} (present : c.threads[i]? = some ⟨task, .op (.visit l) next⟩)
    (executed : net.exec i choice (.visit l) c.state = some (r, s)) (meets : KeepsTrack net c i task (.visit l) r)
    (tracked : net.Tracked c.threads c.state l) :
    net.Tracked (stepped net c i s task (.visit l) (next r)).threads s l := by
  obtain ⟨node, _, tidy⟩ := kept.tidy _ (List.mem_of_getElem? present)
  obtain ⟨⟨walks, _, fetching⟩, _⟩ := tidy r trivial
  obtain ⟨answer, rfl⟩ := Prod.mk.inj (Option.some.inj executed)
  by_cases reserved : l ∈ c.state.queuedChildren
  · -- Somebody else has it: only a thread that takes care of it can have kept track.
    have refused : r = false := answer.symm.trans (decide_eq_false (fun free => free reserved))
    rcases tracked with done | ban | dirty | ⟨t, member, walking, working⟩
    · exact Or.inl done
    · exact Or.inr (Or.inl ban)
    · exact Or.inr (Or.inr (Or.inl dirty))
    · have caring : net.Fetching l t.prog := working.resolve_right (fun coming => coming.1 reserved)
      rcases Crew.kept present member with rfl | still
      · rcases caring r trivial with no | later
        · exact no.elim
        · exact Or.inr (Or.inr (Or.inr ⟨_, Crew.moved_mem present, walking, Or.inl later⟩))
      · exact Or.inr (Or.inr (Or.inr ⟨t, still, walking, Or.inl caring⟩))
  · have granted : r = true := answer.symm.trans (decide_eq_true reserved)
    cases local_ : task.writes with
    | false => exact Or.inr (Or.inr (Or.inr ⟨_, Crew.moved_mem present, walks, Or.inl (fetching local_ granted)⟩))
    | true =>
      exact (meets local_ granted).mono (fun t member => Crew.other_mem member) subset_rfl subset_rfl
        (fun dirty => dirty) (fun member => member)

/-- A head that is given up is banned, or tracked by somebody else. -/
theorem tracked_failure {r : Bool} {next : Bool → DagM Unit}
    (executed : net.exec i choice (.recordFailure l) c.state = some (r, s))
    (meets : KeepsTrack net c i task (.recordFailure l) r) (linked : ∃ p ∈ c.state.processed, l ∈ net.links p) :
    net.Tracked (stepped net c i s task (.recordFailure l) (next r)).threads s l := by
  have alike := Net.exec_alike executed trivial
  rcases meets linked with banned | tracked
  · refine Or.inr (Or.inl ?_)
    simp only [Net.exec] at executed
    split at executed
    · obtain ⟨no, _⟩ := Prod.mk.inj (Option.some.inj executed)
      rw [banned] at no
      cases no
    · split at executed
      · obtain ⟨no, _⟩ := Prod.mk.inj (Option.some.inj executed)
        rw [banned] at no
        cases no
      · obtain ⟨_, rfl⟩ := Prod.mk.inj (Option.some.inj executed)
        exact Finset.mem_insert_self _ _
  · exact tracked.mono (fun t member => Crew.other_mem member) (by rw [alike.processed]) alike.banned
      (fun dirty => by rw [alike.dirty]; exact dirty) (fun member => alike.queuedChildren ▸ member)

end Special

end OpenTela
