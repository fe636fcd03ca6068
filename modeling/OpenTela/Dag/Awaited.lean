import OpenTela.Dag.Repair

namespace OpenTela

open Prog

section Definitions

variable (net : Net)

/-- The thread handles a broadcast, and is yet to set about head `h`. -/
def Net.Heading (h : Cid) (t : DagThread) : Prop :=
  (∃ heads, t.task = .receive heads) ∧ Surely net.can (fun o _ _ => o = .go (.head h)) (fun _ => False) t.prog

/-- A head that has been received and not lost sight of. -/
def Net.Awaited (threads : List DagThread) (w : Replica) (h : Cid) : Prop :=
  net.Tracked threads w h ∨ ∃ t ∈ threads, net.Heading h t

/-- A step that loses sight of no received head. The same three kinds can: clearing the dirty bit,
giving a head up, and a local write that reserves one. -/
def Heeds (received : Finset Cid) (c : Crew) (i : ℕ) (task : Task) : (o : DagOp) → o.Res → Prop
  | .markClean, _ => ∀ h ∈ received, net.Awaited c.threads { c.state with dirty := false } h
  | .recordFailure h, banned => h ∈ received → banned = true ∨ net.Awaited (c.threads.eraseIdx i) c.state h
  | .visit h, reserved => h ∈ received → task.writes = true → reserved = true →
      net.Awaited (c.threads.eraseIdx i) { c.state with queuedChildren := insert h c.state.queuedChildren } h
  | _, _ => True

end Definitions

section Bodies

variable {net : Net}

/-- A head is found processed or banned, handed to a job, or given up. -/
theorem processHead_fetching (c : Cid) : net.Fetching c (net.body (.head c)) := by
  have plain : ∀ o : DagOp, o.Plain → (fun _ : DagOp => True) o := fun _ _ => trivial
  -- The walk starts a job for the head, or fails.
  have walks : Surely net.can (fun o r _ => settles c o r) (fun out => ∃ e, out = .error e) (handleBranch net c c) := by
    refine Surely.step (fun session _ => Or.inr ?_)
    have sends : Surely net.can (fun o r _ => settles c o r) (fun out => ∃ e, out = .error e) (sendNewJobs net session c 0 [c]) := by
      unfold sendNewJobs
      have priority : Obeys net.can (fun _ => True) _ (sendNewJobs.rootPriority net 0 c) :=
        sendNewJobs_rootPriority_obeys plain 0 c
      refine priority.orSurely (fun prio _ => Surely.step (fun goodDeltas _ => Or.inr ?_)) (fun e _ => ⟨e, rfl⟩)
      by_cases arrived : c ∈ (show List Cid from goodDeltas)
      · exact Surely.bind (start_fetching arrived)
      · have start : Obeys net.can (fun _ => True) (Returns (fun _ => True))
            (sendNewJobs.start session c prio goodDeltas) := sendNewJobs_start_obeys plain _ (fun _ _ => trivial)
        have clear : Obeys net.can (fun _ => True) (Returns (fun _ => True))
            (sendNewJobs.clearUp goodDeltas [c]) := sendNewJobs_clearUp_obeys plain _ _
        refine start.surely (fun _ _ => clear.surely (fun _ _ => ?_))
        rw [if_neg (fun all => arrived (all (List.mem_singleton.mpr rfl)))]
        exact ⟨_, rfl⟩
    refine Surely.bind (Surely.attempt (sends.mono (fun _ _ _ here => here) ?_))
    rintro _ ⟨e, rfl⟩
    exact fun _ _ => Or.inr ⟨e, rfl⟩
  have handles : Surely net.can (fun o r _ => settles c o r) (fun out => ∃ e, out = .error e) (handleBlock net c) := by
    refine Surely.step (fun banned _ => ?_)
    cases banned with
    | true => exact Or.inl ⟨rfl, rfl⟩
    | false =>
      refine Or.inr (Surely.step (fun processed _ => ?_))
      cases processed with
      | true => exact Or.inl ⟨rfl, rfl⟩
      | false => exact Or.inr walks
  refine Surely.bind (Surely.attempt (handles.mono (fun _ _ _ here => here) ?_))
  rintro _ ⟨e, rfl⟩
  exact fun _ _ => Or.inl rfl

theorem process_heading {h : Cid} {heads : List Cid} (member : h ∈ heads) :
    Surely net.can (fun o _ _ => o = .go (.head h)) (fun _ => False) (handleNext.process heads) := by
  induction heads with
  | nil => cases member
  | cons head rest ih =>
    refine Surely.step (fun _ _ => ?_)
    rcases List.mem_cons.mp member with rfl | later
    · exact Or.inl rfl
    · exact Or.inr (ih later)

/-- Each head of a broadcast is set about in its turn. -/
theorem handleNext_heading {h : Cid} {heads : List Cid} (member : h ∈ heads) :
    net.Heading h (net.system.start (.receive heads)) := by
  refine ⟨⟨heads, rfl⟩, Surely.step (fun count _ => Or.inr ?_)⟩
  have adopt : Obeys net.can (fun _ => True) (Returns (fun _ => True)) (handleNext.adopt net heads) := by
    clear member
    induction heads with
    | nil => exact Obeys.ret ⟨(), rfl, trivial⟩
    | cons c rest ih =>
      refine (Obeys.perform (o := .isBanned c) trivial).next (fun banned _ => ?_)
      cases banned with
      | true => exact ih
      | false =>
        refine (Obeys.perform (o := .fetch c) trivial).next (fun fetched _ => ?_)
        cases fetched with
        | true => exact (Obeys.perform (o := .addHead c (net.priority c)) trivial).next (fun _ _ => ih)
        | false => exact (Obeys.perform (o := .recordFailure c) trivial).next (fun _ _ => ih)
  dsimp only
  split
  · exact adopt.surely (fun _ _ => process_heading member)
  · exact process_heading member

end Bodies

section Step

variable {net : Net} {c : Crew} {i : ℕ} {choice : Choice} {task : Task} {o : DagOp} {next : o.Res → DagM Unit} {r : o.Res}
  {s : Replica} {h : Cid}

theorem Net.Awaited.mono {w w' : Replica} {threads threads' : List DagThread} (awaited : net.Awaited threads w h)
    (more : ∀ t ∈ threads, t ∈ threads') (processed : w.processed ⊆ w'.processed) (banned : w.banned ⊆ w'.banned)
    (dirty : w.dirty = true → w'.dirty = true) (queued : h ∈ w'.queuedChildren → h ∈ w.queuedChildren) :
    net.Awaited threads' w' h := by
  rcases awaited with tracked | ⟨t, member, heading⟩
  · exact Or.inl (tracked.mono more processed banned dirty queued)
  · exact Or.inr ⟨t, more t member, heading⟩

/-- A broadcast goes on to its next head, or hands this one over. -/
theorem heading_step (kept : Upheld net c) (present : c.threads[i]? = some ⟨task, .op o next⟩)
    (executed : net.exec i choice o c.state = some (r, s)) {t : DagThread} (member : t ∈ c.threads) (heading : net.Heading h t) :
    net.Awaited (stepped net c i s task o (next r)).threads s h := by
  rcases Crew.kept present member with rfl | still
  · obtain ⟨receives, surely⟩ := heading
    rcases surely r (kept.answered executed) with rfl | later
    · have started : net.system.start (.head h) ∈
          (stepped net c i s task (.go (.head h)) (next r)).threads := Crew.new_mem (List.mem_singleton.mpr rfl)
      exact Or.inl (Or.inr (Or.inr (Or.inr ⟨_, started, rfl, Or.inl (processHead_fetching h)⟩)))
    · exact Or.inr ⟨_, Crew.moved_mem present, receives, later⟩
  · exact Or.inr ⟨t, still, heading⟩

/-- Clearing the dirty bit is the last step of a pass, which itself has no head in its care. -/
theorem awaited_clean (kept : Upheld net c) {next : Unit → DagM Unit} (present : c.threads[i]? = some ⟨task, .op .markClean next⟩)
    (awaited : net.Awaited c.threads { c.state with dirty := false } h) :
    net.Awaited (stepped net c i { c.state with dirty := false } task .markClean (next ())).threads
      { c.state with dirty := false } h := by
  obtain ⟨facts, _, learns⟩ := kept.learns _ (List.mem_of_getElem? present)
  obtain ⟨⟨queued, rfl, _⟩, _⟩ := learns () trivial
  have standing : ∀ t ∈ c.threads, t.task ≠ .sweep [] queued →
      t ∈ (stepped net c i { c.state with dirty := false } (.sweep [] queued) .markClean (next ())).threads := by
    intro t member other
    rcases Crew.kept present member with rfl | still
    · exact absurd rfl other
    · exact still
  rcases awaited with (done | ban | dirty | ⟨t, member, walks, working⟩) | ⟨t, member, ⟨heads, receives⟩, surely⟩
  · exact Or.inl (Or.inl done)
  · exact Or.inl (Or.inr (Or.inl ban))
  · cases dirty
  · refine Or.inl (Or.inr (Or.inr (Or.inr ⟨t, standing t member (fun same => ?_), walks, working⟩)))
    rw [same] at walks
    cases walks
  · refine Or.inr ⟨t, standing t member (fun same => ?_), ⟨heads, receives⟩, surely⟩
    rw [same] at receives
    cases receives

theorem banned_of_failure {l : Cid} (executed : net.exec i choice (.recordFailure l) c.state = some (true, s)) : l ∈ s.banned := by
  simp only [Net.exec] at executed
  split at executed
  · cases (Prod.mk.inj (Option.some.inj executed)).1
  · split at executed
    · cases (Prod.mk.inj (Option.some.inj executed)).1
    · obtain ⟨_, rfl⟩ := Prod.mk.inj (Option.some.inj executed)
      exact Finset.mem_insert_self _ _

/-- A received head stays awaited. -/
theorem Net.Awaited.step {received : Finset Cid} (kept : Upheld net c) (present : c.threads[i]? = some ⟨task, .op o next⟩)
    (executed : net.exec i choice o c.state = some (r, s)) (heeds : Heeds net received c i task o r) (member : h ∈ received)
    (awaited : net.Awaited c.threads c.state h) : net.Awaited (stepped net c i s task o (next r)).threads s h := by
  rcases awaited with tracked | ⟨t, there, heading⟩
  · cases o with
    | markClean =>
      obtain ⟨_, rfl⟩ := Prod.mk.inj (Option.some.inj executed)
      exact awaited_clean kept present (heeds h member)
    | visit x =>
      by_cases same : x = h
      · subst same
        by_cases local_ : task.writes = true ∧ r = true
        · obtain ⟨_, rfl⟩ := Prod.mk.inj (Option.some.inj executed)
          exact (heeds member local_.1 local_.2).mono (fun t member => Crew.other_mem member) subset_rfl subset_rfl
            (fun dirty => dirty) (fun member => member)
        · exact Or.inl (kept.tracked_visit present executed (fun writes reserved => absurd ⟨writes, reserved⟩ local_) tracked)
      · exact Or.inl (kept.tracked_plain present executed tracked (by simp) (by simpa using same) (fun no => by cases no))
    | recordFailure x =>
      by_cases same : x = h
      · subst same
        have alike := Net.exec_alike executed trivial
        rcases heeds member with banned | others
        · subst banned
          exact Or.inl (Or.inr (Or.inl (banned_of_failure executed)))
        · exact others.mono (fun t member => Crew.other_mem member) (by rw [alike.processed]) alike.banned
            (fun dirty => by rw [alike.dirty]; exact dirty) (fun member => alike.queuedChildren ▸ member)
      · refine Or.inl (kept.tracked_plain present executed tracked (by simp) (by simp) (fun no => ?_))
        cases no
        exact absurd rfl same
    | _ => exact Or.inl (kept.tracked_plain present executed tracked (by simp) (by simp) (fun no => by cases no))
  · exact heading_step kept present executed there heading

/-- Once everything has come to an end and the store is clean, a head that was awaited is processed or banned. -/
theorem Net.Awaited.settled (awaited : net.Awaited c.threads c.state h) (ended : ∀ t ∈ c.threads, t.prog.Ended)
    (clean : c.state.dirty = false) : h ∈ c.state.processed ∨ h ∈ c.state.banned := by
  rcases awaited with (done | ban | dirty | ⟨t, member, _, fetching | ⟨_, coming⟩⟩) | ⟨t, member, _, surely⟩
  · exact Or.inl done
  · exact Or.inr ban
  · rw [clean] at dirty
    cases dirty
  · exact absurd (ended t member) fetching.not_ended
  · exact absurd (ended t member) coming.not_ended
  · exact absurd (ended t member) surely.not_ended

end Step

/-- No link is lost sight of in a run that keeps track. -/
theorem upheld_of_reach {net : Net} {c : Crew} (reach : Crew.Reach net.system (KeepsTrack net) Crew.fresh c) : Upheld net c := by
  induction reach with
  | start => exact .fresh
  | next _ step ih => exact ih.step step

end OpenTela
