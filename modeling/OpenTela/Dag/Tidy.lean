import OpenTela.Dag.Fetching

namespace OpenTela

open Prog

/-- Tasks that take blocks through `processNode`, or are about to have it done. -/
def Task.walks : Task → Bool
  | .head _ | .job _ _ _ _ | .put _ _ | .delete _ => true
  | _ => false

/-- The tasks of callers. -/
def Task.writes : Task → Bool
  | .put _ _ | .delete _ => true
  | _ => false

/-- The node a thread has marked. -/
def marked : Option Cid → (o : DagOp) → o.Res → Option Cid
  | _, .markProcessed node, _ => some node
  | node, _, _ => node

/-- A thread marks one node at most, then comes to each of its links; it reserves nothing
but links of that node, and jobs take care of what they have reserved. -/
def Net.tidy (net : Net) (task : Task) : Option Cid → (o : DagOp) → o.Res → DagM Unit → Prop
  | node, .visit l, r, rest => task.walks = true ∧ (∃ p, node = some p ∧ l ∈ net.links p) ∧
      (task.writes = false → r = true → net.Fetching l rest)
  | node, .markProcessed p, _, rest => node = none ∧ task.walks = true ∧
      ∀ l ∈ net.links p, net.Coming l task.writes rest
  | _, _, _, _ => True

abbrev Net.Tidy (net : Net) (task : Task) (node : Option Cid) (p : DagM Unit) : Prop :=
  Always net.can marked (net.tidy task) (fun _ _ => True) node p

/-- Operations that neither mark nor reserve a block. -/
def DagOp.Unmarking : DagOp → Prop
  | .visit _ | .markProcessed _ => False
  | _ => True

theorem DagOp.Unmarking.harmless {net : Net} {task : Task} {node : Option Cid} {o : DagOp} (unmarking : o.Unmarking)
    (r : o.Res) (rest : DagM Unit) : marked node o r = node ∧ net.tidy task node o r rest := by
  cases o with
  | visit | markProcessed => exact unmarking.elim
  | _ => exact ⟨rfl, trivial⟩

theorem unmarking_of_plain (o : DagOp) (isPlain : o.Plain) : o.Unmarking := by
  cases o with
  | visit | markProcessed => exact isPlain.elim
  | _ => trivial

theorem Obeys.tidy {net : Net} {task : Task} {p : DagM Unit} (obeys : Obeys net.can DagOp.Unmarking (fun _ => True) p)
    (node : Option Cid) : net.Tidy task node p := by
  induction p with
  | ret a => trivial
  | fail e => trivial
  | op o next ih =>
    intro r possible
    obtain ⟨unmarking, rest⟩ := obeys r possible
    obtain ⟨same, tidy⟩ := unmarking.harmless r (next r)
    refine ⟨tidy, ?_⟩
    rw [same]
    exact ih r rest

section Node

variable {net : Net} {task : Task} {root node : Cid} {rootPrio : ℕ} {K : DagM (List Cid) → DagM Unit} (context : Context K)

include context in
theorem loop_tidy (sends : task.writes = false → net.Sends K) (walks : task.walks = true) {links : List Cid} (within : links ⊆ net.links node)
    (addedAsHead : Bool) {children : List Cid} (known : children ⊆ net.links node) :
    Always net.can marked (fun k o r rest => net.tidy task k o r (K rest))
      (fun k out => k = some node ∧ ∃ children, out = .ok children) (some node)
      (processNode.loop root rootPrio links addedAsHead children) := by
  induction links generalizing addedAsHead children with
  | nil => exact ⟨rfl, children, rfl⟩
  | cons child rest ih =>
    have here : child ∈ net.links node := within (List.mem_cons_self ..)
    have below : rest ⊆ net.links node := fun x member => within (List.mem_cons_of_mem _ member)
    have more : children ++ [child] ⊆ net.links node := by
      intro x member
      rcases List.mem_append.mp member with old | new
      · exact known old
      · exact List.mem_singleton.mp new ▸ here
    have crowned : ∀ added, Obeys net.can DagOp.Unmarking (Returns (fun _ => True))
        (processNode.addOnce root rootPrio added) := fun added => addOnce_obeys trivial added
    have replaced : ∀ existing, Obeys net.can DagOp.Unmarking (Returns (fun _ => True))
        (processNode.replaceChild root rootPrio child existing addedAsHead) :=
      fun existing => replaceChild_obeys trivial trivial existing addedAsHead
    refine Always.step (fun existing _ => ⟨trivial, Always.step (fun processed _ => ⟨trivial, ?_⟩)⟩)
    refine (replaced existing).always (fun o r rest fine => fine.harmless r (K rest)) ?_ ?_
    · intro added _
      split
      · exact ih below added known
      · unfold processNode.taken
        cases processed with
        | true =>
          rw [if_pos rfl]
          exact (crowned added).always (fun o r rest fine => fine.harmless r (K rest)) (fun _ _ => ih below _ known)
            (by rintro e ⟨_, no, _⟩; cases no)
        | false =>
          rw [if_neg (by decide)]
          refine Always.step (fun reserved _ => ⟨⟨walks, ⟨node, rfl, here⟩, fun job fresh => ?_⟩, ?_⟩)
          · subst fresh
            exact loop_fetching context (sends job) below added more (List.mem_append_right _ (List.mem_singleton.mpr rfl))
          · cases reserved with
            | true => exact ih below added more
            | false =>
              exact (crowned added).always (fun o r rest fine => fine.harmless r (K rest)) (fun _ _ => ih below _ known)
                (by rintro e ⟨_, no, _⟩; cases no)
    · rintro e ⟨_, no, _⟩
      cases no

include context in
theorem processNode_tidy (sends : task.writes = false → net.Sends K) (walks : task.walks = true)
    (finish : ∀ children, net.Tidy task (some node) (K (.ret children))) :
    net.Tidy task none (K (processNode net root rootPrio node)) := by
  have loop : Always net.can marked (fun k o r rest => net.tidy task k o r (K rest))
      (fun k out => net.Tidy task k (K (rethrow out))) (some node)
      (processNode.loop root rootPrio (net.links node) false []) := by
    refine (loop_tidy context sends walks (fun _ member => member) false (List.nil_subset _)).mono
      (fun _ _ _ _ _ fine => fine) ?_
    rintro _ _ ⟨rfl, children, rfl⟩
    exact finish children
  rw [processNode_eq]
  refine Always.context context (Always.step (fun _ _ => ⟨trivial, ?_⟩))
  have merged : Obeys net.can DagOp.Unmarking (Returns (fun _ => True)) (DagM.set (merge (net.block node).delta node)) :=
    set_obeys (fun _ _ answered => answered) (fun _ _ => trivial) (merge_sound _ node)
  refine merged.always (fun o r rest fine => fine.harmless r (K rest)) (fun _ _ => ?_) (by rintro e ⟨_, no, _⟩; cases no)
  refine Always.step (fun _ _ => ⟨⟨rfl, walks, fun l member => links_coming context sends member⟩, ?_⟩)
  refine Always.step (fun _ _ => ⟨trivial, ?_⟩)
  split
  · exact Always.step (fun _ _ => ⟨trivial, loop⟩)
  · exact loop

end Node

section Tasks

variable (net : Net)

/-- What a job does once its node is processed. -/
theorem Context.job (session : ℕ) (root : Cid) (rootPrio : ℕ) :
    Context (fun p : DagM (List Cid) => p.attempt >>= dagWorker.finish net session root rootPrio) :=
  Context.comp (Context.bind _) Context.attempt

/-- What a local write does once its node is processed. -/
theorem Context.publish (c : Cid) :
    Context (fun p : DagM (List Cid) => (p.attempt >>= addDAGNode.finish c) >>= publish.send) :=
  Context.comp (Context.bind publish.send) (Context.comp (Context.bind (addDAGNode.finish c)) Context.attempt)

variable {net}

theorem start_fetching {session : ℕ} {root : Cid} {rootPrio : ℕ} {nodes : List Cid} {l : Cid} (member : l ∈ nodes)
    {post : Except String Unit → Prop} :
    Surely net.can (fun o r _ => settles l o r) post (sendNewJobs.start session root rootPrio nodes) := by
  induction nodes with
  | nil => cases member
  | cons node rest ih =>
    refine Surely.step (fun _ _ => Or.inr (Surely.step (fun _ _ => ?_)))
    rcases List.mem_cons.mp member with rfl | later
    · exact Or.inl rfl
    · exact Or.inr (ih later)

/-- The children of a node are handed to jobs, or the store is marked dirty. -/
theorem job_sends (session : ℕ) (root : Cid) (rootPrio : ℕ) :
    net.Sends (fun p => p.attempt >>= dagWorker.finish net session root rootPrio) := by
  intro children l member
  have plain : ∀ o : DagOp, o.Plain → (fun _ : DagOp => True) o := fun _ _ => trivial
  -- Jobs for all children, or an error, which marks the store dirty.
  have sent : Surely net.can (fun o r _ => settles l o r) (fun out => ∃ e, out = .error e)
      (sendNewJobs net session root rootPrio children) := by
    unfold sendNewJobs
    split
    · cases member
    · rename_i first rest
      have priority : Obeys net.can (fun _ => True) _ (sendNewJobs.rootPriority net rootPrio first) :=
        sendNewJobs_rootPriority_obeys plain rootPrio first
      refine priority.orSurely (fun prio _ => Surely.step (fun goodDeltas _ => Or.inr ?_)) (fun e _ => ⟨e, rfl⟩)
      by_cases arrived : l ∈ (show List Cid from goodDeltas)
      · exact Surely.bind (start_fetching arrived)
      · have start : Obeys net.can (fun _ => True) (Returns (fun _ => True))
            (sendNewJobs.start session root prio goodDeltas) := sendNewJobs_start_obeys plain _ (fun _ _ => trivial)
        have clear : Obeys net.can (fun _ => True) (Returns (fun _ => True))
            (sendNewJobs.clearUp goodDeltas (first :: rest)) := sendNewJobs_clearUp_obeys plain _ _
        refine start.surely (fun _ _ => clear.surely (fun _ _ => ?_))
        rw [if_neg (fun all => arrived (all member))]
        exact ⟨_, rfl⟩
  show net.Fetching l (dagWorker.send net session root rootPrio children)
  refine Surely.bind (Surely.attempt (sent.mono (fun _ _ _ here => here) ?_))
  rintro _ ⟨e, rfl⟩
  exact fun _ _ => Or.inl trivial

theorem job_marking (session : ℕ) (root : Cid) (rootPrio : ℕ) (node : Cid) :
    net.Marking node (net.body (.job session root rootPrio node)) :=
  processNode_surely (Context.job net session root rootPrio) (fun _ => rfl)

theorem publish_tidy {task : Task} (writes : task.writes = true) (walks : task.walks = true)
    (elements tombstones : List Element) : net.Tidy task none (publish net elements tombstones) := by
  refine Always.step (fun listed _ => ⟨trivial, ?_⟩)
  obtain ⟨heads, height⟩ := listed
  refine Always.step (fun made _ => ⟨trivial, ?_⟩)
  cases made with
  | none => trivial
  | some c =>
    refine processNode_tidy (Context.publish c) (fun job => ?_) walks (fun children => ?_)
    · rw [writes] at job
      cases job
    · exact (publish_send_obeys unmarking_of_plain c : Obeys net.can _ _ _).tidy (some c)

theorem Net.body_tidy (task : Task) : net.Tidy task none (net.body task) := by
  have possible : ∀ (o : DagOp) (r : o.Res), net.can o r → net.can o r := fun _ _ answered => answered
  cases task with
  | receive heads => exact (handleNext_obeys unmarking_of_plain heads (fun _ => trivial) (fun _ => trivial)).tidy none
  | head c => exact (processHead_obeys possible unmarking_of_plain trivial (fun _ => trivial)).tidy none
  | job session root rootPrio node =>
    refine processNode_tidy (Context.job net session root rootPrio) (fun _ => job_sends session root rootPrio) rfl
      (fun children => ?_)
    exact (dagWorker_send_obeys possible unmarking_of_plain children trivial (fun _ _ _ _ _ => trivial)).tidy (some node)
  | repairTimer => exact (repair_obeys unmarking_of_plain (fun _ _ => trivial)).tidy none
  | repairCall => exact (repairDAG_obeys unmarking_of_plain (fun _ _ => trivial)).tidy none
  | sweep nodes queued =>
    exact (repairDAG_loop_obeys possible unmarking_of_plain nodes queued trivial (fun _ _ => trivial)
      (fun _ _ _ _ => trivial) (fun _ _ => trivial)).tidy none
  | put key value => exact publish_tidy rfl rfl _ _
  | delete key =>
    have removed : Obeys net.can DagOp.Unmarking (Returns (fun _ => True)) (DagM.set (rmv key)) :=
      set_obeys possible (fun _ _ => trivial) (rmv_sound key)
    refine removed.always (fun o r rest fine => fine.harmless r rest) (fun tombstones _ => ?_) (fun _ _ => trivial)
    split
    · trivial
    · exact publish_tidy rfl rfl _ _

end Tasks

end OpenTela
