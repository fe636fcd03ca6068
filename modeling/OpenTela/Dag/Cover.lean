import OpenTela.Dag.Heights
import OpenTela.Dag.Tidy

namespace OpenTela

open Prog

/-- Operations that make the root of a walk a head, or hand the walk on to another job. -/
def crowns (root : Cid) : DagOp → Prop
  | .addHead c _ => c = root
  | .replaceHead _ c _ => c = root
  | .go (.job _ c _ _) => c = root
  | _ => False

/-- Operations with which a thread gives up its root: a job marks the store dirty, a write goes
on to broadcast its block. -/
def Task.quits (root : Cid) : Task → DagOp → Prop
  | .job _ c _ _, .markDirty => c = root
  | .put _ _, .broadcast c => c = root
  | .delete _, .broadcast c => c = root
  | _, _ => False

section Modes

variable (net : Net)

/-- The thread will make `root` a head, hand the walk on or give it up. -/
def Net.Crowns (task : Task) (root : Cid) (p : DagM Unit) : Prop :=
  Surely net.can (fun o _ _ => crowns root o ∨ task.quits root o) (fun _ => False) p

/-- The thread walks for a block at or above `b`. -/
def Net.Covers (b : Cid) (t : DagThread) : Prop :=
  t.task.walks = true ∧ ∃ root, net.Below b root ∧ net.Crowns t.task root t.prog

/-- `b` is at or below a head, or below what a running thread will yet make one. -/
def Net.Covered (threads : List DagThread) (w : Replica) (b : Cid) : Prop :=
  (∃ h height, w.heads.lookup h = some height ∧ net.Below b h) ∨ ∃ t ∈ threads, net.Covers b t

end Modes

section Node

variable {net : Net} {task : Task} {root : Cid} {rootPrio : ℕ}

/-- The loop makes the root a head, unless every link is left to be fetched. -/
theorem loop_crowns (links : List Cid) {children : List Cid} (some : links ≠ [] ∨ children ≠ []) :
    Surely net.can (fun o _ _ => crowns root o ∨ task.quits root o) (Returns (fun out => out ≠ []))
      (processNode.loop root rootPrio links false children) := by
  induction links generalizing children with
  | nil => exact ⟨children, rfl, some.resolve_left (fun no => no rfl)⟩
  | cons child rest ih =>
    refine Surely.step (fun existing _ => Or.inr (Surely.step (fun processed _ => Or.inr ?_)))
    cases existing with
    | none =>
      cases processed with
      | true => exact Surely.step (fun _ _ => Or.inl (Or.inl rfl))
      | false =>
        refine Surely.step (fun reserved _ => Or.inr ?_)
        cases reserved with
        | true => exact ih (Or.inr (by simp))
        | false => exact Surely.step (fun _ _ => Or.inl (Or.inl rfl))
    | some height =>
      unfold processNode.replaceChild
      dsimp only
      split
      · exact Surely.step (fun _ _ => Or.inl (Or.inl rfl))
      · exact Surely.step (fun _ _ => Or.inl (Or.inl rfl))

/-- So does `processNode`, from its merge on. -/
theorem merge_crowns (node : Cid) {K : DagM (List Cid) → DagM Unit} (context : Context K)
    (finish : ∀ children, children ≠ [] → net.Crowns task root (K (.ret children))) :
    net.Crowns task root (K (DagM.set (merge (net.block node).delta node) >>= fun _ =>
      DagM.markProcessed node >>= fun _ => processNode.links net root rootPrio node)) := by
  refine Surely.context context ((free (merge_sound _ node)).surely (fun _ _ => ?_))
  refine Surely.step (fun _ _ => Or.inr (Surely.step (fun _ _ => Or.inr ?_)))
  split
  · exact Surely.step (fun _ _ => Or.inl (Or.inl rfl))
  · rename_i linked
    have linked : net.links node ≠ [] := fun no => linked (List.isEmpty_iff.mpr no)
    refine (loop_crowns (net.links node) (Or.inl linked)).mono (fun _ _ _ here => here) ?_
    rintro _ ⟨children, rfl, some⟩
    exact finish children some

end Node

section Tasks

variable {net : Net}

theorem start_crowns {task : Task} {session : ℕ} {root : Cid} {rootPrio : ℕ} {nodes : List Cid} (some : nodes ≠ [])
    {post : Except String Unit → Prop} :
    Surely net.can (fun o _ _ => crowns root o ∨ task.quits root o) post (sendNewJobs.start session root rootPrio nodes) := by
  cases nodes with
  | nil => exact absurd rfl some
  | cons node rest => exact Surely.step (fun _ _ => Or.inr (Surely.step (fun _ _ => Or.inl (Or.inl rfl))))

/-- With children left to fetch, a job starts further ones for its root or marks the store dirty. -/
theorem send_crowns {session : ℕ} {root : Cid} {rootPrio : ℕ} {node : Cid} {prio : ℕ} {children : List Cid} (some : children ≠ []) :
    net.Crowns (.job session root prio node) root (dagWorker.send net session root rootPrio children) := by
  have plain : ∀ o : DagOp, o.Plain → (fun _ : DagOp => True) o := fun _ _ => trivial
  have sent : Surely net.can (fun o _ _ => crowns root o ∨ (Task.job session root prio node).quits root o)
      (fun out => ∃ e, out = .error e) (sendNewJobs net session root rootPrio children) := by
    unfold sendNewJobs
    split
    · exact absurd rfl some
    · rename_i first rest
      have priority : Obeys net.can (fun _ => True) _ (sendNewJobs.rootPriority net rootPrio first) :=
        sendNewJobs_rootPriority_obeys plain rootPrio first
      refine priority.orSurely (fun prio _ => Surely.step (fun goodDeltas _ => Or.inr ?_)) (fun e _ => ⟨e, rfl⟩)
      by_cases arrived : (show List Cid from goodDeltas) = []
      · have clear : Obeys net.can (fun _ => True) (Returns (fun _ => True))
            (sendNewJobs.clearUp goodDeltas (first :: rest)) := sendNewJobs_clearUp_obeys plain _ _
        rw [arrived] at clear ⊢
        refine clear.surely (fun _ _ => ?_)
        rw [if_neg (by simp)]
        exact ⟨_, rfl⟩
      · exact Surely.bind (start_crowns arrived)
  refine Surely.bind (Surely.attempt (sent.mono (fun _ _ _ here => here) ?_))
  rintro _ ⟨e, rfl⟩
  exact fun _ _ => Or.inl (Or.inr rfl)

theorem job_crowns (session : ℕ) (root : Cid) (rootPrio : ℕ) (node : Cid) :
    net.Crowns (.job session root rootPrio node) root (net.body (.job session root rootPrio node)) :=
  fun _ _ => Or.inr (merge_crowns node (Context.job net session root rootPrio) (fun _ some => send_crowns some))

theorem Task.quits_broadcast {task : Task} (writes : task.writes = true) (c : Cid) : task.quits c (.broadcast c) := by
  cases task with
  | put | delete => rfl
  | _ => cases writes

end Tasks

section Step

variable {net : Net} {threads threads' : List DagThread} {w w' : Replica} {a b : Cid}

theorem Net.Covered.below (covered : net.Covered threads w b) (below : net.Below a b) : net.Covered threads w a := by
  rcases covered with ⟨h, height, found, above⟩ | ⟨t, member, walks, root, above, crowning⟩
  · exact Or.inl ⟨h, height, found, below.trans above⟩
  · exact Or.inr ⟨t, member, walks, root, below.trans above, crowning⟩

theorem Net.Covered.mono (covered : net.Covered threads w b)
    (heads : ∀ h height, w.heads.lookup h = some height → ∃ h' height', w'.heads.lookup h' = some height' ∧ net.Below h h')
    (more : ∀ t ∈ threads, t ∈ threads') : net.Covered threads' w' b := by
  rcases covered with ⟨h, height, found, above⟩ | ⟨t, member, covers⟩
  · obtain ⟨h', height', found', below⟩ := heads h height found
    exact Or.inl ⟨h', height', found', above.trans below⟩
  · exact Or.inr ⟨t, more t member, covers⟩

variable {c : Crew} {i : ℕ} {choice : Choice} {task : Task} {o : DagOp} {next : o.Res → DagM Unit} {r : o.Res} {s : Replica}

/-- What is covered stays so, unless a thread gives its root up with nobody else to cover it. -/
theorem Net.Covered.step (covered : net.Covered c.threads c.state b) (present : c.threads[i]? = some ⟨task, .op o next⟩)
    (executed : net.exec i choice o c.state = some (r, s)) (answered : net.can o r)
    (heads : ∀ h height, c.state.heads.lookup h = some height →
      ∃ h' height', s.heads.lookup h' = some height' ∧ net.Below h h')
    (quitting : ∀ root, task.quits root o → net.Covered (c.threads.eraseIdx i) c.state root) :
    net.Covered (stepped net c i s task o (next r)).threads s b := by
  rcases covered with ⟨h, height, found, above⟩ | ⟨t, member, walks, root, above, crowning⟩
  · obtain ⟨h', height', found', below⟩ := heads h height found
    exact Or.inl ⟨h', height', found', above.trans below⟩
  rcases Crew.kept present member with rfl | still
  · rcases crowning r answered with (crowned | quit) | later
    · cases o with
      | addHead x height =>
        obtain rfl : x = root := crowned
        obtain ⟨_, rfl⟩ := Prod.mk.inj (Option.some.inj executed)
        exact Or.inl ⟨x, height, AList.lookup_insert _, above⟩
      | replaceHead x y height =>
        obtain rfl : y = root := crowned
        obtain ⟨_, rfl⟩ := Prod.mk.inj (Option.some.inj executed)
        exact Or.inl ⟨y, height, AList.lookup_insert _, above⟩
      | go started =>
        cases started with
        | job session x rootPrio node =>
          obtain rfl : x = root := crowned
          refine Or.inr ⟨_, Crew.new_mem (List.mem_map_of_mem (List.mem_singleton.mpr rfl)), rfl, x, above, ?_⟩
          exact job_crowns session x rootPrio node
        | _ => exact crowned.elim
      | _ => exact crowned.elim
    · exact ((quitting root quit).below above).mono heads (fun t other => Crew.other_mem other)
    · exact Or.inr ⟨_, Crew.moved_mem present, walks, root, above, later⟩
  · exact Or.inr ⟨t, still, walks, root, above, crowning⟩

end Step

end OpenTela
