import OpenTela.Dag.Cover

namespace OpenTela

open Prog

/-- Operations of the set that only look. -/
def SetOp.reads : SetOp → Prop
  | .has _ | .query _ => True
  | _ => False

/-- The block a thread is merging. -/
def engaged : Option Cid → (o : DagOp) → o.Res → Option Cid
  | _, .enterMerge b, _ => some b
  | _, .markProcessed _, _ => none
  | b, _, _ => b

/-- What is left of the thread is `m`, and to mark `b` then. -/
def MergesThen (b : Cid) (m : SetM Unit) (p : DagM Unit) : Prop :=
  ∃ K : DagM Unit → DagM Unit, Context K ∧ p = K (DagM.set m) ∧ ∃ next, K (.ret ()) = .op (.markProcessed b) next

/-- A thread writes to the set only in a merge, which it begins with the whole of it ahead
and a root above the block that it walks for. -/
def Net.orderly (net : Net) (task : Task) : Option Cid → (o : DagOp) → o.Res → DagM Unit → Prop
  | none, .set o, _, _ => o.reads
  | none, .enterMerge b, _, rest => MergesThen b (merge (net.block b).delta b) rest ∧ net.Covers b ⟨task, rest⟩
  | none, .markProcessed _, _, _ => False
  | _, _, _, _ => True

abbrev Net.Orderly (net : Net) (task : Task) (b : Option Cid) (p : DagM Unit) : Prop :=
  Always net.can engaged (net.orderly task) (fun _ _ => True) b p

/-- Operations outside a merge. -/
def DagOp.Aloof : DagOp → Prop
  | .set o => o.reads
  | .enterMerge _ | .markProcessed _ => False
  | _ => True

section Aloof

variable {net : Net} {task : Task}

theorem DagOp.Aloof.harmless {o : DagOp} (aloof : o.Aloof) (r : o.Res) (rest : DagM Unit) :
    engaged none o r = none ∧ net.orderly task none o r rest := by
  cases o with
  | set so => exact ⟨rfl, aloof⟩
  | enterMerge | markProcessed => exact aloof.elim
  | _ => exact ⟨rfl, trivial⟩

theorem aloof_of_plain (o : DagOp) (isPlain : o.Plain) : o.Aloof := by
  cases o with
  | set | enterMerge | markProcessed => exact isPlain.elim
  | _ => trivial

theorem Obeys.orderly {p : DagM Unit} (obeys : Obeys net.can DagOp.Aloof (fun _ => True) p) : net.Orderly task none p := by
  induction p with
  | ret a => trivial
  | fail e => trivial
  | op o next ih =>
    intro r possible
    obtain ⟨aloof, rest⟩ := obeys r possible
    obtain ⟨same, fine⟩ := aloof.harmless r (next r)
    refine ⟨fine, ?_⟩
    rw [same]
    exact ih r rest

theorem rmv_loop_reads (key : Key) (results : List Path) (tombstones : List Element) :
    Always SetOp.can (fun _ _ _ => ()) (fun _ o _ _ => o.reads) (fun _ out => ∃ a, out = .ok a) ()
      (rmv.loop key results tombstones) := by
  induction results generalizing tombstones with
  | nil => exact ⟨_, rfl⟩
  | cons path rest ih =>
    unfold rmv.loop
    split
    · exact ih tombstones
    · refine Always.step (fun buried _ => ⟨trivial, ?_⟩)
      cases buried with
      | true => exact ih tombstones
      | false => exact ih _

theorem rmv_aloof (key : Key) : Obeys net.can DagOp.Aloof (Returns (fun _ => True)) (DagM.set (rmv key)) := by
  have reads : Always SetOp.can (fun _ _ _ => ()) (fun _ o _ _ => o.reads) (fun _ out => ∃ a, out = .ok a) () (rmv key) :=
    Always.step (fun _ _ => ⟨trivial, rmv_loop_reads key _ []⟩)
  refine Always.embed (fun o r answered => answered) (fun _ _ => rfl) (fun _ o _ _ _ fine => fine) ?_ reads
  rintro _ _ ⟨a, rfl⟩
  exact ⟨a, rfl, trivial⟩

end Aloof

section Node

variable {net : Net} {task : Task} {root : Cid} {rootPrio : ℕ} {K : DagM (List Cid) → DagM Unit} (context : Context K)
  (aloof : ∀ children, Obeys net.can DagOp.Aloof (fun _ => True) (K (.ret children)))

include context aloof in
theorem links_aloof (node : Cid) :
    Obeys net.can DagOp.Aloof (fun _ => True) (K (processNode.links net root rootPrio node)) := by
  have loop : Obeys net.can DagOp.Aloof (Returns (fun _ => True))
      (processNode.loop root rootPrio (net.links node) false []) := by
    refine (processNode_loop_obeys aloof_of_plain trivial (fun _ _ => trivial) (fun _ _ => trivial) (net.links node)
      (fun _ member => member) false (List.nil_subset _)).weaken ?_
    rintro _ ⟨out, rfl, _⟩
    exact ⟨out, rfl, trivial⟩
  have links : Obeys net.can DagOp.Aloof (Returns (fun _ => True)) (processNode.links net root rootPrio node) := by
    refine (Obeys.perform (o := .dequeue node) trivial).next (fun _ _ => ?_)
    dsimp only
    split
    · exact (Obeys.perform (o := .addHead root rootPrio) trivial).next (fun _ _ => loop)
    · exact loop
  refine Always.context context (links.mono (fun _ _ _ _ _ fine => fine) ?_)
  rintro _ _ ⟨children, rfl, _⟩
  exact aloof children

include context aloof in
/-- `processNode`, in a context that walks for its root, merges in an orderly way. -/
theorem processNode_orderly (node : Cid) (walks : task.walks = true) (below : net.Below node root)
    (finish : ∀ children, children ≠ [] → net.Crowns task root (K (.ret children))) :
    net.Orderly task none (K (processNode net root rootPrio node)) := by
  have marks : Context (fun q : DagM Unit => K (q >>= fun _ => DagM.markProcessed node >>= fun _ =>
      processNode.links net root rootPrio node)) := Context.comp context (Context.bind _)
  have marking := context (.markProcessed node) (fun _ => processNode.links net root rootPrio node)
  have entering := context (.enterMerge node) (fun _ => DagM.set (merge (net.block node).delta node) >>= fun _ =>
    DagM.markProcessed node >>= fun _ => processNode.links net root rootPrio node)
  have merged : Always net.can engaged (net.orderly task) (fun _ _ => True) (some node)
      (K (DagM.set (merge (net.block node).delta node) >>= fun _ =>
        DagM.markProcessed node >>= fun _ => processNode.links net root rootPrio node)) := by
    refine Always.context marks (Always.embed (fun o r answered => answered) (fun _ _ => rfl) (fun _ _ _ _ _ _ => trivial) ?_
      (merge_sound (net.block node).delta node))
    rintro _ _ ⟨_, rfl, _⟩
    refine marking.symm ▸ fun _ _ => ⟨trivial, (links_aloof context aloof node).orderly⟩
  refine entering.symm ▸ fun _ _ => ⟨⟨⟨_, marks, rfl, _, marking⟩, walks, root, below, ?_⟩, merged⟩
  exact merge_crowns node context finish

end Node

section Tasks

variable {net : Net}

theorem publish_orderly {task : Task} (walks : task.walks = true) (writes : task.writes = true)
    (elements tombstones : List Element) : net.Orderly task none (publish net elements tombstones) := by
  refine Always.step (fun listed _ => ⟨trivial, Always.step (fun made _ => ⟨trivial, ?_⟩)⟩)
  cases made with
  | none => trivial
  | some c =>
    refine processNode_orderly (Context.publish c) (fun _ => publish_send_obeys aloof_of_plain c) c walks (.refl net c) ?_
    exact fun _ _ _ _ => Or.inl (Or.inr (Task.quits_broadcast writes c))

/-- Every task keeps order. -/
theorem Net.body_orderly {task : Task} (fit : net.FitTask task) : net.Orderly task none (net.body task) := by
  have possible : ∀ (o : DagOp) (r : o.Res), net.can o r → net.can o r := fun _ _ answered => answered
  cases task with
  | receive heads => exact (handleNext_obeys aloof_of_plain heads (fun _ => trivial) (fun _ => trivial)).orderly
  | head c => exact (processHead_obeys possible aloof_of_plain trivial (fun _ => trivial)).orderly
  | job session root rootPrio node =>
    refine processNode_orderly (Context.job net session root rootPrio) (fun children => ?_) node rfl fit.2
      (fun _ some => send_crowns some)
    exact dagWorker_send_obeys possible aloof_of_plain children trivial (fun _ _ _ _ _ => trivial)
  | repairTimer => exact (repair_obeys aloof_of_plain (fun _ _ => trivial)).orderly
  | repairCall => exact (repairDAG_obeys aloof_of_plain (fun _ _ => trivial)).orderly
  | sweep nodes queued =>
    exact (repairDAG_loop_obeys possible aloof_of_plain nodes queued trivial (fun _ _ => trivial)
      (fun _ _ _ _ => trivial) (fun _ _ => trivial)).orderly
  | put key value => exact publish_orderly rfl rfl _ _
  | delete key =>
    refine (rmv_aloof key).always (fun o r rest fine => fine.harmless r rest) (fun tombstones _ => ?_) (fun _ _ => trivial)
    split
    · trivial
    · exact publish_orderly rfl rfl _ _

end Tasks

end OpenTela
