import OpenTela.Crdt.Sound
import OpenTela.Dag.Walk
import Mathlib.Logic.Relation

namespace OpenTela

open DagM Prog

/-- The answers a replica can get: the set's own, a new block under a cid that names it, and
children that were asked for. -/
def Net.can (net : Net) : (o : DagOp) → o.Res → Prop
  | .set o, r => o.can r
  | .putBlock b, r => ∀ c, r = some c → net.block c = b
  | .getDeltas children, r => ∀ c, c ∈ (show List Cid from r) → c ∈ children
  | _, _ => True

/-- Operations that neither merge, change the head set or the marks of a block, nor start anything. -/
def DagOp.Plain : DagOp → Prop
  | .set _ | .enterMerge _ | .markProcessed _ | .visit _ | .addHead _ _ | .replaceHead _ _ _ | .markDirty | .markClean
  | .branch _ _ | .go _ => False
  | _ => True

/-- It returns, with a result in `post`. -/
def Returns {α : Type} (post : α → Prop) (out : Except String α) : Prop := ∃ a, out = .ok a ∧ post a

/-- Every operation the program may come to is `safe`, and it ends as `post` says. -/
abbrev Obeys {α : Type} (can : (o : DagOp) → o.Res → Prop) (safe : DagOp → Prop) (post : Except String α → Prop)
    (p : DagM α) : Prop :=
  Always can (fun _ _ _ => ()) (fun _ o _ _ => safe o) (fun _ => post) () p

section Rules

variable {α β : Type} {can : (o : DagOp) → o.Res → Prop} {safe : DagOp → Prop} {post : Except String α → Prop}

theorem Obeys.ret {a : α} (holds : post (.ok a)) : Obeys can safe post (pure a : DagM α) := holds

theorem Obeys.perform {o : DagOp} (fine : safe o) : Obeys can safe (Returns (can o)) (Prog.perform o : DagM o.Res) :=
  fun r possible => ⟨fine, r, rfl, possible⟩

theorem Obeys.bind {goal : Except String β → Prop} {p : DagM α} {f : α → DagM β} (first : Obeys can safe post p)
    (second : ∀ a, post (.ok a) → Obeys can safe goal (f a)) (failing : ∀ e, post (.error e) → goal (.error e)) :
    Obeys can safe goal (p >>= f) := by
  refine Always.bind (first.mono (fun _ _ _ _ _ fine => fine) ?_)
  intro _ out ending
  cases out with
  | ok a => exact second a ending
  | error e => exact failing e ending

/-- After a program that always returns. -/
theorem Obeys.next {holds : α → Prop} {goal : Except String β → Prop} {p : DagM α} {f : α → DagM β}
    (first : Obeys can safe (Returns holds) p) (second : ∀ a, holds a → Obeys can safe goal (f a)) :
    Obeys can safe goal (p >>= f) := by
  refine first.bind ?_ ?_
  · rintro a ⟨_, same, fine⟩
    cases same
    exact second a fine
  · rintro e ⟨_, same, _⟩
    cases same

theorem Obeys.attempt {p : DagM α} (first : Obeys can safe post p) :
    Obeys can safe (Returns post) p.attempt := by
  refine Always.attempt (first.mono (fun _ _ _ _ _ fine => fine) ?_)
  exact fun _ out ending => ⟨out, rfl, ending⟩

theorem Obeys.weaken {goal : Except String α → Prop} {p : DagM α} (first : Obeys can safe post p)
    (weaker : ∀ out, post out → goal out) : Obeys can safe goal p :=
  first.mono (fun _ _ _ _ _ fine => fine) (fun _ => weaker)

/-- Past a program that may fail, on to what follows. -/
theorem Obeys.orSurely {good : (o : DagOp) → o.Res → DagM β → Prop} {goal : Except String β → Prop}
    {p : DagM α} {f : α → DagM β} (first : Obeys can safe post p)
    (second : ∀ a, post (.ok a) → Surely can good goal (f a)) (failing : ∀ e, post (.error e) → goal (.error e)) :
    Surely can good goal (p >>= f) := by
  refine Surely.bind (Always.surely ?_ first)
  rintro _ (e | a) ending
  · exact failing e ending
  · exact second a ending

theorem Obeys.surely {holds : α → Prop} {good : (o : DagOp) → o.Res → DagM β → Prop} {goal : Except String β → Prop}
    {p : DagM α} {f : α → DagM β} (first : Obeys can safe (Returns holds) p)
    (second : ∀ a, holds a → Surely can good goal (f a)) : Surely can good goal (p >>= f) := by
  refine first.orSurely ?_ ?_
  · rintro a ⟨_, same, fine⟩
    cases same
    exact second a fine
  · rintro e ⟨_, no, _⟩
    cases no

/-- Past a program whose operations are all harmless, with nothing learnt from them. -/
theorem Obeys.always {κ : Type} {learn : κ → (o : DagOp) → o.Res → κ} {safe' : κ → (o : DagOp) → o.Res → DagM β → Prop}
    {goal : κ → Except String β → Prop} {p : DagM α} {f : α → DagM β} {k : κ} (first : Obeys can safe post p)
    (harmless : ∀ o r rest, safe o → learn k o r = k ∧ safe' k o r rest)
    (second : ∀ a, post (.ok a) → Always can learn safe' goal k (f a)) (failing : ∀ e, post (.error e) → goal k (.error e)) :
    Always can learn safe' goal k (p >>= f) := by
  induction p with
  | ret a => exact second a first
  | fail e => exact failing e first
  | op o next ih =>
    intro r possible
    obtain ⟨fine, rest⟩ := first r possible
    obtain ⟨unlearned, here⟩ := harmless o r ((next r).bind f) fine
    refine ⟨here, ?_⟩
    rw [unlearned]
    exact ih r rest

end Rules

section Programs

variable {net : Net} {can : (o : DagOp) → o.Res → Prop} (possible : ∀ o r, can o r → net.can o r)
  {safe : DagOp → Prop} (plain : ∀ o, o.Plain → safe o)

theorem addOnce_obeys {root : Cid} {rootPrio : ℕ} (crown : safe (.addHead root rootPrio)) (addedAsHead : Bool) :
    Obeys can safe (Returns (fun _ => True)) (processNode.addOnce root rootPrio addedAsHead) := by
  unfold processNode.addOnce
  split
  · exact Obeys.ret ⟨true, rfl, trivial⟩
  · exact (Obeys.perform crown).next (fun _ _ => Obeys.ret ⟨true, rfl, trivial⟩)

theorem replaceChild_obeys {root child : Cid} {rootPrio : ℕ} (crown : safe (.addHead root rootPrio))
    (replace : safe (.replaceHead child root rootPrio)) (existing : Option ℕ) (addedAsHead : Bool) :
    Obeys can safe (Returns (fun _ => True)) (processNode.replaceChild root rootPrio child existing addedAsHead) := by
  cases existing with
  | none => exact Obeys.ret ⟨addedAsHead, rfl, trivial⟩
  | some height =>
    unfold processNode.replaceChild
    dsimp only
    split
    · exact (Obeys.perform replace).next (fun _ _ => Obeys.ret ⟨true, rfl, trivial⟩)
    · exact addOnce_obeys crown addedAsHead

theorem taken_obeys {child : Cid} (visit : safe (.visit child)) (isProcessed : Bool) :
    Obeys can safe (Returns (fun _ => True)) (processNode.taken child isProcessed) := by
  unfold processNode.taken
  split
  · exact Obeys.ret ⟨true, rfl, trivial⟩
  · exact (Obeys.perform visit).next (fun _ _ => Obeys.ret ⟨_, rfl, trivial⟩)

include plain in
/-- The children left to fetch are links of the node, and none is forgotten. -/
theorem processNode_loop_obeys {root : Cid} {rootPrio : ℕ} {node : Cid} (crown : safe (.addHead root rootPrio))
    (replace : ∀ child ∈ net.links node, safe (.replaceHead child root rootPrio))
    (visit : ∀ child ∈ net.links node, safe (.visit child)) (links : List Cid) (within : links ⊆ net.links node)
    (addedAsHead : Bool) {children : List Cid} (known : children ⊆ net.links node) :
    Obeys can safe (Returns (fun out => children ⊆ out ∧ out ⊆ net.links node))
      (processNode.loop root rootPrio links addedAsHead children) := by
  induction links generalizing addedAsHead children with
  | nil => exact Obeys.ret ⟨children, rfl, fun _ member => member, known⟩
  | cons child rest ih =>
    have here : child ∈ net.links node := within (List.mem_cons_self ..)
    have below : rest ⊆ net.links node := fun x member => within (List.mem_cons_of_mem _ member)
    refine (Obeys.perform (plain (.isHead child) trivial)).next (fun existing _ => ?_)
    refine (Obeys.perform (plain (.isProcessed child) trivial)).next (fun processed _ => ?_)
    refine (replaceChild_obeys crown (replace child here) existing addedAsHead).next (fun added _ => ?_)
    split
    · exact ih below added known
    · refine (taken_obeys (visit child here) processed).next (fun taken _ => ?_)
      split
      · exact (addOnce_obeys crown added).next (fun _ _ => ih below _ known)
      · have more : children ++ [child] ⊆ net.links node := by
          intro x member
          rcases List.mem_append.mp member with old | new
          · exact known old
          · exact List.mem_singleton.mp new ▸ here
        refine (ih below added more).weaken ?_
        rintro _ ⟨out, rfl, kept, bounded⟩
        exact ⟨out, rfl, fun x member => kept (List.mem_append_left _ member), bounded⟩

include possible in
theorem set_obeys {α : Type} {holds : α → Prop} {p : SetM α} (set : ∀ o : SetOp, o.sound → safe (.set o))
    (sound : Sound holds p) : Obeys can safe (Returns holds) (DagM.set p) :=
  Always.embed (fun o r answered => possible (.set o) r answered) (fun _ _ => rfl)
    (fun _ o _ _ _ fine => set o fine) (fun _ _ ending => ending) sound

include possible plain in
theorem processNode_obeys {root : Cid} {rootPrio : ℕ} {node : Cid} (set : ∀ o : SetOp, o.sound → safe (.set o))
    (enter : safe (.enterMerge node)) (mark : safe (.markProcessed node)) (crown : safe (.addHead root rootPrio))
    (replace : ∀ child ∈ net.links node, safe (.replaceHead child root rootPrio))
    (visit : ∀ child ∈ net.links node, safe (.visit child)) :
    Obeys can safe (Returns (fun out => out ⊆ net.links node)) (processNode net root rootPrio node) := by
  refine (Obeys.perform enter).next (fun _ _ => ?_)
  refine (set_obeys possible set (merge_sound _ node)).next (fun _ _ => ?_)
  refine (Obeys.perform mark).next (fun _ _ => ?_)
  refine (Obeys.perform (plain (.dequeue node) trivial)).next (fun _ _ => ?_)
  have loop : Obeys can safe (Returns (fun out => out ⊆ net.links node))
      (processNode.loop root rootPrio (net.links node) false []) := by
    refine (processNode_loop_obeys plain crown replace visit (net.links node) (fun _ member => member) false
      (List.nil_subset _)).weaken ?_
    rintro _ ⟨out, rfl, _, bounded⟩
    exact ⟨out, rfl, bounded⟩
  dsimp only
  split
  · exact (Obeys.perform crown).next (fun _ _ => loop)
  · exact loop

include plain in
theorem sendNewJobs_start_obeys {session : ℕ} {root : Cid} {rootPrio : ℕ} (nodes : List Cid)
    (job : ∀ node ∈ nodes, safe (.go (.job session root rootPrio node))) :
    Obeys can safe (Returns (fun _ => True)) (sendNewJobs.start session root rootPrio nodes) := by
  induction nodes with
  | nil => exact Obeys.ret ⟨(), rfl, trivial⟩
  | cons node rest ih =>
    refine (Obeys.perform (plain (.sessionAdd session) trivial)).next (fun _ _ => ?_)
    refine (Obeys.perform (job node (List.mem_cons_self ..))).next (fun _ _ => ?_)
    exact ih (fun x member => job x (List.mem_cons_of_mem _ member))

include plain in
theorem sendNewJobs_clearUp_obeys (goodDeltas children : List Cid) :
    Obeys can safe (Returns (fun _ => True)) (sendNewJobs.clearUp goodDeltas children) := by
  induction children with
  | nil => exact Obeys.ret ⟨(), rfl, trivial⟩
  | cons child rest ih =>
    unfold sendNewJobs.clearUp
    split
    · exact ih
    · exact (Obeys.perform (plain (.dequeue child) trivial)).next (fun _ _ => ih)

include plain in
theorem sendNewJobs_rootPriority_obeys (rootPrio : ℕ) (first : Cid) :
    Obeys can safe (fun out => ∀ prio, out = .ok prio → prio = if rootPrio = 0 then net.priority first else rootPrio)
      (sendNewJobs.rootPriority net rootPrio first) := by
  unfold sendNewJobs.rootPriority
  split
  · refine (Obeys.perform (plain (.fetch first) trivial)).next (fun fetched _ => ?_)
    cases fetched with
    | true => exact Obeys.ret (fun prio same => (Except.ok.inj same).symm)
    | false => exact fun _ error => by cases error
  · exact Obeys.ret (fun prio same => (Except.ok.inj same).symm)

include possible plain in
/-- The jobs are for the children, under a root priority that is taken from the first of
them when none is known yet. -/
theorem sendNewJobs_obeys {session : ℕ} {root : Cid} {rootPrio : ℕ} (children : List Cid)
    (job : ∀ first rest, children = first :: rest → ∀ node ∈ children,
      safe (.go (.job session root (if rootPrio = 0 then net.priority first else rootPrio) node))) :
    Obeys can safe (fun _ => True) (sendNewJobs net session root rootPrio children) := by
  unfold sendNewJobs
  split
  · exact Obeys.ret trivial
  · rename_i first rest
    refine (sendNewJobs_rootPriority_obeys plain rootPrio first).bind (fun prio known => ?_) (fun _ _ => trivial)
    have jobs := job first rest rfl
    rw [← known prio rfl] at jobs
    refine (Obeys.perform (plain (.getDeltas (first :: rest)) trivial)).next (fun goodDeltas answered => ?_)
    have asked := possible _ _ answered
    refine (sendNewJobs_start_obeys plain goodDeltas (fun node member => jobs node (asked node member))).next (fun _ _ => ?_)
    refine (sendNewJobs_clearUp_obeys plain goodDeltas (first :: rest)).next (fun _ _ => ?_)
    split
    · exact Obeys.ret trivial
    · exact trivial

include possible plain in
theorem dagWorker_send_obeys {session : ℕ} {root : Cid} {rootPrio : ℕ} (children : List Cid) (dirty : safe .markDirty)
    (job : ∀ first rest, children = first :: rest → ∀ node ∈ children,
      safe (.go (.job session root (if rootPrio = 0 then net.priority first else rootPrio) node))) :
    Obeys can safe (fun _ => True) (dagWorker.send net session root rootPrio children) := by
  have finish : Obeys can safe (fun _ => True) (sessionDone session) :=
    (Obeys.perform (plain (.sessionDone session) trivial)).weaken (fun _ _ => trivial)
  refine (sendNewJobs_obeys possible plain children job).attempt.next (fun result _ => ?_)
  cases result with
  | error e => exact (Obeys.perform dirty).next (fun _ _ => finish)
  | ok _ => exact finish

include possible plain in
theorem dagWorker_obeys {session : ℕ} {root : Cid} {rootPrio : ℕ} {node : Cid}
    (set : ∀ o : SetOp, o.sound → safe (.set o)) (enter : safe (.enterMerge node)) (mark : safe (.markProcessed node))
    (crown : safe (.addHead root rootPrio))
    (replace : ∀ child ∈ net.links node, safe (.replaceHead child root rootPrio))
    (visit : ∀ child ∈ net.links node, safe (.visit child)) (dirty : safe .markDirty)
    (job : ∀ first ∈ net.links node, ∀ child ∈ net.links node,
      safe (.go (.job session root (if rootPrio = 0 then net.priority first else rootPrio) child))) :
    Obeys can safe (fun _ => True) (dagWorker net session root rootPrio node) := by
  refine (processNode_obeys possible plain set enter mark crown replace visit).attempt.next (fun out returned => ?_)
  obtain ⟨children, rfl, within⟩ := returned
  exact dagWorker_send_obeys possible plain children dirty (fun first rest here child member =>
    job first (within (here ▸ List.mem_cons_self ..)) child (within member))

include possible plain in
theorem handleBranch_obeys {head c : Cid} (open_ : safe (.branch head c))
    (job : ∀ session, can (.branch head c) session → safe (.go (.job session head (net.priority c) c))) :
    Obeys can safe (fun _ => True) (handleBranch net head c) := by
  refine (Obeys.perform open_).next (fun session answered => ?_)
  have jobs : ∀ first rest, [c] = first :: rest → ∀ node ∈ [c],
      safe (.go (.job session head (if 0 = 0 then net.priority first else 0) node)) := by
    intro first rest here node member
    obtain ⟨rfl, _⟩ := List.cons.inj here
    rw [List.mem_singleton.mp member, if_pos rfl]
    exact job session answered
  refine (sendNewJobs_obeys possible plain [c] jobs).attempt.next (fun result _ => ?_)
  refine (Obeys.perform (plain (.sessionWait session) trivial)).next (fun _ _ => ?_)
  cases result with
  | error e => exact trivial
  | ok _ => exact trivial

include possible plain in
theorem processHead_obeys {c : Cid} (open_ : safe (.branch c c))
    (job : ∀ session, safe (.go (.job session c (net.priority c) c))) :
    Obeys can safe (fun _ => True) (processHead net c) := by
  have block : Obeys can safe (fun _ => True) (handleBlock net c) := by
    refine (Obeys.perform (plain (.isBanned c) trivial)).next (fun banned _ => ?_)
    cases banned with
    | true => exact Obeys.ret trivial
    | false =>
      refine (Obeys.perform (plain (.isProcessed c) trivial)).next (fun processed _ => ?_)
      cases processed with
      | true => exact Obeys.ret trivial
      | false => exact handleBranch_obeys possible plain open_ (fun session _ => job session)
  refine block.attempt.next (fun result _ => ?_)
  cases result with
  | error e => exact (Obeys.perform (plain (.recordFailure c) trivial)).next (fun _ _ => Obeys.ret trivial)
  | ok _ => exact (Obeys.perform (plain (.clearFailure c) trivial)).weaken (fun _ _ => trivial)

include plain in
theorem handleNext_obeys (heads : List Cid) (crown : ∀ c, safe (.addHead c (net.priority c)))
    (head : ∀ c, safe (.go (.head c))) : Obeys can safe (fun _ => True) (handleNext net heads) := by
  have adopt : ∀ heads, Obeys can safe (Returns (fun _ => True)) (handleNext.adopt net heads) := by
    intro heads
    induction heads with
    | nil => exact Obeys.ret ⟨(), rfl, trivial⟩
    | cons c rest ih =>
      refine (Obeys.perform (plain (.isBanned c) trivial)).next (fun banned _ => ?_)
      cases banned with
      | true => exact ih
      | false =>
        refine (Obeys.perform (plain (.fetch c) trivial)).next (fun fetched _ => ?_)
        cases fetched with
        | true => exact (Obeys.perform (crown c)).next (fun _ _ => ih)
        | false => exact (Obeys.perform (plain (.recordFailure c) trivial)).next (fun _ _ => ih)
  have process : ∀ heads, Obeys can safe (fun _ => True) (handleNext.process heads) := by
    intro heads
    induction heads with
    | nil => exact Obeys.ret trivial
    | cons c rest ih => exact (Obeys.perform (head c)).next (fun _ _ => ih)
  refine (Obeys.perform (plain .headCount trivial)).next (fun count _ => ?_)
  dsimp only
  split
  · exact (adopt heads).next (fun _ _ => process heads)
  · exact process heads

include plain in
theorem repairDAG_unbanned_obeys (heads : List Cid) :
    Obeys can safe (Returns (fun _ => True)) (repairDAG.unbanned heads) := by
  induction heads with
  | nil => exact Obeys.ret ⟨[], rfl, trivial⟩
  | cons h rest ih =>
    refine (Obeys.perform (plain (.isBanned h) trivial)).next (fun banned _ => ?_)
    cases banned with
    | true => exact ih
    | false => exact ih.next (fun nodes _ => Obeys.ret ⟨h :: nodes, rfl, trivial⟩)

include plain in
theorem repairDAG_obeys (sweep : ∀ nodes queued, safe (.go (.sweep nodes queued))) :
    Obeys can safe (fun _ => True) repairDAG := by
  refine (Obeys.perform (plain .listHeads trivial)).next (fun listed _ => ?_)
  refine (repairDAG_unbanned_obeys plain listed.1).next (fun nodes _ => ?_)
  exact (Obeys.perform (sweep _ _)).weaken (fun _ _ => trivial)

include plain in
theorem repair_obeys (sweep : ∀ nodes queued, safe (.go (.sweep nodes queued))) :
    Obeys can safe (fun _ => True) repair := by
  refine (Obeys.perform (plain .isDirty trivial)).next (fun dirty _ => ?_)
  cases dirty with
  | true => exact repairDAG_obeys plain sweep
  | false => exact Obeys.ret trivial

include plain in
theorem repairDAG_enqueue_obeys (head : Cid) (links : List Cid) (nodes : List (Cid × Cid)) (queued : List Cid) :
    Obeys can safe (Returns (fun _ => True)) (repairDAG.enqueue head links nodes queued) := by
  induction links generalizing nodes queued with
  | nil => exact Obeys.ret ⟨_, rfl, trivial⟩
  | cons l rest ih =>
    refine (Obeys.perform (plain (.isBanned l) trivial)).next (fun banned _ => ?_)
    cases banned with
    | true => exact ih nodes queued
    | false =>
      rw [if_neg (by decide)]
      split
      · exact ih nodes queued
      · exact ih _ _

include possible plain in
theorem repairDAG_loop_obeys (nodes : List (Cid × Cid)) (queued : List Cid) (clean : safe .markClean)
    (open_ : ∀ head c, safe (.branch head c))
    (job : ∀ head c session, can (.branch head c) session → safe (.go (.job session head (net.priority c) c)))
    (sweep : ∀ nodes queued, safe (.go (.sweep nodes queued))) :
    Obeys can safe (fun _ => True) (repairDAG.loop net nodes queued) := by
  cases nodes with
  | nil => exact (Obeys.perform clean).weaken (fun _ _ => trivial)
  | cons first nodes =>
    obtain ⟨head, cur⟩ := first
    refine (Obeys.perform (plain (.fetch cur) trivial)).next (fun fetched _ => ?_)
    cases fetched with
    | false => exact trivial
    | true =>
      have onward : Obeys can safe (fun _ => True)
          (repairDAG.enqueue head (net.links cur) nodes queued >>= fun out => go (.sweep out.1 out.2)) :=
        (repairDAG_enqueue_obeys plain head (net.links cur) nodes queued).next
          (fun out _ => (Obeys.perform (sweep out.1 out.2)).weaken (fun _ _ => trivial))
      refine (Obeys.perform (plain (.isProcessed cur) trivial)).next (fun processed _ => ?_)
      cases processed with
      | true => exact onward
      | false =>
        exact (handleBranch_obeys possible plain (open_ head cur) (job head cur)).bind (fun _ _ => onward) (fun _ _ => trivial)

include plain in
theorem publish_send_obeys (c : Cid) : Obeys can safe (fun _ => True) (publish.send c) := by
  refine (Obeys.perform (plain (.broadcast c) trivial)).next (fun sent _ => ?_)
  cases sent with
  | true => exact Obeys.ret trivial
  | false => exact trivial

include possible plain in
theorem publish_obeys {elements tombstones : List Element} (set : ∀ o : SetOp, o.sound → safe (.set o))
    (enter : ∀ c, safe (.enterMerge c)) (mark : ∀ c, safe (.markProcessed c))
    (crown : ∀ c, safe (.addHead c (net.priority c)))
    (replace : ∀ c, ∀ child ∈ net.links c, safe (.replaceHead child c (net.priority c)))
    (visit : ∀ c, ∀ child ∈ net.links c, safe (.visit child)) :
    Obeys can safe (fun _ => True) (publish net elements tombstones) := by
  have node : Obeys can safe (fun _ => True) (addDAGNode net elements tombstones) := by
    refine (Obeys.perform (plain .listHeads trivial)).next (fun listed _ => ?_)
    obtain ⟨heads, height⟩ := listed
    refine (Obeys.perform (plain (.putBlock ⟨newDelta elements tombstones height, heads⟩) trivial)).next (fun made answered => ?_)
    cases made with
    | none => exact trivial
    | some c =>
      have same : (height + 1) % word = net.priority c := by
        rw [Net.priority, possible _ _ answered c rfl]
        rfl
      have process : Obeys can safe (Returns (fun out => out ⊆ net.links c)) (processNode net c ((height + 1) % word) c) :=
        processNode_obeys possible plain set (enter c) (mark c) (same ▸ crown c)
          (fun child member => same ▸ replace c child member) (visit c)
      refine process.attempt.next (fun result returned => ?_)
      obtain ⟨children, rfl, _⟩ := returned
      exact Obeys.ret trivial
  exact node.bind (fun c _ => publish_send_obeys plain c) (fun _ _ => trivial)

end Programs

end OpenTela
