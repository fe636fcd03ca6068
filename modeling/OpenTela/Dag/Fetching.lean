import OpenTela.Dag.Sturdy

namespace OpenTela

open Prog

/-- Steps after which a thread need not care about block `c` any more: it finds it processed
or banned, marks it processed, hands it to a job, or leaves a trace of having failed. -/
def settles (c : Cid) : (o : DagOp) → o.Res → Prop
  | .isProcessed c', r => c' = c ∧ r = true
  | .isBanned c', r => c' = c ∧ r = true
  | .markProcessed c', _ => c' = c
  | .go (.job _ _ _ node), _ => node = c
  | .markDirty, _ => True
  | .recordFailure c', _ => c' = c
  | _, _ => False

section Modes

variable (net : Net) (c : Cid)

/-- The thread will mark `c` processed. -/
def Net.Marking (p : DagM Unit) : Prop := Surely net.can (fun o _ _ => o = .markProcessed c) (fun _ => False) p

/-- The thread has `c` in its care. -/
def Net.Fetching (p : DagM Unit) : Prop := Surely net.can (fun o r _ => settles c o r) (fun _ => False) p

/-- The thread settles `c`, or tries to reserve it; having reserved it, it has it in its
care, unless the thread is a local write. -/
def Net.comes (writes : Bool) : (o : DagOp) → o.Res → DagM Unit → Prop
  | .visit c', r, rest => c' = c ∧ (writes = false → r = true → net.Fetching c rest)
  | o, r, _ => settles c o r

/-- The thread will come to `c`. -/
def Net.Coming (writes : Bool) (p : DagM Unit) : Prop := Surely net.can (net.comes c writes) (fun _ => False) p

end Modes

variable {net : Net} {c : Cid}

theorem Net.Marking.fetching {p : DagM Unit} (marking : net.Marking c p) : net.Fetching c p := by
  refine marking.mono (fun o r rest here => ?_) (fun _ no => no)
  subst here
  exact rfl

/-- The part of `processNode` after its merge. -/
def processNode.links (net : Net) (root : Cid) (rootPrio : ℕ) (node : Cid) : DagM (List Cid) := do
  DagM.dequeue node
  if (net.links node).isEmpty then DagM.addHead root rootPrio
  processNode.loop root rootPrio (net.links node) false []

theorem processNode_eq (net : Net) (root : Cid) (rootPrio : ℕ) (node : Cid) :
    processNode net root rootPrio node = (DagM.enterMerge node >>= fun _ =>
      DagM.set (merge (net.block node).delta node) >>= fun _ =>
      DagM.markProcessed node >>= fun _ => processNode.links net root rootPrio node) := rfl

section Node

variable {root node : Cid} {rootPrio : ℕ} {K : DagM (List Cid) → DagM Unit} (context : Context K)

theorem free {α : Type} {holds : α → Prop} {p : SetM α} (sound : Sound holds p) :
    Obeys net.can (fun _ => True) (Returns holds) (DagM.set p) :=
  set_obeys (fun _ _ answered => answered) (fun _ _ => trivial) sound

include context in
/-- A merge returns, so the thread goes on to mark the node. -/
theorem processNode_surely {good : (o : DagOp) → o.Res → DagM Unit → Prop}
    (marks : ∀ r, good (.markProcessed node) r (K (processNode.links net root rootPrio node))) :
    Surely net.can good (fun _ => False) (K (processNode net root rootPrio node)) := by
  rw [processNode_eq]
  refine Surely.context context (Surely.step (fun _ _ => Or.inr ?_))
  exact (free (merge_sound _ node)).surely (fun _ _ => Surely.step (fun r _ => Or.inl (marks r)))

/-- The thread takes care of the children it is given. -/
def Net.Sends (net : Net) (K : DagM (List Cid) → DagM Unit) : Prop :=
  ∀ children l, l ∈ children → net.Fetching l (K (.ret children))

include context in
/-- A child that is to be fetched stays so until the loop is over. -/
theorem loop_fetching (sends : net.Sends K) {links : List Cid} (within : links ⊆ net.links node) (addedAsHead : Bool)
    {children : List Cid} (known : children ⊆ net.links node) (member : c ∈ children) :
    net.Fetching c (K (processNode.loop root rootPrio links addedAsHead children)) := by
  have returns : Obeys net.can (fun _ => True) (Returns (fun out => children ⊆ out ∧ out ⊆ net.links node))
      (processNode.loop root rootPrio links addedAsHead children) :=
    processNode_loop_obeys (fun _ _ => trivial) trivial (fun _ _ => trivial) (fun _ _ => trivial) links within addedAsHead known
  refine Surely.context context (Always.surely ?_ returns)
  rintro _ _ ⟨out, rfl, kept, _⟩
  exact sends out c (kept member)

theorem replaceChild_free (child : Cid) (existing : Option ℕ) (addedAsHead : Bool) :
    Obeys net.can (fun _ => True) (Returns (fun _ => True))
      (processNode.replaceChild root rootPrio child existing addedAsHead) :=
  replaceChild_obeys trivial trivial existing addedAsHead

theorem addOnce_free (addedAsHead : Bool) :
    Obeys net.can (fun _ => True) (Returns (fun _ => True)) (processNode.addOnce root rootPrio addedAsHead) :=
  addOnce_obeys trivial addedAsHead

theorem taken_free (child : Cid) (processed : Bool) :
    Obeys net.can (fun _ => True) (Returns (fun _ => True)) (processNode.taken child processed) :=
  taken_obeys trivial processed

include context in
/-- The loop comes to every link, and takes care of those it has reserved. -/
theorem loop_coming {writes : Bool} (sends : writes = false → net.Sends K) {post : Except String (List Cid) → Prop}
    {links : List Cid} (within : links ⊆ net.links node) (addedAsHead : Bool) {children : List Cid}
    (known : children ⊆ net.links node) (member : c ∈ links) :
    Surely net.can (fun o r rest => net.comes c writes o r (K rest)) post
      (processNode.loop root rootPrio links addedAsHead children) := by
  induction links generalizing addedAsHead children with
  | nil => cases member
  | cons child rest ih =>
    have here : child ∈ net.links node := within (List.mem_cons_self ..)
    have below : rest ⊆ net.links node := fun x member => within (List.mem_cons_of_mem _ member)
    have more : children ++ [child] ⊆ net.links node := by
      intro x member
      rcases List.mem_append.mp member with old | new
      · exact known old
      · exact List.mem_singleton.mp new ▸ here
    refine Surely.step (fun existing _ => Or.inr (Surely.step (fun processed _ => ?_)))
    by_cases same : child = c
    · subst same
      cases processed with
      | true => exact Or.inl ⟨rfl, rfl⟩
      | false =>
        refine Or.inr ((replaceChild_free child existing addedAsHead).surely (fun added _ => ?_))
        rw [Bool.and_false, if_neg (by decide)]
        refine Surely.step (fun reserved _ => Or.inl ⟨rfl, fun job fresh => ?_⟩)
        subst fresh
        exact loop_fetching context (sends job) below added more (List.mem_append_right _ (List.mem_singleton.mpr rfl))
    · have later : c ∈ rest := (List.mem_cons.mp member).resolve_left (Ne.symm same)
      refine Or.inr ((replaceChild_free child existing addedAsHead).surely (fun added _ => ?_))
      split
      · exact ih below added known later
      · refine (taken_free child processed).surely (fun taken _ => ?_)
        split
        · exact (addOnce_free added).surely (fun _ _ => ih below _ known later)
        · exact ih below added more later

include context in
theorem links_coming {writes : Bool} (sends : writes = false → net.Sends K) (member : c ∈ net.links node) :
    net.Coming c writes (K (processNode.links net root rootPrio node)) := by
  have loop : ∀ {post}, Surely net.can (fun o r rest => net.comes c writes o r (K rest)) post
      (processNode.loop root rootPrio (net.links node) false []) :=
    loop_coming context sends (fun _ inside => inside) false (List.nil_subset _) member
  refine Surely.context context (Surely.step (fun _ _ => Or.inr ?_))
  split
  · exact Surely.step (fun _ _ => Or.inr loop)
  · exact loop

end Node

end OpenTela
