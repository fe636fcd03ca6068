import OpenTela.Dag.Tidy

namespace OpenTela

open Prog

/-- What a repair pass has found out about a block: that it is processed or in the hands of a
job, or that it is banned. Neither is ever undone. -/
inductive Fact where
  | reached (c : Cid)
  | banned (c : Cid)

def learnt : List Fact → (o : DagOp) → o.Res → List Fact
  | facts, .isProcessed c, true => .reached c :: facts
  | facts, .isBanned c, true => .banned c :: facts
  | facts, .go (.job _ _ _ c), _ => .reached c :: facts
  | facts, _, _ => facts

theorem subset_learnt (facts : List Fact) (o : DagOp) (r : o.Res) : facts ⊆ learnt facts o r := by
  intro f member
  unfold learnt
  split
  · exact List.mem_cons_of_mem _ member
  · exact List.mem_cons_of_mem _ member
  · exact List.mem_cons_of_mem _ member
  · exact member

/-- Every block the pass has queued is waiting, or has been reached and has had its links
queued, except for the banned ones. -/
def Net.Swept (net : Net) (facts : List Fact) (nodes : List (Cid × Cid)) (queued : List Cid) : Prop :=
  ∀ q ∈ queued, (∃ head, (head, q) ∈ nodes) ∨
    (.reached q ∈ facts ∧ ∀ l ∈ net.links q, .banned l ∈ facts ∨ l ∈ queued)

/-- The dirty bit is cleared by a pass that has nothing left to visit. -/
def Net.thorough (net : Net) (task : Task) (facts : List Fact) : DagOp → Prop
  | .markClean => ∃ queued, task = .sweep [] queued ∧ net.Swept facts [] queued
  | .go (.sweep nodes queued) => net.Swept facts nodes queued
  | _ => True

/-- The program is thorough, given these facts, and ends as `post` says. -/
abbrev Net.Learns {α : Type} (net : Net) (task : Task) (post : List Fact → Except String α → Prop) (facts : List Fact)
    (p : DagM α) : Prop :=
  Always net.can learnt (fun facts o _ _ => net.thorough task facts o) post facts p

/-- Operations with which no pass goes on or ends. -/
def DagOp.Unswept : DagOp → Prop
  | .markClean | .go (.sweep _ _) => False
  | _ => True

theorem unswept_of_plain (o : DagOp) (isPlain : o.Plain) : o.Unswept := by
  cases o with
  | markClean | go => exact isPlain.elim
  | _ => trivial

section Rules

variable {net : Net} {task : Task} {α β : Type} {facts : List Fact}

theorem Net.Learns.bind {mid : List Fact → Except String α → Prop} {post : List Fact → Except String β → Prop} {p : DagM α}
    {f : α → DagM β} (first : net.Learns task mid facts p)
    (second : ∀ facts a, mid facts (.ok a) → net.Learns task post facts (f a))
    (failing : ∀ facts e, mid facts (.error e) → post facts (.error e)) : net.Learns task post facts (p >>= f) := by
  refine Always.bind (first.mono (fun _ _ _ _ _ fine => fine) ?_)
  rintro k (e | a) ending
  · exact failing k e ending
  · exact second k a ending

theorem Net.Learns.attempt {mid : List Fact → Except String α → Prop} {p : DagM α} (first : net.Learns task mid facts p) :
    net.Learns task (fun facts out => ∃ result, out = .ok result ∧ mid facts result) facts p.attempt :=
  Always.attempt (first.mono (fun _ _ _ _ _ fine => fine) (fun _ out ending => ⟨out, rfl, ending⟩))

/-- What a program that does not go on with the pass leaves known. -/
theorem Obeys.learns {post : Except String α → Prop} {p : DagM α} (obeys : Obeys net.can DagOp.Unswept post p)
    (facts : List Fact) : net.Learns task (fun facts' out => facts ⊆ facts' ∧ post out) facts p := by
  have general : ∀ now, facts ⊆ now → net.Learns task (fun facts' out => facts ⊆ facts' ∧ post out) now p := by
    induction p with
    | ret a => exact fun now grown => ⟨grown, obeys⟩
    | fail e => exact fun now grown => ⟨grown, obeys⟩
    | op o next ih =>
      intro now grown r possible
      obtain ⟨unswept, rest⟩ := obeys r possible
      refine ⟨?_, ih r rest _ (fun f member => subset_learnt now o r (grown member))⟩
      cases o with
      | markClean => exact unswept.elim
      | go started =>
        cases started with
        | sweep => exact unswept.elim
        | _ => trivial
      | _ => trivial
  exact general facts (fun _ member => member)

end Rules

section Pass

variable {net : Net} {task : Task}

theorem start_learns {session : ℕ} {root : Cid} {rootPrio : ℕ} (nodes : List Cid) (facts : List Fact) :
    net.Learns task (fun facts' out => facts ⊆ facts' ∧ out = .ok () ∧ ∀ n ∈ nodes, .reached n ∈ facts') facts
      (sendNewJobs.start session root rootPrio nodes) := by
  induction nodes generalizing facts with
  | nil => exact ⟨fun _ member => member, rfl, fun _ none => by cases none⟩
  | cons node rest ih =>
    refine Always.step (fun _ _ => ⟨trivial, Always.step (fun _ _ => ⟨trivial, ?_⟩)⟩)
    refine (ih (.reached node :: facts)).mono (fun _ _ _ _ _ fine => fine) ?_
    rintro facts' _ ⟨grown, rfl, reached⟩
    refine ⟨fun f member => grown (List.mem_cons_of_mem _ member), rfl, fun n member => ?_⟩
    rcases List.mem_cons.mp member with rfl | later
    · exact grown (List.mem_cons_self ..)
    · exact reached n later

theorem handleBranch_learns (head cur : Cid) (facts : List Fact) :
    net.Learns task (fun facts' out => facts ⊆ facts' ∧ (out = .ok () → .reached cur ∈ facts')) facts
      (handleBranch net head cur) := by
  have sent : ∀ session now, facts ⊆ now → net.Learns task
      (fun facts' out => facts ⊆ facts' ∧ (out = .ok () → .reached cur ∈ facts')) now
      (sendNewJobs net session head 0 [cur]) := by
    intro session now grown
    have priority : Obeys net.can DagOp.Unswept _ (sendNewJobs.rootPriority net 0 cur) :=
      sendNewJobs_rootPriority_obeys unswept_of_plain 0 cur
    refine (priority.learns now).bind (fun known prio before => ?_)
      (fun known e before => ⟨fun f member => before.1 (grown member), fun ok => by cases ok⟩)
    refine Always.step (fun goodDeltas _ => ⟨trivial, ?_⟩)
    refine (start_learns _ known).bind (fun known' _ started => ?_)
      (fun _ e failed => by obtain ⟨_, no, _⟩ := failed; cases no)
    have clear : Obeys net.can DagOp.Unswept _ (sendNewJobs.clearUp goodDeltas [cur]) :=
      sendNewJobs_clearUp_obeys unswept_of_plain goodDeltas [cur]
    have total : facts ⊆ known' := fun f member => started.1 (before.1 (grown member))
    refine (clear.learns known').bind (fun last _ cleared => ?_)
      (fun _ e failed => by obtain ⟨_, _, no, _⟩ := failed; cases no)
    split
    · rename_i arrived
      exact ⟨fun f member => cleared.1 (total member),
        fun _ => cleared.1 (started.2.2 cur (arrived (List.mem_singleton.mpr rfl)))⟩
    · exact ⟨fun f member => cleared.1 (total member), fun ok => by cases ok⟩
  refine Always.step (fun session _ => ⟨trivial, ?_⟩)
  refine (sent session facts (fun _ member => member)).attempt.bind (fun known out before => ?_)
    (fun _ e failed => by obtain ⟨_, no, _⟩ := failed; cases no)
  obtain ⟨result, same, grown, reached⟩ := before
  cases same
  refine Always.step (fun _ _ => ⟨trivial, ?_⟩)
  cases out with
  | error e => exact ⟨grown, fun ok => by cases ok⟩
  | ok done => exact ⟨grown, fun _ => reached rfl⟩

/-- The links of a node are queued, unless they are banned. -/
theorem enqueue_learns (head : Cid) (links : List Cid) (nodes : List (Cid × Cid)) (queued : List Cid) (facts : List Fact) :
    net.Learns task (fun facts' out => facts ⊆ facts' ∧ ∃ nodes' queued', out = .ok (nodes', queued') ∧
        nodes ⊆ nodes' ∧ queued ⊆ queued' ∧ (∀ l ∈ links, .banned l ∈ facts' ∨ l ∈ queued') ∧
        ∀ q ∈ queued', q ∈ queued ∨ ∃ h, (h, q) ∈ nodes') facts
      (repairDAG.enqueue head links nodes queued) := by
  induction links generalizing nodes queued facts with
  | nil =>
    refine ⟨fun _ member => member, nodes, queued, rfl, fun _ member => member, fun _ member => member, ?_,
      fun q member => Or.inl member⟩
    intro l none
    cases none
  | cons l rest ih =>
    refine Always.step (fun banned _ => ⟨trivial, ?_⟩)
    cases banned with
    | true =>
      refine (ih nodes queued (.banned l :: facts)).mono (fun _ _ _ _ _ fine => fine) ?_
      rintro facts' _ ⟨grown, nodes', queued', rfl, more, kept, linked, waiting⟩
      refine ⟨fun f member => grown (List.mem_cons_of_mem _ member), nodes', queued', rfl, more, kept, ?_, waiting⟩
      intro x member
      rcases List.mem_cons.mp member with rfl | later
      · exact Or.inl (grown (List.mem_cons_self ..))
      · exact linked x later
    | false =>
      rw [if_neg (by decide)]
      split
      · rename_i already
        refine (ih nodes queued facts).mono (fun _ _ _ _ _ fine => fine) ?_
        rintro facts' _ ⟨grown, nodes', queued', rfl, more, kept, linked, waiting⟩
        refine ⟨grown, nodes', queued', rfl, more, kept, ?_, waiting⟩
        intro x member
        rcases List.mem_cons.mp member with rfl | later
        · exact Or.inr (kept already)
        · exact linked x later
      · refine (ih (nodes ++ [(head, l)]) (l :: queued) facts).mono (fun _ _ _ _ _ fine => fine) ?_
        rintro facts' _ ⟨grown, nodes', queued', rfl, more, kept, linked, waiting⟩
        refine ⟨grown, nodes', queued', rfl, fun x member => more (List.mem_append_left _ member),
          fun x member => kept (List.mem_cons_of_mem _ member), ?_, ?_⟩
        · intro x member
          rcases List.mem_cons.mp member with rfl | later
          · exact Or.inr (kept (List.mem_cons_self ..))
          · exact linked x later
        · intro q member
          rcases waiting q member with here | there
          · rcases List.mem_cons.mp here with rfl | old
            · exact Or.inr ⟨head, more (List.mem_append_right _ (List.mem_singleton.mpr rfl))⟩
            · exact Or.inl old
          · exact Or.inr there

/-- One round of a pass: the node is reached and its links are queued. -/
theorem loop_learns {nodes : List (Cid × Cid)} {queued : List Cid} {facts : List Fact} (swept : net.Swept facts nodes queued) :
    net.Learns (.sweep nodes queued) (fun _ _ => True) facts (repairDAG.loop net nodes queued) := by
  cases nodes with
  | nil => exact fun _ _ => ⟨⟨queued, rfl, swept⟩, trivial⟩
  | cons first nodes =>
    obtain ⟨head, cur⟩ := first
    refine Always.step (fun fetched _ => ⟨trivial, ?_⟩)
    cases fetched with
    | false => trivial
    | true =>
      have onward : ∀ now, facts ⊆ now → .reached cur ∈ now → net.Learns (.sweep ((head, cur) :: nodes) queued)
          (fun _ _ => True) now (repairDAG.enqueue head (net.links cur) nodes queued >>= fun out => DagM.go (.sweep out.1 out.2)) := by
        intro now grown reached
        refine (enqueue_learns head (net.links cur) nodes queued now).bind (fun known out after => ?_)
          (fun _ _ _ => trivial)
        obtain ⟨kept, nodes', queued', same, more, wider, linked, waiting⟩ := after
        cases same
        refine fun _ _ => ⟨fun q member => ?_, trivial⟩
        rcases waiting q member with old | there
        · rcases swept q old with ⟨h, here⟩ | ⟨known', links⟩
          · rcases List.mem_cons.mp here with same | later
            · cases same
              exact Or.inr ⟨kept reached, linked⟩
            · exact Or.inl ⟨h, more later⟩
          · refine Or.inr ⟨kept (grown known'), fun l link => ?_⟩
            exact (links l link).imp (fun ban => kept (grown ban)) (fun inside => wider inside)
        · exact Or.inl there
      refine Always.step (fun processed _ => ⟨trivial, ?_⟩)
      cases processed with
      | true => exact onward _ (fun _ member => List.mem_cons_of_mem _ member) (List.mem_cons_self ..)
      | false =>
        exact (handleBranch_learns head cur facts).bind (fun now _ after => onward now after.1 (after.2 rfl))
          (fun _ _ _ => trivial)

end Pass

end OpenTela
