import OpenTela.Dag.Tracked

namespace OpenTela

open Prog

/-- Tasks other than a pass itself begin without having found out anything. -/
theorem Net.body_learns {net : Net} {task : Task} (other : ∀ nodes queued, task ≠ .sweep nodes queued) :
    net.Learns task (fun _ _ => True) [] (net.body task) := by
  have possible : ∀ (o : DagOp) (r : o.Res), net.can o r → net.can o r := fun _ _ answered => answered
  have learns : ∀ {p : DagM Unit}, Obeys net.can DagOp.Unswept (fun _ => True) p → net.Learns task (fun _ _ => True) [] p :=
    fun obeys => (obeys.learns []).mono (fun _ _ _ _ _ fine => fine) (fun _ _ _ => trivial)
  have published : ∀ elements tombstones, Obeys net.can DagOp.Unswept (fun _ => True) (publish net elements tombstones) :=
    fun _ _ => publish_obeys possible unswept_of_plain (fun _ _ => trivial) (fun _ => trivial) (fun _ => trivial) (fun _ => trivial)
      (fun _ _ _ => trivial) (fun _ _ _ => trivial)
  -- A pass starts with the heads waiting.
  have repairs : ∀ facts, net.Learns task (fun _ _ => True) facts repairDAG := by
    intro facts
    refine Always.step (fun listed _ => ⟨trivial, ?_⟩)
    obtain ⟨heads, height⟩ := listed
    refine ((repairDAG_unbanned_obeys unswept_of_plain heads).learns facts).bind (fun known nodes _ => ?_) (fun _ _ _ => trivial)
    exact fun _ _ => ⟨fun q member => Or.inl ⟨q, List.mem_map_of_mem member⟩, trivial⟩
  cases task with
  | receive heads => exact learns (handleNext_obeys unswept_of_plain heads (fun _ => trivial) (fun _ => trivial))
  | head c => exact learns (processHead_obeys possible unswept_of_plain trivial (fun _ => trivial))
  | job session root rootPrio node =>
    exact learns (dagWorker_obeys possible unswept_of_plain (fun _ _ => trivial) trivial trivial trivial (fun _ _ => trivial)
      (fun _ _ => trivial) trivial (fun _ _ _ _ => trivial))
  | repairTimer =>
    refine Always.step (fun dirty _ => ⟨trivial, ?_⟩)
    cases dirty with
    | true => exact repairs _
    | false => trivial
  | repairCall => exact repairs []
  | sweep nodes queued => exact absurd rfl (other nodes queued)
  | put key value => exact learns (published _ _)
  | delete key =>
    refine learns ((set_obeys possible (fun _ _ => trivial) (rmv_sound key)).next (fun tombstones _ => ?_))
    split
    · exact Obeys.ret trivial
    · exact published _ _

section Step

variable {net : Net} {c d : Crew}

theorem Upheld.fresh : Upheld net Crew.fresh where
  sturdy := .fresh
  tracked := fun _ none => absurd none (Finset.notMem_empty _)
  queued := fun _ none => absurd none (Finset.notMem_empty _)
  tidy := fun _ none => by cases none
  learns := fun _ none => by cases none

theorem Upheld.enter (kept : Upheld net c) {task : Task} (outside : task.outside = true) :
    Upheld net ⟨c.state, c.threads ++ [net.system.start task]⟩ where
  sturdy := ⟨kept.sturdy.decodes, Crew.always_enter (net.body_sound task) kept.sturdy.threads⟩
  tracked := fun p processed l link => (kept.tracked p processed l link).mono
    (fun t member => List.mem_append_left _ member) subset_rfl subset_rfl (fun dirty => dirty) (fun member => member)
  queued := kept.queued
  tidy := by
    intro t member
    rcases List.mem_append.mp member with old | new
    · exact kept.tidy t old
    · rw [List.mem_singleton.mp new]
      exact ⟨none, by simp, net.body_tidy task⟩
  learns := by
    intro t member
    rcases List.mem_append.mp member with old | new
    · obtain ⟨facts, holds, learns⟩ := kept.learns t old
      refine ⟨facts, fun f known => ?_, learns⟩
      cases f with
      | banned x => exact holds _ known
      | reached x =>
        refine (holds _ known).imp_right ?_
        rintro ⟨t', present, rest⟩
        exact ⟨t', List.mem_append_left _ present, rest⟩
    · rw [List.mem_singleton.mp new]
      refine ⟨[], by simp, net.body_learns (fun nodes queued same => ?_)⟩
      obtain rfl : task = .sweep nodes queued := same
      cases outside

variable {i : ℕ} {choice : Choice} {task : Task} {o : DagOp} {next : o.Res → DagM Unit} {r : o.Res} {s : Replica}

theorem Upheld.tracked_step (kept : Upheld net c) (present : c.threads[i]? = some ⟨task, .op o next⟩)
    (executed : net.exec i choice o c.state = some (r, s)) (meets : KeepsTrack net c i task o r) {l : Cid}
    (linked : ∃ p ∈ c.state.processed, l ∈ net.links p) :
    net.Tracked (stepped net c i s task o (next r)).threads s l := by
  have tracked : net.Tracked c.threads c.state l := by
    obtain ⟨p, processed, link⟩ := linked
    exact kept.tracked p processed l link
  cases o with
  | markClean =>
    obtain ⟨_, rfl⟩ := Prod.mk.inj (Option.some.inj executed)
    exact kept.tracked_clean present meets linked
  | visit x =>
    by_cases same : x = l
    · subst same
      exact kept.tracked_visit present executed meets tracked
    · exact kept.tracked_plain present executed tracked (by simp) (by simpa using same) (fun no => by cases no)
  | recordFailure x =>
    refine kept.tracked_plain present executed tracked (by simp) (by simp) (fun same => ?_)
    cases same
    exact tracked_failure executed meets linked
  | _ => exact kept.tracked_plain present executed tracked (by simp) (by simp) (fun no => by cases no)

theorem Upheld.step (kept : Upheld net c) (step : Crew.Step net.system (KeepsTrack net) c d) : Upheld net d := by
  have sturdy := kept.sturdy.step step
  cases step with
  | enter task outside => exact kept.enter outside
  | @act i choice task o next r s present executed meets =>
    have advance := Net.exec_advance executed
    have tracks : ∀ {l}, (∃ p ∈ c.state.processed, l ∈ net.links p) →
        net.Tracked (stepped net c i s task o (next r)).threads s l := fun linked =>
      kept.tracked_step present executed meets linked
    have stays : ∀ f : Fact, f.Holds net c → f.Holds net (stepped net c i s task o (next r)) :=
      fun f holds => kept.facts present executed holds
    obtain ⟨node, nodeProcessed, tidy⟩ := kept.tidy _ (List.mem_of_getElem? present)
    obtain ⟨facts, holds, learns⟩ := kept.learns _ (List.mem_of_getElem? present)
    obtain ⟨neat, tidyRest⟩ := tidy r (kept.answered executed)
    obtain ⟨thorough, learnsRest⟩ := learns r (kept.answered executed)
    refine ⟨sturdy, fun p processed l link => ?_, fun l reserved => ?_, fun t member => ?_, fun t member => ?_⟩
    · rcases advance.marked p processed with old | rfl
      · exact tracks ⟨p, old, link⟩
      · obtain ⟨_, walks, coming⟩ := neat
        by_cases reserved : l ∈ s.queuedChildren
        · have before : l ∈ c.state.queuedChildren := (advance.queued l reserved).resolve_right (by simp)
          exact tracks (kept.queued l before)
        · exact Or.inr (Or.inr (Or.inr ⟨_, Crew.moved_mem present, walks, Or.inr ⟨reserved, coming l link⟩⟩))
    · rcases advance.queued l reserved with old | rfl
      · obtain ⟨p, processed, link⟩ := kept.queued l old
        exact ⟨p, advance.processed processed, link⟩
      · obtain ⟨_, ⟨p, here, link⟩, _⟩ := neat
        exact ⟨p, advance.processed (nodeProcessed p here), link⟩
    · rcases Crew.mem_after present member with rfl | old | new
      · refine ⟨marked node o r, fun p here => ?_, tidyRest⟩
        cases o with
        | markProcessed x =>
          obtain rfl : x = p := Option.some.inj here
          obtain ⟨_, rfl⟩ := Prod.mk.inj (Option.some.inj executed)
          exact Finset.mem_insert_self _ _
        | _ => exact advance.processed (nodeProcessed p here)
      · obtain ⟨node', nodeProcessed', tidy'⟩ := kept.tidy t old
        exact ⟨node', fun p here => advance.processed (nodeProcessed' p here), tidy'⟩
      · obtain ⟨started, _, rfl⟩ := List.mem_map.mp new
        exact ⟨none, by simp, net.body_tidy started⟩
    · rcases Crew.mem_after present member with rfl | old | new
      · refine ⟨learnt facts o r, fun f known => ?_, learnsRest⟩
        rcases learnt_holds present executed known with before | now
        · exact stays f (holds f before)
        · exact now
      · obtain ⟨facts', holds', learns'⟩ := kept.learns t old
        exact ⟨facts', fun f known => stays f (holds' f known), learns'⟩
      · obtain ⟨started, here, rfl⟩ := List.mem_map.mp new
        cases o with
        | go other =>
          obtain rfl := List.mem_singleton.mp here
          cases started with
          | sweep nodes queued =>
            exact ⟨facts, fun f known => stays f (holds f known), loop_learns thorough⟩
          | _ => exact ⟨[], by simp, net.body_learns (fun _ _ no => by cases no)⟩
        | _ => cases here

end Step

/-- No job is in flight, and no head or local write is being worked on. -/
def NoJobs (c : Crew) : Prop := ∀ t ∈ c.threads, t.task.walks = true → t.prog.Ended

instance (c : Crew) : Decidable (NoJobs c) :=
  inferInstanceAs (Decidable (∀ t ∈ c.threads, t.task.walks = true → t.prog.Ended))

/-- Repair is complete, in every run that loses sight of no link. -/
theorem repair_complete {net : Net} {c : Crew} (reach : Crew.Reach net.system (KeepsTrack net) Crew.fresh c)
    (idle : NoJobs c) (clean : c.state.dirty = false) :
    ∀ p ∈ c.state.processed, ∀ l ∈ net.links p, l ∈ c.state.processed ∨ l ∈ c.state.banned := by
  have kept : Upheld net c := by
    clear idle clean
    induction reach with
    | start => exact .fresh
    | next _ step ih => exact ih.step step
  intro p processed l link
  rcases kept.tracked p processed l link with done | ban | dirty | ⟨t, member, walks, fetching | ⟨_, coming⟩⟩
  · exact Or.inl done
  · exact Or.inr ban
  · rw [clean] at dirty
    cases dirty
  · exact absurd (idle t member walks) fetching.not_ended
  · exact absurd (idle t member walks) coming.not_ended

namespace Fork

/-- The block of a local write, and a branch of two blocks from elsewhere. -/
def block : Cid → Block
  | "l" => ⟨.of [{ key := ["k"], value := [7] }] [] 1, []⟩
  | "m" => ⟨.of [] [] 1, []⟩
  | "r" => ⟨.of [] [] 2, ["m"]⟩
  | _ => ⟨.of [] [] 0, []⟩

def net : Net := .plain block

abbrev Move := Crew.Move Choice Task

def moves (i n : ℕ) (arrived : List Cid) : List Move := List.replicate n (.act i { arrived, cid := "l" })

/-- A local write; then `r` is received and merged, and the fetch of `m` fails. -/
def cutOff : List Move :=
  .enter (.put ["k"] [7]) :: (moves 0 20 [] ++ .enter (.receive ["r"]) :: (moves 1 3 [] ++ moves 2 9 ["r"] ++
    moves 3 20 [] ++ moves 2 3 []))

/-- The pass that follows visits `l` only. -/
def repaired : List Move := .enter .repairTimer :: (moves 4 6 [] ++ moves 5 4 [] ++ moves 6 2 [])

def failing (i n : ℕ) : List Move := List.replicate n (.act i { ok := false })

/-- A broadcast of a block that cannot be fetched; then `r` is received by the new replica and
merged, and the fetch of `m` fails. -/
def broken : List Move :=
  .enter (.receive ["x"]) :: (failing 0 5 ++ failing 1 6) ++
    .enter (.receive ["r"]) :: (moves 2 5 [] ++ moves 3 7 ["r"] ++ moves 4 20 [] ++ moves 3 3 [])

/-- The pass that follows comes to both blocks. -/
def mended : List Move :=
  broken ++ .enter .repairTimer ::
    (moves 5 4 [] ++ moves 6 4 [] ++ moves 7 9 ["m"] ++ moves 8 20 [] ++ moves 7 3 [] ++ moves 9 1 [])

def play (schedule : List Move) : Crew := Crew.fresh.play net.system (fun _ _ => true) schedule

/-- A pass comes to every block with links, nothing links to a head that is given up, and
local writes reserve no block. -/
def watchful (c : Crew) (_ : ℕ) (task : Task) : DagOp → Bool
  | .markClean => decide (∀ p ∈ c.state.processed, ∀ l ∈ net.links p, p ∈ task.walked)
  | .recordFailure l => decide (∀ p ∈ c.state.processed, l ∉ net.links p)
  | .visit _ => !task.writes
  | _ => true

theorem watchful_meets (c : Crew) (i : ℕ) (task : Task) (o : DagOp) (r : o.Res) (fine : watchful c i task o = true) :
    KeepsTrack net c i task o r := by
  cases o with
  | markClean => exact fun p processed l link => Or.inl (of_decide_eq_true fine p processed l link)
  | recordFailure l =>
    rintro ⟨p, processed, link⟩
    exact absurd link (of_decide_eq_true fine p processed)
  | visit l =>
    intro writes
    simp [watchful, writes] at fine
  | _ => trivial

end Fork

set_option maxRecDepth 8000 in
/-- Two fetches fail, the second of which leaves the store dirty with `m` missing; the pass fetches
it, and clears the dirty bit. -/
theorem repair_complete_mended :
    ((Fork.play Fork.broken).state.dirty = true ∧ "r" ∈ (Fork.play Fork.broken).state.processed ∧
      "m" ∉ (Fork.play Fork.broken).state.processed ∧ (Fork.play Fork.broken).state.failures.lookup "x" = some 2) ∧
    ("m" ∈ (Fork.play Fork.mended).state.processed ∨ "m" ∈ (Fork.play Fork.mended).state.banned) :=
  ⟨by decide, repair_complete (.of_checked Fork.watchful Fork.watchful_meets Fork.mended (by decide) .start)
    (by decide) (by decide) "r" (by decide) "m" (by decide)⟩

set_option maxRecDepth 8000 in
/-- The walk from `r` stopped before `r` became a head, so the pass does not come to it, and
clears the dirty bit all the same. -/
theorem repair_incomplete : ¬ ∀ (net : Net) (c : Crew), Crew.Reach net.system Crew.Anyhow Crew.fresh c → NoJobs c →
    c.state.dirty = false →
    ∀ p ∈ c.state.processed, ∀ l ∈ net.links p, l ∈ c.state.processed ∨ l ∈ c.state.banned := by
  intro always
  have missing := always Fork.net _ (.of_play (fun _ _ => true) (fun _ _ _ _ _ _ => trivial)
    (Fork.cutOff ++ Fork.repaired) .start) (by decide) (by decide) "r" (by decide) "m" (by decide)
  revert missing
  decide

end OpenTela
