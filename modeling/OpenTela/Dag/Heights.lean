import OpenTela.Dag.Heads

namespace OpenTela

open Prog

/-- The steps of runs in which every walk opened for a head starts at that head. `handleBlock`
always does so; a repair pass does when no block below a head is unprocessed. -/
def RepairsHeads (_ : Crew) (_ : ℕ) (_ : Task) (o : DagOp) (r : o.Res) : Prop := WalksOwn o r

/-- The heights are true, and nothing that is under way will write a false one. -/
structure Level (net : Net) (c : Crew) : Prop where
  sturdy : Sturdy net c
  truth : HeightsTrue net c.state.heads
  threads : ∀ t ∈ c.threads, Obeys net.canOwn net.Fit (fun _ => True) t.prog

section Runs

variable {net : Net} {meets : Crew → ℕ → Task → (o : DagOp) → o.Res → Prop} {c d : Crew}

theorem Level.fresh : Level net Crew.fresh where
  sturdy := .fresh
  truth := fun _ _ none => by cases none
  threads := fun _ none => by cases none

/-- One step keeps the heights true, and each head stays at or below a head. -/
theorem Level.step (honest : net.Honest) (own : ∀ c i task o r, meets c i task o r → WalksOwn o r) (level : Level net c)
    (step : Crew.Step net.system meets c d) :
    Level net d ∧ ∀ h height, c.state.heads.lookup h = some height →
      ∃ h' height', d.state.heads.lookup h' = some height' ∧ net.Below h h' := by
  have sturdy := level.sturdy.step step
  cases step with
  | enter task outside =>
    refine ⟨⟨sturdy, level.truth, Crew.always_enter (net.body_fit honest ?_) level.threads⟩,
      fun h height found => ⟨h, height, found, .refl net h⟩⟩
    cases task with
    | job => cases outside
    | _ => trivial
  | @act i choice task o next r s present executed meeting =>
    have answered : net.canOwn o r := ⟨Net.exec_can level.sturdy.decodes executed, own _ _ _ _ _ meeting⟩
    have started : net.Fit o → ∀ t ∈ o.starts, Obeys net.canOwn net.Fit (fun _ => True) (net.body t) := by
      intro fit t member
      cases o with
      | go t' =>
        obtain rfl := List.mem_singleton.mp member
        exact net.body_fit honest fit
      | _ => cases member
    obtain ⟨fit, threads⟩ := Crew.always_after net.system present answered started level.threads
    obtain ⟨truth, matched⟩ := fit.heads level.truth executed
    exact ⟨⟨sturdy, truth, threads⟩, matched⟩

theorem Level.reach (honest : net.Honest) (own : ∀ c i task o r, meets c i task o r → WalksOwn o r)
    (level : Level net c) (reach : Crew.Reach net.system meets c d) :
    Level net d ∧ maxHeight c.state.heads ≤ maxHeight d.state.heads := by
  induction reach with
  | start => exact ⟨level, Nat.le_refl _⟩
  | next _ step ih =>
    obtain ⟨before, bound⟩ := ih
    obtain ⟨after, matched⟩ := before.step honest own step
    refine ⟨after, bound.trans (maxHeight_le (fun h height found => ?_))⟩
    obtain ⟨h', height', found', below⟩ := matched h height found
    refine ⟨h', height', found', ?_⟩
    rw [before.truth h height found, after.truth h' height' found']
    exact honest.priority_le below

end Runs

/-- Head heights are true and never regress, in every run whose repairs walk only from
heads themselves. -/
theorem head_heights {net : Net} (honest : net.Honest) {c : Crew} (reach : Crew.Reach net.system RepairsHeads Crew.fresh c) :
    HeightsTrue net c.state.heads ∧
      ∀ d, Crew.Reach net.system RepairsHeads c d → maxHeight c.state.heads ≤ maxHeight d.state.heads := by
  have level := (Level.fresh.reach honest (fun _ _ _ _ _ own => own) reach).1
  exact ⟨level.truth, fun d later => (level.reach honest (fun _ _ _ _ _ own => own) later).2⟩

namespace Chain

/-- Three blocks, each on top of the one before. -/
def block : Cid → Block
  | "a" => ⟨.of [] [] 1, []⟩
  | "b" => ⟨.of [] [] 2, ["a"]⟩
  | "c" => ⟨.of [] [] 3, ["b"]⟩
  | _ => ⟨.of [] [] 0, []⟩

def net : Net := .plain block

theorem honest : net.Honest where
  higher := by
    intro c l member
    simp only [Net.links, Net.priority, net, Net.plain, block] at member ⊢
    split at member
    · cases member
    · obtain rfl := List.mem_singleton.mp member
      decide
    · obtain rfl := List.mem_singleton.mp member
      decide
    · cases member

abbrev Move := Crew.Move Choice Task

/-- The moves of one thread; the children it asks for arrive if they are among these. -/
def moves (i n : ℕ) (arrived : List Cid) : List Move := List.replicate n (.act i { arrived })

/-- A broadcast of `c` on a new replica: `c` becomes a head, is fetched and merged, and the
fetch of `b` fails. -/
def cutOff : List Move :=
  .enter (.receive ["c"]) :: (moves 0 6 [] ++ moves 1 8 ["c"] ++ moves 2 14 [] ++ moves 1 2 [])

/-- The repair that follows: it walks from `c`, finds `b` unprocessed and fetches it. -/
def repaired : List Move :=
  .enter .repairTimer :: (moves 3 5 [] ++ moves 4 6 [] ++ moves 5 10 ["b"] ++ moves 6 14 ["a"] ++ moves 7 14 [])

/-- Walks from a head itself. -/
def own (_ : Task) : DagOp → Bool
  | .branch head c => head == c
  | _ => true

theorem own_meets (c : Crew) (i : ℕ) (task : Task) (o : DagOp) (r : o.Res) (allowed : own task o = true) :
    RepairsHeads c i task o r := by
  cases o with
  | branch head c => exact beq_iff_eq.mp allowed
  | _ => trivial

end Chain

set_option maxRecDepth 4000 in
/-- After the broadcast and the failed fetch the head `c` has its own height, and whatever
follows without a repair below it keeps the maximum. -/
theorem head_heights_cut_off :
    (Crew.fresh.play Chain.net.system Chain.own Chain.cutOff).state.heads.lookup "c" = some 3 ∧
      HeightsTrue Chain.net (Crew.fresh.play Chain.net.system Chain.own Chain.cutOff).state.heads ∧
      ∀ d, Crew.Reach Chain.net.system RepairsHeads (Crew.fresh.play Chain.net.system Chain.own Chain.cutOff) d →
        maxHeight (Crew.fresh.play Chain.net.system Chain.own Chain.cutOff).state.heads ≤ maxHeight d.state.heads :=
  ⟨by decide, head_heights Chain.honest (.of_play Chain.own Chain.own_meets Chain.cutOff .start)⟩

set_option maxRecDepth 8000 in
/-- The repair gives the head `c` the height of `b`, and the maximum falls from 3 to 2. -/
theorem head_heights_regress : ¬ ∀ net : Net, net.Honest → ∀ c, Crew.Reach net.system Crew.Anyhow Crew.fresh c →
    HeightsTrue net c.state.heads ∧
      ∀ d, Crew.Reach net.system Crew.Anyhow c d → maxHeight c.state.heads ≤ maxHeight d.state.heads := by
  intro always
  have first : Crew.Reach Chain.net.system Crew.Anyhow Crew.fresh
      (Crew.fresh.play Chain.net.system (fun _ _ => true) Chain.cutOff) :=
    .of_play _ (fun _ _ _ _ _ _ => trivial) Chain.cutOff .start
  have lower := (always Chain.net Chain.honest _ first).2 _
    (.of_play (fun _ _ => true) (fun _ _ _ _ _ _ => trivial) Chain.repaired .start)
  have before : maxHeight (Crew.fresh.play Chain.net.system (fun _ _ => true) Chain.cutOff).state.heads = 3 := by decide
  have after : maxHeight ((Crew.fresh.play Chain.net.system (fun _ _ => true) Chain.cutOff).play Chain.net.system
      (fun _ _ => true) Chain.repaired).state.heads = 2 := by decide
  omega

end OpenTela
