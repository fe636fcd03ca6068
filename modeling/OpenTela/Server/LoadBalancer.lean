import Mathlib.Algebra.Order.Ring.Int
import Mathlib.Data.List.Count
import Mathlib.Logic.Function.Basic

namespace OpenTela

/-- The counters of `shortestQueueLB`, none of them ever above the number of requests that are on. A
peer that is not in the map counts as 0. -/
structure ShortestQueueLB where
  inflight : String → ℤ := fun _ => 0

namespace ShortestQueueLB

/-- A tick of `resetLoop`. -/
def reset (_ : ShortestQueueLB) : ShortestQueueLB := { inflight := fun _ => 0 }

variable (sq : ShortestQueueLB)

/-- The candidates from index `i` on. -/
def pickLoop : List String → ℕ → ℕ → ℤ → ℕ
  | [], _, bestIdx, _ => bestIdx
  | candidate :: rest, i, bestIdx, bestLoad =>
    let load := sq.inflight candidate
    if load < bestLoad then pickLoop rest (i + 1) i load else pickLoop rest (i + 1) bestIdx bestLoad

/-- `none` is the panic on an empty list. -/
def pick : List String → Option ℕ
  | [] => none
  | candidate :: rest => some (pickLoop sq rest 1 0 (sq.inflight candidate))

def onRequestStart (peer : String) : ShortestQueueLB :=
  { inflight := Function.update sq.inflight peer (sq.inflight peer + 1) }

def onRequestEnd (peer : String) : ShortestQueueLB :=
  if 0 < sq.inflight peer then { inflight := Function.update sq.inflight peer (sq.inflight peer - 1) } else sq

end ShortestQueueLB

/-- The first place of the list with the smallest load. -/
def IsFirstMinimal (loads : List ℤ) (i : ℕ) : Prop :=
  ∃ load, loads[i]? = some load ∧ ∀ j other, loads[j]? = some other → load ≤ other ∧ (j < i → load < other)

/-- The requests that are on, by the peers they are on, and the counters kept of them. -/
structure Traffic where
  lb : ShortestQueueLB := {}
  running : List String := []

inductive TrafficAction where
  | start (peer : String)
  | finish (peer : String)
  | reset
  deriving DecidableEq

namespace Traffic

/-- The requests that are on at a peer. -/
def active (t : Traffic) (peer : String) : ℕ := t.running.count peer

/-- A request can only end if it has started and not ended yet. -/
def step (t : Traffic) : TrafficAction → Option Traffic
  | .start peer => some { lb := t.lb.onRequestStart peer, running := peer :: t.running }
  | .finish peer => if peer ∈ t.running then some { lb := t.lb.onRequestEnd peer, running := t.running.erase peer } else none
  | .reset => some { t with lb := t.lb.reset }

def run : List TrafficAction → Traffic → Option Traffic
  | [], t => some t
  | action :: rest, t => (t.step action).bind (run rest)

/-- No counter is negative, or above the number of requests that are on. -/
def Counted (t : Traffic) : Prop := ∀ peer, 0 ≤ t.lb.inflight peer ∧ t.lb.inflight peer ≤ t.active peer

section Steps

variable {t u : Traffic} {action : TrafficAction} {peer : String}

theorem run_append (before after : List TrafficAction) (t : Traffic) :
    run (before ++ after) t = (run before t).bind (run after) := by
  induction before generalizing t with
  | nil => rfl
  | cons action rest ih =>
    simp only [List.cons_append, run]
    cases t.step action with
    | none => rfl
    | some u => exact ih u

/-- What a step does to the counter of a peer, and to the number of requests that are on there. -/
theorem step_counts (stepped : t.step action = some u) (peer : String) :
    action = .start peer ∧ u.lb.inflight peer = t.lb.inflight peer + 1 ∧ u.active peer = t.active peer + 1 ∨
    action = .finish peer ∧ 0 < t.active peer ∧ u.active peer = t.active peer - 1 ∧
      u.lb.inflight peer = (if 0 < t.lb.inflight peer then t.lb.inflight peer - 1 else t.lb.inflight peer) ∨
    action = .reset ∧ u.lb.inflight peer = 0 ∧ u.active peer = t.active peer ∨
    action ≠ .reset ∧ u.lb.inflight peer = t.lb.inflight peer ∧ u.active peer = t.active peer := by
  cases action with
  | start p =>
    cases stepped
    by_cases same : peer = p
    · subst same
      exact Or.inl ⟨rfl, Function.update_self .., List.count_cons_self ..⟩
    · refine Or.inr (Or.inr (Or.inr ⟨nofun, Function.update_of_ne same .., ?_⟩))
      exact List.count_cons_of_ne (Ne.symm same)
  | finish p =>
    simp only [step] at stepped
    split at stepped
    · rename_i on
      cases stepped
      by_cases same : peer = p
      · subst same
        refine Or.inr (Or.inl ⟨rfl, List.count_pos_iff.mpr on, List.count_erase_self .., ?_⟩)
        simp only [ShortestQueueLB.onRequestEnd]
        split
        · exact Function.update_self ..
        · rfl
      · refine Or.inr (Or.inr (Or.inr ⟨nofun, ?_, List.count_erase_of_ne same⟩))
        simp only [ShortestQueueLB.onRequestEnd]
        split
        · exact Function.update_of_ne same ..
        · rfl
    · cases stepped
  | reset =>
    cases stepped
    exact Or.inr (Or.inr (Or.inl ⟨rfl, rfl, rfl⟩))

theorem Counted.step (counted : t.Counted) (stepped : t.step action = some u) : u.Counted := by
  intro peer
  obtain ⟨lower, upper⟩ := counted peer
  rcases step_counts stepped peer with ⟨_, load, on⟩ | ⟨_, some, on, load⟩ | ⟨_, load, on⟩ | ⟨_, load, on⟩
  · omega
  · split at load <;> omega
  · omega
  · omega

theorem Counted.run {actions : List TrafficAction} (counted : t.Counted) (ran : Traffic.run actions t = some u) : u.Counted := by
  induction actions generalizing t with
  | nil =>
    cases ran
    exact counted
  | cons action rest ih =>
    obtain ⟨next, stepped, later⟩ := Option.bind_eq_some_iff.mp ran
    exact ih (counted.step stepped) later

/-- Starts and ends keep an exact counter exact. -/
theorem exact_run {actions : List TrafficAction} (exact : t.lb.inflight peer = t.active peer) (noReset : .reset ∉ actions)
    (ran : Traffic.run actions t = some u) : u.lb.inflight peer = u.active peer := by
  induction actions generalizing t with
  | nil =>
    cases ran
    exact exact
  | cons action rest ih =>
    obtain ⟨next, stepped, later⟩ := Option.bind_eq_some_iff.mp ran
    refine ih ?_ (fun inside => noReset (List.mem_cons_of_mem _ inside)) later
    rcases step_counts stepped peer with ⟨_, load, on⟩ | ⟨_, some, on, load⟩ | ⟨rfl, _⟩ | ⟨_, load, on⟩
    · omega
    · split at load <;> omega
    · exact absurd (List.mem_cons_self ..) noReset
    · omega

end Steps

end Traffic

section Pick

variable {sq : ShortestQueueLB}

/-- The loop keeps the first place with the smallest load of the candidates it has seen. -/
theorem pickLoop_first {seen rest : List String} {bestIdx : ℕ} {bestLoad : ℤ}
    (best : (seen.map sq.inflight)[bestIdx]? = some bestLoad) (first : IsFirstMinimal (seen.map sq.inflight) bestIdx) :
    IsFirstMinimal ((seen ++ rest).map sq.inflight) (sq.pickLoop rest seen.length bestIdx bestLoad) := by
  induction rest generalizing seen bestIdx bestLoad with
  | nil => simpa [ShortestQueueLB.pickLoop] using first
  | cons candidate rest ih =>
    obtain ⟨load, here, minimal⟩ := first
    have load_eq : load = bestLoad := Option.some.inj (here.symm.trans best)
    subst load_eq
    have bound : bestIdx < (seen.map sq.inflight).length := (List.getElem?_eq_some_iff.mp best).1
    have split : ∀ j other, ((seen ++ [candidate]).map sq.inflight)[j]? = some other →
        (seen.map sq.inflight)[j]? = some other ∨ j = seen.length ∧ other = sq.inflight candidate := by
      intro j other at_j
      rw [List.map_append, List.getElem?_append] at at_j
      split at at_j
      · exact Or.inl at_j
      · rename_i past
        rw [List.length_map] at past at_j
        obtain ⟨zero, eq⟩ := List.getElem?_eq_some_iff.mp at_j
        simp only [List.map_cons, List.map_nil, List.length_cons, List.length_nil] at zero
        have place : j = seen.length := by omega
        subst place
        exact Or.inr ⟨rfl, by simpa using eq.symm⟩
    rw [List.length_map] at bound
    rw [List.append_cons, ShortestQueueLB.pickLoop]
    have long : (seen ++ [candidate]).length = seen.length + 1 := List.length_append
    simp only [← long]
    split
    · rename_i smaller
      refine ih (by simp) ⟨sq.inflight candidate, by simp, fun j other at_j => ?_⟩
      rcases split j other at_j with before | ⟨rfl, rfl⟩
      · have above := (minimal j other before).1
        omega
      · exact ⟨le_rfl, fun lt => absurd lt (lt_irrefl _)⟩
    · rename_i notSmaller
      have still : ((seen ++ [candidate]).map sq.inflight)[bestIdx]? = some load := by
        rw [List.map_append, List.getElem?_append_left (by simpa using bound)]
        exact best
      refine ih still ⟨load, still, fun j other at_j => ?_⟩
      rcases split j other at_j with before | ⟨rfl, rfl⟩
      · exact minimal j other before
      · omega

theorem pick_first {candidates : List String} (some : candidates ≠ []) :
    ∃ i, sq.pick candidates = .some i ∧ IsFirstMinimal (candidates.map sq.inflight) i := by
  cases candidates with
  | nil => exact absurd rfl some
  | cons candidate rest =>
    refine ⟨_, rfl, ?_⟩
    have alone : IsFirstMinimal ([candidate].map sq.inflight) 0 := by
      refine ⟨sq.inflight candidate, rfl, fun j other at_j => ?_⟩
      cases j with
      | zero =>
        cases at_j
        exact ⟨le_rfl, fun lt => absurd lt (lt_irrefl _)⟩
      | succ j => simp at at_j
    have one : ([candidate].map sq.inflight)[0]? = .some (sq.inflight candidate) := rfl
    exact pickLoop_first one alone

end Pick

/-- However starts, ends and resets interleave, a counter lies between 0 and the number of requests
that are on at the peer, and is that number if there was no reset since the peer last had none;
and the balancer picks the first of the candidates with the smallest counter. -/
theorem shortestQueue_counters :
    (∀ actions t, Traffic.run actions {} = some t → ∀ peer, 0 ≤ t.lb.inflight peer ∧ t.lb.inflight peer ≤ t.active peer) ∧
    (∀ before after idle t peer, Traffic.run before {} = some idle → idle.active peer = 0 → TrafficAction.reset ∉ after →
      Traffic.run (before ++ after) {} = some t → t.lb.inflight peer = t.active peer) ∧
    ∀ (sq : ShortestQueueLB) candidates, candidates ≠ [] →
      ∃ i, sq.pick candidates = some i ∧ IsFirstMinimal (candidates.map sq.inflight) i := by
  have counted : ∀ actions t, Traffic.run actions {} = some t → t.Counted := fun actions t ran =>
    Traffic.Counted.run (fun peer => ⟨le_rfl, le_rfl⟩) ran
  refine ⟨counted, fun before after idle t peer ran none noReset ran' => ?_, fun sq candidates some => pick_first some⟩
  rw [Traffic.run_append, ran] at ran'
  have zero : idle.lb.inflight peer = idle.active peer := by
    have := counted before idle ran peer
    omega
  exact Traffic.exact_run zero noReset ran'

/-- Two requests with a reset between them: after the first end the counter is 0, with one request
still on, and after the second it is right again. -/
theorem shortestQueue_counters_reset :
    (∃ t, Traffic.run [.start "a", .reset, .start "a", .finish "a"] {} = some t ∧ t.lb.inflight "a" = 0 ∧ t.active "a" = 1 ∧
      t.lb.inflight "a" ≤ t.active "a") ∧
    ∃ t, Traffic.run ([.start "a", .reset, .start "a", .finish "a", .finish "a"] ++ [.start "a"]) {} = some t ∧ t.active "a" = 1 ∧
      t.lb.inflight "a" = t.active "a" := by
  refine ⟨⟨_, rfl, by decide, by decide, (shortestQueue_counters.1 [.start "a", .reset, .start "a", .finish "a"] _ rfl "a").2⟩,
    ⟨_, rfl, by decide, ?_⟩⟩
  exact shortestQueue_counters.2.1 [.start "a", .reset, .start "a", .finish "a", .finish "a"] [.start "a"] _ _ "a" rfl rfl
    (by decide) rfl

end OpenTela
