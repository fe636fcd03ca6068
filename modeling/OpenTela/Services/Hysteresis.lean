import OpenTela.Services.Advertising

namespace OpenTela

/-- The actions on a sequence of health checks, and the state that is left. -/
def observeAll (threshold : ℤ) (results : List Bool) : List ServiceHealthAction × ServiceHealthState :=
  results.foldl (fun out healthy => (out.1 ++ [(out.2.observe healthy threshold).1], (out.2.observe healthy threshold).2)) ([], {})

/-- The actions that change the advertisement. -/
def changes (actions : List ServiceHealthAction) : List ServiceHealthAction :=
  actions.filter (fun
    | .noop => false
    | _ => true)

/-- The last change was a withdrawal. -/
def Withdrawn (actions : List ServiceHealthAction) : Prop := (changes actions).getLast? = some .withdraw

/-- The failures at the end. -/
def consecutiveFailures (results : List Bool) : ℕ := (results.reverse.takeWhile (fun healthy => !healthy)).length

/-- Withdraw first, then restore, and so on. -/
def Alternating (actions : List ServiceHealthAction) : Prop :=
  ∀ i action, actions[i]? = some action → action = if i % 2 = 0 then .withdraw else .restore

theorem observeAll_append (threshold : ℤ) (results : List Bool) (healthy : Bool) :
    observeAll threshold (results ++ [healthy]) =
      ((observeAll threshold results).1 ++ [((observeAll threshold results).2.observe healthy threshold).1],
        ((observeAll threshold results).2.observe healthy threshold).2) := by
  simp only [observeAll, List.foldl_append, List.foldl_cons, List.foldl_nil]

theorem observeAll_length (threshold : ℤ) (results : List Bool) : (observeAll threshold results).1.length = results.length := by
  induction results using List.reverseRecOn with
  | nil => rfl
  | append_singleton results healthy ih => simp only [observeAll_append, List.length_append, ih, List.length_singleton]

theorem consecutiveFailures_healthy (results : List Bool) : consecutiveFailures (results ++ [true]) = 0 := by
  simp [consecutiveFailures]

theorem consecutiveFailures_failed (results : List Bool) :
    consecutiveFailures (results ++ [false]) = consecutiveFailures results + 1 := by
  simp [consecutiveFailures]

section Changes

variable {actions : List ServiceHealthAction}

theorem changes_noop : changes (actions ++ [.noop]) = changes actions := by
  simp [changes]

theorem changes_withdraw : changes (actions ++ [.withdraw]) = changes actions ++ [.withdraw] := by
  simp [changes]

theorem changes_restore : changes (actions ++ [.restore]) = changes actions ++ [.restore] := by
  simp [changes]

theorem Alternating.append {action : ServiceHealthAction} (alternating : Alternating actions)
    (next : action = if actions.length % 2 = 0 then .withdraw else .restore) : Alternating (actions ++ [action]) := by
  intro i found at_i
  rw [List.getElem?_append] at at_i
  split at at_i
  · exact alternating i found at_i
  · rename_i beyond
    rw [List.getElem?_singleton] at at_i
    split at at_i
    · rename_i last
      cases at_i
      have here : i = actions.length := by omega
      rw [here]
      exact next
    · cases at_i

end Changes

/-- The state of the tracker, read off the checks and the actions up to now. -/
structure ServiceHealthState.Tracks (threshold : ℤ) (results : List Bool) (actions : List ServiceHealthAction)
    (s : ServiceHealthState) : Prop where
  failures : s.failures = consecutiveFailures results
  withdrawn : s.withdrawn = true ↔ Withdrawn actions
  below : s.withdrawn = false → s.failures < threshold
  alternating : Alternating (changes actions)
  parity : (changes actions).length % 2 = if s.withdrawn then 1 else 0

namespace ServiceHealthState.Tracks

variable {threshold : ℤ} {results : List Bool} {actions : List ServiceHealthAction} {s : ServiceHealthState}

/-- When an action is taken. -/
theorem observe_iff (tracks : s.Tracks threshold results actions) (positive : 1 ≤ threshold) (healthy : Bool) :
    ((s.observe healthy threshold).1 = .withdraw ↔
      ¬ Withdrawn actions ∧ (consecutiveFailures (results ++ [healthy]) : ℤ) = threshold) ∧
    ((s.observe healthy threshold).1 = .restore ↔ healthy = true ∧ Withdrawn actions) := by
  have count := tracks.failures
  rw [← tracks.withdrawn]
  cases healthy with
  | true =>
    rw [consecutiveFailures_healthy]
    have unreached : ¬ 0 = threshold := by omega
    cases out : s.withdrawn with
    | true => simp [observe, out]
    | false => simp [observe, out, unreached]
  | false =>
    rw [consecutiveFailures_failed, Nat.cast_succ, ← count]
    cases out : s.withdrawn with
    | true => simp [observe, out]
    | false =>
      have below := tracks.below out
      by_cases more : s.failures + 1 < threshold
      · have unreached : s.failures + 1 ≠ threshold := by omega
        simp [observe, out, more, unreached]
      · have reached : s.failures + 1 = threshold := by omega
        simp [observe, out, reached]

theorem observe (tracks : s.Tracks threshold results actions) (positive : 1 ≤ threshold) (healthy : Bool) :
    (s.observe healthy threshold).2.Tracks threshold (results ++ [healthy]) (actions ++ [(s.observe healthy threshold).1]) := by
  have parity := tracks.parity
  cases healthy with
  | true =>
    cases out : s.withdrawn with
    | true =>
      rw [out, if_pos rfl] at parity
      have acted : s.observe true threshold = (.restore, { failures := 0, withdrawn := false }) := by
        simp [ServiceHealthState.observe, out]
      rw [acted]
      refine ⟨by rw [consecutiveFailures_healthy]; rfl, ?_, fun _ => positive, ?_, ?_⟩
      · simp [Withdrawn, changes_restore]
      · rw [changes_restore]
        refine tracks.alternating.append ?_
        rw [if_neg (by omega)]
      · rw [changes_restore, List.length_append, List.length_singleton, if_neg Bool.false_ne_true]
        omega
    | false =>
      have acted : s.observe true threshold = (.noop, { s with failures := 0 }) := by
        simp [ServiceHealthState.observe, out]
      rw [acted]
      refine ⟨by rw [consecutiveFailures_healthy]; rfl, ?_, fun _ => positive, ?_, ?_⟩
      · rw [Withdrawn, changes_noop]
        exact tracks.withdrawn
      · rw [changes_noop]
        exact tracks.alternating
      · rw [changes_noop]
        exact parity
  | false =>
    have count : s.failures + 1 = (consecutiveFailures (results ++ [false]) : ℤ) := by
      rw [consecutiveFailures_failed, tracks.failures, Nat.cast_succ]
    by_cases holds : s.withdrawn = true ∨ s.failures + 1 < threshold
    · have acted : s.observe false threshold = (.noop, { s with failures := s.failures + 1 }) := by
        rcases holds with out | more
        · simp [ServiceHealthState.observe, out]
        · simp [ServiceHealthState.observe, more]
      rw [acted]
      refine ⟨count, ?_, fun advertised => ?_, ?_, ?_⟩
      · rw [Withdrawn, changes_noop]
        exact tracks.withdrawn
      · rcases holds with out | more
        · exact Bool.noConfusion (out.symm.trans advertised)
        · exact more
      · rw [changes_noop]
        exact tracks.alternating
      · rw [changes_noop]
        exact parity
    · obtain ⟨advertised, many⟩ := not_or.mp holds
      have out : s.withdrawn = false := Bool.eq_false_iff.mpr advertised
      rw [out, if_neg Bool.false_ne_true] at parity
      have acted : s.observe false threshold = (.withdraw, { failures := s.failures + 1, withdrawn := true }) := by
        simp [ServiceHealthState.observe, out, many]
      rw [acted]
      refine ⟨count, ?_, fun advertised => Bool.noConfusion advertised, ?_, ?_⟩
      · simp [Withdrawn, changes_withdraw]
      · rw [changes_withdraw]
        refine tracks.alternating.append ?_
        rw [if_pos parity]
      · rw [changes_withdraw, List.length_append, List.length_singleton, if_pos rfl]
        omega

end ServiceHealthState.Tracks

theorem observeAll_tracks {threshold : ℤ} (positive : 1 ≤ threshold) (results : List Bool) :
    (observeAll threshold results).2.Tracks threshold results (observeAll threshold results).1 := by
  induction results using List.reverseRecOn with
  | nil =>
    refine ⟨rfl, ?_, fun _ => positive, fun i action none => ?_, rfl⟩
    · simp [observeAll, Withdrawn, changes]
    · simp [observeAll, changes] at none
  | append_singleton results healthy ih =>
    rw [observeAll_append]
    exact ih.observe positive healthy

/-- The actions on the checks so far are the first of the actions on all of them. -/
theorem observeAll_at (threshold : ℤ) (before after : List Bool) (healthy : Bool) :
    (observeAll threshold (before ++ healthy :: after)).1[before.length]? =
      some ((observeAll threshold before).2.observe healthy threshold).1 := by
  induction after using List.reverseRecOn with
  | nil =>
    rw [observeAll_append, ← observeAll_length threshold before]
    exact List.getElem?_concat_length
  | append_singleton after last ih =>
    have earlier : before.length < (observeAll threshold (before ++ healthy :: after)).1.length := by
      rw [observeAll_length, List.length_append, List.length_cons]
      omega
    rw [← List.cons_append, ← List.append_assoc, observeAll_append, List.getElem?_append_left earlier]
    exact ih

/-- The advertisement is withdrawn and restored in turn: withdrawn at the failure with which as many as the threshold
have come in a row, restored by the next check that finds the service healthy. -/
theorem observe_hysteresis (threshold : ℤ) (positive : 1 ≤ threshold) (results : List Bool) :
    Alternating (changes (observeAll threshold results).1) ∧
    ∀ before healthy after, results = before ++ healthy :: after →
      ∃ action, (observeAll threshold results).1[before.length]? = some action ∧
        (action = .withdraw ↔
          ¬ Withdrawn (observeAll threshold before).1 ∧ (consecutiveFailures (before ++ [healthy]) : ℤ) = threshold) ∧
        (action = .restore ↔ healthy = true ∧ Withdrawn (observeAll threshold before).1) := by
  refine ⟨(observeAll_tracks positive results).alternating, ?_⟩
  rintro before healthy after rfl
  exact ⟨_, observeAll_at threshold before after healthy, (observeAll_tracks positive before).observe_iff positive healthy⟩

/-- One failure does not count, two in a row do, and a third changes nothing. -/
theorem observe_hysteresis_two :
    (observeAll 2 [false, true, false, false, false, true]).1 = [.noop, .noop, .noop, .withdraw, .noop, .restore] ∧
    Alternating (changes (observeAll 2 [false, true, false, false, false, true]).1) :=
  ⟨rfl, (observe_hysteresis 2 (by decide) [false, true, false, false, false, true]).1⟩

end OpenTela
