import OpenTela.Swim.Network

namespace OpenTela.Swim

/-- A step of a node that begins no probe and takes on no relay. -/
structure SWIM.Tends (s s' : SWIM) : Prop where
  seq : s'.seq = s.seq
  relays : ∀ m r, s'.pendingRelays.lookup m = some r → s.pendingRelays.lookup m = some r
  probes : ∀ n pp', s'.pendingProbes.lookup n = some pp' → ∃ pp, s.pendingProbes.lookup n = some pp ∧ pp.target = pp'.target

namespace SWIM.Tends

variable {s s' s'' : SWIM}

theorem still (seq : s'.seq = s.seq) (relays : s'.pendingRelays = s.pendingRelays) (probes : s'.pendingProbes = s.pendingProbes) :
    s.Tends s' :=
  ⟨seq, fun _ _ found => relays ▸ found, fun _ pp found => ⟨pp, probes ▸ found, rfl⟩⟩

theorem refl : s.Tends s := still rfl rfl rfl

theorem trans (first : s.Tends s') (second : s'.Tends s'') : s.Tends s'' := by
  refine ⟨second.seq.trans first.seq, fun m r found => first.relays m r (second.relays m r found), fun n pp'' found => ?_⟩
  obtain ⟨pp', earlier, same⟩ := second.probes n pp'' found
  obtain ⟨pp, first, same'⟩ := first.probes n pp' earlier
  exact ⟨pp, first, same'.trans same⟩

theorem foldl {α : Type} {step : SWIM → α → SWIM} (steps : ∀ (s : SWIM) a, s.Tends (step s a)) (l : List α) :
    s.Tends (l.foldl step s) := by
  induction l generalizing s with
  | nil => exact refl
  | cons a rest ih => exact (steps s a).trans ih

/-- The probes under way, but for one that is over. -/
theorem erase (n : ℕ) (seq : s'.seq = s.seq) (relays : s'.pendingRelays = s.pendingRelays)
    (probes : s'.pendingProbes = s.pendingProbes.erase n) : s.Tends s' := by
  refine ⟨seq, fun _ _ found => relays ▸ found, fun n' pp found => ?_⟩
  rw [probes] at found
  by_cases same : n' = n
  · subst same
    rw [AList.lookup_erase] at found
    cases found
  · rw [AList.lookup_erase_ne same] at found
    exact ⟨pp, found, rfl⟩

end SWIM.Tends

namespace SWIM

variable (s : SWIM) (now : ℤ)

theorem markSuspect_tends (seq : ℕ) : s.Tends (markSuspect now s seq) := by
  unfold markSuspect
  split
  · exact .refl
  · exact .erase seq rfl rfl rfl

theorem prepareIndirect_tends (shuffle : ℕ → PeerID → ℕ) (work : List IndirectWork × SWIM) (seq : ℕ) :
    work.2.Tends (prepareIndirect now shuffle work seq).2 := by
  unfold prepareIndirect
  split
  · exact .refl
  · rename_i pp found
    refine ⟨rfl, fun _ _ there => there, fun n pp' there => ?_⟩
    by_cases same : n = seq
    · subst same
      dsimp only at there
      rw [AList.lookup_insert] at there
      cases there
      exact ⟨pp, found, rfl⟩
    · dsimp only at there
      rw [AList.lookup_insert_ne same] at there
      exact ⟨pp', there, rfl⟩

/-- Indirect probes are prepared for probes under way only. -/
theorem prepareIndirects_work (shuffle : ℕ → PeerID → ℕ) (seqs : List ℕ) (work : List IndirectWork × SWIM) :
    work.2.Tends (seqs.foldl (prepareIndirect now shuffle) work).2 ∧
      ∀ w ∈ (seqs.foldl (prepareIndirect now shuffle) work).1,
        w ∈ work.1 ∨ ∃ pp, work.2.pendingProbes.lookup w.seq = some pp ∧ pp.target = w.target := by
  induction seqs generalizing work with
  | nil => exact ⟨.refl, fun w member => Or.inl member⟩
  | cons seq rest ih =>
    obtain ⟨tends, prepared⟩ := ih (prepareIndirect now shuffle work seq)
    have first := prepareIndirect_tends now shuffle work seq
    refine ⟨first.trans tends, fun w member => ?_⟩
    rcases prepared w member with old | ⟨pp', found, same⟩
    · unfold prepareIndirect at old
      split at old
      · exact Or.inl old
      · rename_i pp found
        rcases List.mem_append.mp old with older | new
        · exact Or.inl older
        · obtain rfl := List.mem_singleton.mp new
          exact Or.inr ⟨pp, found, rfl⟩
    · obtain ⟨pp, earlier, same'⟩ := first.probes w.seq pp' found
      exact Or.inr ⟨pp, earlier, same'.trans same⟩

theorem processPendingProbes_tends (order : ℕ → ℕ) (shuffle : ℕ → PeerID → ℕ) :
    s.Tends (s.processPendingProbes now order shuffle).2 ∧
      ∀ w ∈ (s.processPendingProbes now order shuffle).1, ∃ pp, s.pendingProbes.lookup w.seq = some pp ∧ pp.target = w.target := by
  have marked : s.Tends ((s.due now order .suspect).foldl (markSuspect now) s) :=
    .foldl (fun s seq => s.markSuspect_tends now seq) _
  obtain ⟨tends, prepared⟩ := prepareIndirects_work now shuffle (s.due now order .indirect)
    ([], (s.due now order .suspect).foldl (markSuspect now) s)
  refine ⟨marked.trans tends, fun w member => ?_⟩
  rcases prepared w member with none | ⟨pp', found, same⟩
  · cases none
  · obtain ⟨pp, earlier, same'⟩ := marked.probes w.seq pp' found
    exact ⟨pp, earlier, same'.trans same⟩

theorem bury_tends (ev : MemberEvent) : s.Tends (s.bury ev) := .still rfl rfl rfl

theorem processEvent_tends (ev : MemberEvent) : s.Tends (processEvent now s ev) := by
  have noted : ∀ s : SWIM, s.Tends (if ev.status = .dead then s.noting (.died ev.peer ev.incarnation) else s) := by
    intro s
    split
    · exact .still rfl rfl rfl
    · exact .refl
  have accepted : ∀ s : SWIM, s.Tends ((accept now s ev).noting (.accepted ev)) := by
    intro s
    unfold accept
    split
    all_goals exact .still rfl rfl rfl
  unfold processEvent
  split
  · split
    · exact .still rfl rfl rfl
    · exact .refl
  · have first := noted s
    dsimp only
    generalize (if ev.status = .dead then s.noting (.died ev.peer ev.incarnation) else s) = t at first ⊢
    refine first.trans ?_
    split
    · unfold meet
      split
      · exact .still rfl rfl rfl
      · exact .refl
    · split
      · exact .refl
      · exact accepted _

/-- A probe begins under the next number. -/
theorem probeOnce_some {pick seq : ℕ} {target : PeerID} {s' : SWIM} (picked : s.probeOnce now pick = (some (target, seq), s')) :
    seq = succ s.seq ∧ s'.seq = seq ∧ s'.pendingRelays = s.pendingRelays ∧
      ∃ pp, pp.target = target ∧ s'.pendingProbes = s.pendingProbes.insert seq pp := by
  unfold probeOnce at picked
  split at picked
  · cases picked
  · cases picked
    exact ⟨rfl, rfl, rfl, _, rfl, rfl⟩

theorem probeOnce_none {pick : ℕ} {s' : SWIM} (picked : s.probeOnce now pick = (none, s')) : s' = s := by
  unfold probeOnce at picked
  split at picked
  · cases picked
    rfl
  · cases picked

theorem succ_of_lt {n : ℕ} (unwrapped : n + 1 < wordSize) : succ n = n + 1 := Nat.mod_eq_of_lt unwrapped

end SWIM

end OpenTela.Swim
