import OpenTela.Snapshot.Table

namespace OpenTela.Snapshot

open OpenTela.Swim (PeerID ordered mem_ordered)

variable {ι : Type}

def batchMaxSize : ℕ := 50

def eventChanSize : ℕ := 1024

inductive Phase where
  | running
  | draining
  | stopped
  deriving DecidableEq

/-- The writer and the table it writes. `published` and `sent` are for the record: the snapshots
that readers could get, the latest first, and the events that the channel took. -/
structure Writer (ι : Type) where
  table : NodeTableSnapshot ι := {}
  events : List (NodeEvent ι) := []
  batch : List (NodeEvent ι) := []
  phase : Phase := .running
  published : List (NodeTableSnapshot ι) := [{}]
  sent : List (NodeEvent ι) := []

namespace Writer

/-- An event that finds the channel full is dropped. -/
def send (w : Writer ι) (e : NodeEvent ι) : Writer ι :=
  if w.events.length < eventChanSize then { w with events := w.events ++ [e], sent := w.sent ++ [e] } else w

def applyBatch (order : PeerID → ℕ) (w : Writer ι) : Writer ι :=
  let next := w.table.applyBatch order w.batch
  { w with table := next, batch := [], published := next :: w.published }

/-- What can come next: a `Send` of some goroutine, or a case of one of the two selects. -/
inductive Step (ι : Type) where
  | send (e : NodeEvent ι)
  | receive (order : PeerID → ℕ)
  | tick (order : PeerID → ℕ)
  | stop
  | drain
  | finish (order : PeerID → ℕ)

/-- A case that is not ready is not taken. -/
def step (w : Writer ι) : Step ι → Writer ι
  | .send e => w.send e
  | .receive order =>
    match w.phase, w.events with
    | .running, e :: rest =>
      let w := { w with events := rest, batch := w.batch ++ [e] }
      if batchMaxSize ≤ w.batch.length then w.applyBatch order else w
    | _, _ => w
  | .tick order => if w.phase = .running ∧ 0 < w.batch.length then w.applyBatch order else w
  | .stop => if w.phase = .running then { w with phase := .draining } else w
  | .drain =>
    match w.phase, w.events with
    | .draining, e :: rest => { w with events := rest, batch := w.batch ++ [e] }
    | _, _ => w
  | .finish order =>
    match w.phase, w.events with
    | .draining, [] =>
      let w := if 0 < w.batch.length then w.applyBatch order else w
      { w with phase := .stopped }
    | _, _ => w

def run (w : Writer ι) (steps : List (Step ι)) : Writer ι := steps.foldl step w

end Writer

/-- In each index a peer is listed under a key exactly when it is connected, not suspected and has the key. -/
def NodeTableSnapshot.Indexed (s : NodeTableSnapshot ι) : Prop :=
  ∀ k p,
    (p ∈ s.byService.at k ↔ s.peers.lookup p.peerID = some p ∧ p.connected = true ∧ p.suspect = false ∧ k ∈ p.serviceNames) ∧
    (p ∈ s.byIdentity.at k ↔ s.peers.lookup p.peerID = some p ∧ p.connected = true ∧ p.suspect = false ∧ k ∈ p.identityGroups) ∧
    (p ∈ s.byRole.at k ↔ s.peers.lookup p.peerID = some p ∧ p.connected = true ∧ p.suspect = false ∧ k ∈ p.role)

theorem empty_indexed : ({} : NodeTableSnapshot ι).Indexed := by
  intro k p
  simp [Index.at]

theorem rebuildIndexes_indexed (order : PeerID → ℕ) {s : NodeTableSnapshot ι} (keyed : Keyed s.peers) :
    (s.rebuildIndexes order).Indexed := by
  have present : ∀ p, p ∈ (ordered order s.peers.keys).filterMap s.peers.lookup ↔ s.peers.lookup p.peerID = some p := by
    intro p
    rw [List.mem_filterMap]
    constructor
    · rintro ⟨pid, _, found⟩
      rw [keyed pid p found]
      exact found
    · intro found
      refine ⟨p.peerID, mem_ordered.mpr (AList.mem_keys.mp ?_), found⟩
      exact AList.lookup_isSome.mp (by rw [found]; rfl)
  have exact : ∀ (keys : SnapshotPeer ι → List String) k p,
      p ∈ (indexBy keys ((ordered order s.peers.keys).filterMap s.peers.lookup)).at k ↔
        s.peers.lookup p.peerID = some p ∧ p.connected = true ∧ p.suspect = false ∧ k ∈ keys p := by
    intro keys k p
    rw [mem_indexBy, present]
    simp [SnapshotPeer.listed, and_assoc]
  exact fun k p => ⟨exact _ k p, exact _ k p, exact _ k p⟩

/-- What was done with the events that the channel took: first those the table shows, then
those of the unfinished batch, then those still in the channel. -/
structure Writer.Sound (w : Writer ι) : Prop where
  shown : ∃ done, w.sent = done ++ w.batch ++ w.events ∧ w.table.peers = done.foldl applyEvent ∅
  latest : w.published.head? = some w.table
  exact : ∀ s ∈ w.published, s.Indexed ∧ Keyed s.peers ∧ ∃ done, done <+: w.sent ∧ s.peers = done.foldl applyEvent ∅
  drained : w.phase = .stopped → w.batch = []

namespace Writer.Sound

variable {w : Writer ι}

theorem start : (({} : Writer ι)).Sound where
  shown := ⟨[], rfl, rfl⟩
  latest := rfl
  exact := by
    intro s member
    obtain rfl := List.mem_singleton.mp member
    have keyed : Keyed ({} : NodeTableSnapshot ι).peers := fun _ _ found => by cases found
    exact ⟨empty_indexed, keyed, [], List.nil_prefix, rfl⟩
  drained := fun _ => rfl

theorem send (sound : w.Sound) (e : NodeEvent ι) : (w.send e).Sound := by
  unfold Writer.send
  split
  · obtain ⟨done, split, peers⟩ := sound.shown
    refine ⟨⟨done, by simp [split], peers⟩, sound.latest, fun s member => ?_, sound.drained⟩
    obtain ⟨indexed, keyed, part, before, same⟩ := sound.exact s member
    exact ⟨indexed, keyed, part, before.trans (List.prefix_append ..), same⟩
  · exact sound

/-- One event goes from the channel to the batch. -/
theorem take (sound : w.Sound) (working : w.phase ≠ .stopped) {e : NodeEvent ι} {rest : List (NodeEvent ι)} (first : w.events = e :: rest) :
    ({ w with events := rest, batch := w.batch ++ [e] } : Writer ι).Sound := by
  obtain ⟨done, split, peers⟩ := sound.shown
  exact ⟨⟨done, by simp [split, first], peers⟩, sound.latest, sound.exact, fun stopped => absurd stopped working⟩

theorem applyBatch (sound : w.Sound) (order : PeerID → ℕ) : (w.applyBatch order).Sound := by
  obtain ⟨done, split, peers⟩ := sound.shown
  have next : w.batch.foldl applyEvent w.table.peers = (done ++ w.batch).foldl applyEvent ∅ := by
    rw [peers, List.foldl_append]
  have keyed : Keyed (w.batch.foldl applyEvent w.table.peers) := by
    rw [next]
    exact foldl_applyEvent_keyed (fun _ _ found => by cases found) _
  refine ⟨⟨done ++ w.batch, by simp [Writer.applyBatch, split], next⟩, rfl, fun s member => ?_, fun _ => rfl⟩
  rcases List.mem_cons.mp member with rfl | before
  · refine ⟨?_, keyed, done ++ w.batch, ⟨w.events, split.symm⟩, next⟩
    exact rebuildIndexes_indexed order (s := { w.table with peers := w.batch.foldl applyEvent w.table.peers }) keyed
  · exact sound.exact s before

theorem enter (sound : w.Sound) {phase : Phase} (drained : phase = .stopped → w.batch = []) : ({ w with phase } : Writer ι).Sound :=
  ⟨sound.shown, sound.latest, sound.exact, drained⟩

theorem step (sound : w.Sound) (s : Writer.Step ι) : (w.step s).Sound := by
  cases s with
  | send e => exact sound.send e
  | receive order =>
    simp only [Writer.step]
    split
    · rename_i e rest running first
      have taken := sound.take (by rw [running]; decide) first
      split
      · exact taken.applyBatch order
      · exact taken
    · exact sound
  | tick order =>
    simp only [Writer.step]
    split
    · exact sound.applyBatch order
    · exact sound
  | stop =>
    simp only [Writer.step]
    split
    · exact sound.enter (fun stopped => by cases stopped)
    · exact sound
  | drain =>
    simp only [Writer.step]
    split
    · rename_i e rest draining first
      exact sound.take (by rw [draining]; decide) first
    · exact sound
  | finish order =>
    simp only [Writer.step]
    split
    · split
      · exact (sound.applyBatch order).enter (fun _ => rfl)
      · rename_i nothing
        exact sound.enter (fun _ => List.length_eq_zero_iff.mp (Nat.eq_zero_of_not_pos nothing))
    · exact sound

theorem run (sound : w.Sound) (steps : List (Writer.Step ι)) : (w.run steps).Sound := by
  induction steps generalizing w with
  | nil => exact sound
  | cons s rest ih => exact ih (sound.step s)

end Writer.Sound

/-- However the events come to be batched, the table shows the events that have left the
channel and the unfinished batch, one after the other; nothing is left over when the writer has
stopped; and the indexes of every published snapshot are exact. -/
theorem writer_transparent (steps : List (Writer.Step ι)) :
    let w := ({} : Writer ι).run steps
    (∃ done, w.sent = done ++ w.batch ++ w.events ∧ w.table.peers = done.foldl applyEvent ∅) ∧
    (w.batch = [] → w.events = [] → w.table.peers = w.sent.foldl applyEvent ∅) ∧
    w.published.head? = some w.table ∧
    (w.phase = .stopped → w.batch = []) ∧
    ∀ s ∈ w.published, s.Indexed ∧ Keyed s.peers ∧ ∃ done, done <+: w.sent ∧ s.peers = done.foldl applyEvent ∅ := by
  have sound := Writer.Sound.start.run steps
  refine ⟨sound.shown, fun nothing quiet => ?_, sound.latest, sound.drained, sound.exact⟩
  obtain ⟨done, split, peers⟩ := sound.shown
  rw [split, nothing, quiet, List.append_nil, List.append_nil]
  exact peers

end OpenTela.Snapshot
