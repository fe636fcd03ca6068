import OpenTela.Snapshot.Table

namespace OpenTela.Snapshot

open OpenTela.Swim (PeerID)

variable {ι : Type}

/-- What an update brings for a field leaves the field alone if it is the zero value. -/
def Untouched {α : Type} (zero new old after : α) : Prop := new = zero → after = old

/-- A field that is assigned as it comes may only be brought as zero where it is zero already. -/
def Assignable {α : Type} (zero new old : α) : Prop := new = zero → old = zero

/-- No field of the peer changes for which the data has the zero value. -/
structure Merged (data : PeerData ι) (old after : SnapshotPeer ι) : Prop where
  role : Untouched [] data.role old.role after.role
  identityGroups : Untouched [] data.identityGroups old.identityGroups after.identityGroups
  activeRequests : Untouched 0 data.activeRequests old.activeRequests after.activeRequests
  regionHint : Untouched 0 data.regionHint old.regionHint after.regionHint
  services : Untouched [] data.services old.services after.services
  owner : Untouched "" data.owner old.owner after.owner
  providerID : Untouched "" data.providerID old.providerID after.providerID
  hardware : Untouched none data.hardware old.hardware after.hardware
  buildAttestation : Untouched none data.buildAttestation old.buildAttestation after.buildAttestation
  identityAttestation : Untouched none data.identityAttestation old.identityAttestation after.identityAttestation
  trustLevel : Untouched 0 data.trustLevel old.trustLevel after.trustLevel
  signedBuild : Untouched false data.signedBuild old.signedBuild after.signedBuild
  publicAddress : Untouched "" data.publicAddress old.publicAddress after.publicAddress
  version : Untouched "" data.version old.version after.version
  latency : Untouched 0 data.latency old.latency after.latency
  privileged : Untouched false data.privileged old.privileged after.privileged

/-- The fields an event of the type assigns as they come. -/
def Complete (data : PeerData ι) (old : SnapshotPeer ι) : EventType → Prop
  | .swimJoin | .swimAlive => Assignable 0 data.activeRequests old.activeRequests ∧ Assignable 0 data.regionHint old.regionHint
  | .crdtUpdate =>
    Assignable none data.hardware old.hardware ∧ Assignable none data.buildAttestation old.buildAttestation ∧
    Assignable none data.identityAttestation old.identityAttestation ∧ Assignable 0 data.trustLevel old.trustLevel ∧
    Assignable false data.signedBuild old.signedBuild ∧ Assignable 0 data.latency old.latency ∧
    Assignable false data.privileged old.privileged
  | .swimSuspect | .swimDead | .crdtDelete => True

section Fields

variable {α : Type}

theorem untouched_overwrite [DecidableEq α] (zero new old : α) : Untouched zero new old (overwrite zero old new) :=
  fun none => if_pos none

theorem untouched_overwriteList (new old : List α) : Untouched [] new old (overwriteList old new) := by
  rintro rfl
  rfl

/-- A plain assignment merges exactly when it brings something or there is nothing to lose. -/
theorem untouched_assign (zero new old : α) : Untouched zero new old new ↔ Assignable zero new old :=
  forall_congr' (fun none => by rw [none]; exact eq_comm)

end Fields

variable {data : PeerData ι} {old : SnapshotPeer ι} {e : NodeEvent ι}

theorem Merged.refl (data : PeerData ι) (old : SnapshotPeer ι) : Merged data old old := by
  constructor <;> exact fun _ => rfl

theorem join_merged (brings : e.peerData = some data) :
    Merged data old (old.join e) ↔ Assignable 0 data.activeRequests old.activeRequests ∧ Assignable 0 data.regionHint old.regionHint := by
  have joined : old.join e = { old with connected := true, suspect := false, lastSeen := e.timestamp }.describe data := by
    rw [SnapshotPeer.join, brings]
  rw [joined]
  constructor
  · exact fun merged => ⟨(untouched_assign _ _ _).mp merged.activeRequests, (untouched_assign _ _ _).mp merged.regionHint⟩
  · rintro ⟨requests, hint⟩
    exact { Merged.refl data old with
      role := untouched_overwriteList _ _
      identityGroups := untouched_overwriteList _ _
      activeRequests := (untouched_assign _ _ _).mpr requests
      regionHint := (untouched_assign _ _ _).mpr hint }

theorem update_merged (brings : e.peerData = some data) : Merged data old (old.update e) ↔ Complete data old .crdtUpdate := by
  rw [SnapshotPeer.update, brings]
  constructor
  · exact fun merged => ⟨(untouched_assign _ _ _).mp merged.hardware, (untouched_assign _ _ _).mp merged.buildAttestation,
      (untouched_assign _ _ _).mp merged.identityAttestation, (untouched_assign _ _ _).mp merged.trustLevel,
      (untouched_assign _ _ _).mp merged.signedBuild, (untouched_assign _ _ _).mp merged.latency,
      (untouched_assign _ _ _).mp merged.privileged⟩
  · rintro ⟨hardware, build, identity, trust, signed, latency, privileged⟩
    exact { Merged.refl data old with
      identityGroups := untouched_overwriteList _ _
      services := untouched_overwriteList _ _
      owner := untouched_overwrite _ _ _
      providerID := untouched_overwrite _ _ _
      hardware := (untouched_assign _ _ _).mpr hardware
      buildAttestation := (untouched_assign _ _ _).mpr build
      identityAttestation := (untouched_assign _ _ _).mpr identity
      trustLevel := (untouched_assign _ _ _).mpr trust
      signedBuild := (untouched_assign _ _ _).mpr signed
      publicAddress := untouched_overwrite _ _ _
      version := untouched_overwrite _ _ _
      latency := (untouched_assign _ _ _).mpr latency
      privileged := (untouched_assign _ _ _).mpr privileged }

/-- What becomes of the peer of an event. -/
theorem applyEvent_own {peers : Peers ι} (known : peers.lookup e.peerID = some old) :
    (applyEvent peers e).lookup e.peerID =
      match e.type with
      | .swimJoin | .swimAlive => some (old.join e)
      | .swimSuspect => some (old.accuse e)
      | .swimDead | .crdtDelete => none
      | .crdtUpdate => some (old.update e) := by
  unfold applyEvent
  cases e.type <;> simp [known]

/-- An event is about one peer. -/
theorem applyEvent_other {peers : Peers ι} {pid : PeerID} (other : pid ≠ e.peerID) :
    (applyEvent peers e).lookup pid = peers.lookup pid := by
  unfold applyEvent
  cases e.type <;> simp [AList.lookup_insert_ne other, AList.lookup_erase_ne other]

/-- Zero values mean no change exactly where the event brings a value for each field it assigns as it comes, or the peer
has none; and other peers never change. -/
theorem zero_means_no_change_iff (order : PeerID → ℕ) (s : NodeTableSnapshot ι) (e : NodeEvent ι) :
    ((∀ data old after, e.peerData = some data → s.peers.lookup e.peerID = some old →
        (s.applyBatch order [e]).peers.lookup e.peerID = some after → Merged data old after) ↔
      ∀ data old, e.peerData = some data → s.peers.lookup e.peerID = some old → Complete data old e.type) ∧
    ∀ pid, pid ≠ e.peerID → (s.applyBatch order [e]).peers.lookup pid = s.peers.lookup pid := by
  refine ⟨?_, fun pid other => applyEvent_other other⟩
  have applied : (s.applyBatch order [e]).peers = applyEvent s.peers e := rfl
  rw [applied]
  refine forall_congr' (fun data => forall_congr' (fun old => ?_))
  constructor
  · intro merges brings known
    have own := applyEvent_own known
    cases type : e.type with
    | swimJoin | swimAlive =>
      rw [type] at own
      exact (join_merged brings).mp (merges _ brings known own)
    | crdtUpdate =>
      rw [type] at own
      exact (update_merged brings).mp (merges _ brings known own)
    | swimSuspect | swimDead | crdtDelete => trivial
  · intro complete after brings known found
    have own := applyEvent_own known
    have fields := complete brings known
    rw [found] at own
    cases type : e.type with
    | swimJoin | swimAlive =>
      rw [type] at own fields
      cases own
      exact (join_merged brings).mpr fields
    | crdtUpdate =>
      rw [type] at own fields
      cases own
      exact (update_merged brings).mpr fields
    | swimSuspect =>
      rw [type] at own
      cases own
      exact { Merged.refl data old with }
    | swimDead | crdtDelete =>
      rw [type] at own
      cases own

namespace Erased

def worker : SnapshotPeer String :=
  { id := "worker", peerID := "worker", connected := true, lastSeen := 1700000000, trustLevel := 2, signedBuild := true }

def snapshot : NodeTableSnapshot String := { peers := AList.insert "worker" worker ∅ }

/-- An update that brings the owner alone. -/
def owned : NodeEvent String :=
  { type := .crdtUpdate, peerID := "worker", timestamp := 1700000010, peerData := some { owner := "alice" } }

end Erased

open OpenTela.Snapshot.Erased in
/-- The update erases the trust level and the verified build of the peer. -/
theorem zero_erases : ¬ ∀ (order : PeerID → ℕ) (s : NodeTableSnapshot String) (e : NodeEvent String) data old after,
    e.peerData = some data → s.peers.lookup e.peerID = some old →
      (s.applyBatch order [e]).peers.lookup e.peerID = some after → Merged data old after := by
  intro merges
  have found : (snapshot.applyBatch (fun _ => 0) [owned]).peers.lookup "worker" =
      some { worker with owner := "alice", trustLevel := 0, signedBuild := false } := by decide +kernel
  have merged := merges (fun _ => 0) snapshot owned _ worker _ rfl (by decide +kernel) found
  exact absurd (merged.signedBuild rfl) (by decide)

end OpenTela.Snapshot
