import OpenTela.Swim.Dissemination

namespace OpenTela.Snapshot

open OpenTela.Swim (PeerID ordered mem_ordered)

/-- `ι` holds the values of the fields whose type is `interface{}`. -/
structure ServiceData (ι : Type) where
  name : String
  host : String := ""
  port : String := ""
  status : String := ""
  identityGroup : List String := []
  hardware : Option ι := none
  deriving DecidableEq

structure SnapshotPeer (ι : Type) where
  id : String
  peerID : PeerID
  connected : Bool := false
  suspect : Bool := false
  lastSeen : ℤ
  role : List String := []
  identityGroups : List String := []
  activeRequests : UInt16 := 0
  regionHint : UInt16 := 0
  services : List (ServiceData ι) := []
  owner : String := ""
  providerID : String := ""
  publicAddress : String := ""
  version : String := ""
  latency : ℤ := 0
  privileged : Bool := false
  hardware : Option ι := none
  buildAttestation : Option ι := none
  identityAttestation : Option ι := none
  trustLevel : ℤ := 0
  signedBuild : Bool := false
  deriving DecidableEq

inductive EventType where
  | swimJoin
  | swimAlive
  | swimSuspect
  | swimDead
  | crdtUpdate
  | crdtDelete
  deriving DecidableEq

structure PeerData (ι : Type) where
  role : List String := []
  identityGroups : List String := []
  activeRequests : UInt16 := 0
  regionHint : UInt16 := 0
  services : List (ServiceData ι) := []
  owner : String := ""
  providerID : String := ""
  hardware : Option ι := none
  buildAttestation : Option ι := none
  identityAttestation : Option ι := none
  trustLevel : ℤ := 0
  signedBuild : Bool := false
  publicAddress : String := ""
  version : String := ""
  latency : ℤ := 0
  privileged : Bool := false

structure NodeEvent (ι : Type) where
  type : EventType
  peerID : PeerID
  timestamp : ℤ
  peerData : Option (PeerData ι) := none

abbrev Peers (ι : Type) := Store PeerID (SnapshotPeer ι)

variable {ι : Type}

/-- A field that an update leaves alone when it brings the zero value. -/
def overwrite {α : Type} [DecidableEq α] (zero old new : α) : α := if new = zero then old else new

def overwriteList {α : Type} (old new : List α) : List α := if 0 < new.length then new else old

namespace SnapshotPeer

def new (e : NodeEvent ι) : SnapshotPeer ι := { id := e.peerID, peerID := e.peerID, lastSeen := e.timestamp }

def describe (p : SnapshotPeer ι) (data : PeerData ι) : SnapshotPeer ι :=
  { p with
    role := overwriteList p.role data.role
    identityGroups := overwriteList p.identityGroups data.identityGroups
    activeRequests := data.activeRequests
    regionHint := data.regionHint }

def join (e : NodeEvent ι) (p : SnapshotPeer ι) : SnapshotPeer ι :=
  let p := { p with connected := true, suspect := false, lastSeen := e.timestamp }
  match e.peerData with
  | none => p
  | some data => p.describe data

def accuse (e : NodeEvent ι) (p : SnapshotPeer ι) : SnapshotPeer ι := { p with suspect := true, lastSeen := e.timestamp }

def update (e : NodeEvent ι) (p : SnapshotPeer ι) : SnapshotPeer ι :=
  match e.peerData with
  | none => p
  | some data =>
    { p with
      services := overwriteList p.services data.services
      owner := overwrite "" p.owner data.owner
      providerID := overwrite "" p.providerID data.providerID
      publicAddress := overwrite "" p.publicAddress data.publicAddress
      version := overwrite "" p.version data.version
      hardware := data.hardware
      buildAttestation := data.buildAttestation
      identityAttestation := data.identityAttestation
      trustLevel := data.trustLevel
      signedBuild := data.signedBuild
      latency := data.latency
      privileged := data.privileged
      identityGroups := overwriteList p.identityGroups data.identityGroups }

/-- The peers that are indexed. -/
def listed (p : SnapshotPeer ι) : Bool := p.connected && !p.suspect

end SnapshotPeer

def applyEvent (peers : Peers ι) (e : NodeEvent ι) : Peers ι :=
  let found := peers.lookup e.peerID
  match e.type with
  | .swimJoin | .swimAlive => peers.insert e.peerID ((found.getD (.new e)).join e)
  -- A peer that is suspected before it joined is put in as a connected one.
  | .swimSuspect => peers.insert e.peerID ((found.getD { SnapshotPeer.new e with connected := true }).accuse e)
  | .swimDead | .crdtDelete => peers.erase e.peerID
  | .crdtUpdate => peers.insert e.peerID ((found.getD (.new e)).update e)

abbrev Index (ι : Type) := Store String (List (SnapshotPeer ι))

def Index.at (index : Index ι) (key : String) : List (SnapshotPeer ι) := (index.lookup key).getD []

/-- Lists a peer under some keys, after those that are listed there already. -/
def Index.list (index : Index ι) (keys : List String) (p : SnapshotPeer ι) : Index ι :=
  keys.foldl (fun index key => index.insert key (index.at key ++ [p])) index

structure NodeTableSnapshot (ι : Type) where
  peers : Peers ι := ∅
  byService : Index ι := ∅
  byIdentity : Index ι := ∅
  byRole : Index ι := ∅
  generation : ℕ := 0

def SnapshotPeer.serviceNames (p : SnapshotPeer ι) : List String := p.services.map ServiceData.name

/-- One of the indexes, over the peers in the order in which their map is traversed. -/
def indexBy (keys : SnapshotPeer ι → List String) (peers : List (SnapshotPeer ι)) : Index ι :=
  (peers.filter SnapshotPeer.listed).foldl (fun index p => index.list (keys p) p) ∅

def NodeTableSnapshot.rebuildIndexes (order : PeerID → ℕ) (s : NodeTableSnapshot ι) : NodeTableSnapshot ι :=
  let peers := (ordered order s.peers.keys).filterMap s.peers.lookup
  { s with
    byService := indexBy SnapshotPeer.serviceNames peers
    byIdentity := indexBy SnapshotPeer.identityGroups peers
    byRole := indexBy SnapshotPeer.role peers }

/-- The snapshot that follows from a batch. The one it starts from stays as it is. -/
def NodeTableSnapshot.applyBatch (order : PeerID → ℕ) (s : NodeTableSnapshot ι) (batch : List (NodeEvent ι)) : NodeTableSnapshot ι :=
  let next := { s with peers := batch.foldl applyEvent s.peers }
  { next.rebuildIndexes order with generation := s.generation + 1 }

section Indexes

theorem Index.at_insert (index : Index ι) (key k : String) (peers : List (SnapshotPeer ι)) :
    Index.at (index.insert key peers) k = if k = key then peers else index.at k := by
  unfold Index.at
  by_cases same : k = key
  · subst same
    rw [AList.lookup_insert, if_pos rfl]
    rfl
  · rw [AList.lookup_insert_ne same, if_neg same]

theorem Index.mem_list {index : Index ι} {keys : List String} {p q : SnapshotPeer ι} {k : String} :
    q ∈ (index.list keys p).at k ↔ q ∈ index.at k ∨ (q = p ∧ k ∈ keys) := by
  induction keys generalizing index with
  | nil => simp [Index.list]
  | cons key rest ih =>
    change q ∈ (Index.list (index.insert key (index.at key ++ [p])) rest p).at k ↔ _
    rw [ih, Index.at_insert]
    by_cases same : k = key
    · subst same
      simp
      tauto
    · simp [same]

theorem mem_foldl_list {keys : SnapshotPeer ι → List String} {peers : List (SnapshotPeer ι)} {index : Index ι} {q : SnapshotPeer ι}
    {k : String} :
    q ∈ (peers.foldl (fun index p => index.list (keys p) p) index).at k ↔ q ∈ index.at k ∨ (q ∈ peers ∧ k ∈ keys q) := by
  induction peers generalizing index with
  | nil => simp
  | cons p rest ih =>
    rw [List.foldl_cons, ih, Index.mem_list, List.mem_cons]
    constructor
    · rintro ((old | ⟨rfl, named⟩) | ⟨later, named⟩)
      · exact Or.inl old
      · exact Or.inr ⟨Or.inl rfl, named⟩
      · exact Or.inr ⟨Or.inr later, named⟩
    · rintro (old | ⟨rfl | later, named⟩)
      · exact Or.inl (Or.inl old)
      · exact Or.inl (Or.inr ⟨rfl, named⟩)
      · exact Or.inr ⟨later, named⟩

theorem mem_indexBy {keys : SnapshotPeer ι → List String} {peers : List (SnapshotPeer ι)} {q : SnapshotPeer ι} {k : String} :
    q ∈ (indexBy keys peers).at k ↔ q ∈ peers ∧ q.listed = true ∧ k ∈ keys q := by
  unfold indexBy
  rw [mem_foldl_list, List.mem_filter]
  simp [Index.at, and_assoc]

end Indexes

/-- Every record is filed under its own peer. -/
def Keyed (peers : Peers ι) : Prop := ∀ pid p, peers.lookup pid = some p → p.peerID = pid

@[simp] theorem SnapshotPeer.describe_peerID (p : SnapshotPeer ι) (data : PeerData ι) : (p.describe data).peerID = p.peerID := rfl

@[simp] theorem SnapshotPeer.join_peerID (e : NodeEvent ι) (p : SnapshotPeer ι) : (p.join e).peerID = p.peerID := by
  unfold join
  cases e.peerData <;> rfl

@[simp] theorem SnapshotPeer.accuse_peerID (e : NodeEvent ι) (p : SnapshotPeer ι) : (p.accuse e).peerID = p.peerID := rfl

@[simp] theorem SnapshotPeer.update_peerID (e : NodeEvent ι) (p : SnapshotPeer ι) : (p.update e).peerID = p.peerID := by
  unfold update
  cases e.peerData <;> rfl

theorem Keyed.insert {peers : Peers ι} (keyed : Keyed peers) {pid : PeerID} {p : SnapshotPeer ι} (own : p.peerID = pid) :
    Keyed (AList.insert pid p peers) :=
  Store.All.insert keyed own

theorem Keyed.getD {peers : Peers ι} (keyed : Keyed peers) {pid : PeerID} {p : SnapshotPeer ι} (own : p.peerID = pid) :
    ((peers.lookup pid).getD p).peerID = pid :=
  Store.All.getD keyed own

theorem Keyed.erase {peers : Peers ι} (keyed : Keyed peers) (pid : PeerID) : Keyed (AList.erase pid peers) :=
  Store.All.erase keyed pid

theorem applyEvent_keyed {peers : Peers ι} (keyed : Keyed peers) (e : NodeEvent ι) : Keyed (applyEvent peers e) := by
  have joined : Keyed (AList.insert e.peerID (((peers.lookup e.peerID).getD (.new e)).join e) peers) := by
    refine keyed.insert ?_
    rw [SnapshotPeer.join_peerID]
    exact keyed.getD rfl
  unfold applyEvent
  dsimp only
  split
  · exact joined
  · exact joined
  · refine keyed.insert ?_
    rw [SnapshotPeer.accuse_peerID]
    exact keyed.getD rfl
  · exact keyed.erase _
  · exact keyed.erase _
  · refine keyed.insert ?_
    rw [SnapshotPeer.update_peerID]
    exact keyed.getD rfl

theorem foldl_applyEvent_keyed {peers : Peers ι} (keyed : Keyed peers) (events : List (NodeEvent ι)) :
    Keyed (events.foldl applyEvent peers) := by
  induction events generalizing peers with
  | nil => exact keyed
  | cons e rest ih => exact ih (applyEvent_keyed keyed e)

end OpenTela.Snapshot
