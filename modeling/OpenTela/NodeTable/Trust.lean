import OpenTela.NodeTable.Hooks

namespace OpenTela

/-- Every trusted row carries an attestation by its owner for the peer it is stored under. -/
def Bound (node : Node) (table : NodeTable) : Prop :=
  ∀ key row, table.lookup key = some row → trustSelfAttested ≤ row.trustLevel →
    ∃ att, row.identityAttestation = some att ∧ verifyIdentity node.crypto (some att) = .ok () ∧
      att.walletPubkey = row.owner ∧ peerKey att.peerID = key

/-- A valid attestation in the record is one by its owner, for the peer whose key this is. -/
def OwnAttestation (node : Node) (key : Key) (peer : Peer) : Prop :=
  ∀ att, peer.identityAttestation = some att → verifyIdentity node.crypto (some att) = .ok () →
    att.walletPubkey = peer.owner ∧ peerKey att.peerID = key

/-- Trust is bound to the peer as long as no accepted record carries somebody else's valid
attestation; the first one that does breaks it. -/
theorem trust_bound (node : Node) (clock : ℕ → ℤ) :
    (∀ w, HookReach node clock (OwnAttestation node) w → Bound node w.table) ∧
    ∀ w u key value, Bound node w.table →
      (updateNodeTableHook node key value).run (execTable clock ()) w = some (.ok (), u) →
      (Bound node u.table ↔
        (node.accepts w.table (node.unmarshal value) ≠ none → OwnAttestation node key (node.unmarshal value))) := by
  refine hook_rows (fun table key peer p existing now accepted => ?_)
  obtain ⟨owner, attestation, trust, _⟩ := accepts_fields accepted existing now
  rw [owner, attestation, trust]
  constructor
  · intro bound att here verified
    obtain ⟨att', there, _, wallet, peer⟩ := bound (by rw [here]; exact Node.trust_of_verified verified)
    cases here.symm.trans there
    exact ⟨wallet, peer⟩
  · intro own trusted
    obtain ⟨att, here, verified⟩ := Node.trust_pos trusted
    exact ⟨att, here, verified, own att here verified⟩

namespace Replay

/-- An attestation that a node has published. -/
def attestation : IdentityAttestation := { peerID := "worker", walletPubkey := "W", timestamp := 1700000000, signature := "S" }

/-- The signature under it, and no other, verifies. -/
def crypto : Crypto where
  base58 := fun s => if s = "W" then some (List.replicate 32 1) else none
  base64 := fun s => if s = "S" then some [7] else none
  hex := fun _ => none
  identityPayload := fun peer wallet timestamp => (peer ++ wallet).toList.map (fun c => Fin.ofNat 256 c.toNat) ++ [Fin.ofNat 256 timestamp.toNat]
  verify := fun _ msg sig => decide (sig = [7] ∧ msg = "workerW".toList.map (fun c => Fin.ofNat 256 c.toNat) ++ [Fin.ofNat 256 1700000000])

def owned : Peer := { id := "worker", owner := "W", identityAttestation := some attestation }

/-- The record of another peer with the same attestation. -/
def copied : Peer := { id := "mallory", owner := "W", identityAttestation := some attestation }

def node : Node := { myID := "me", crypto := crypto, unmarshal := fun value => if value = [0] then owned else copied }

/-- The table after one call on an empty one. -/
def world (key : Key) (value : Bytes) : TableWorld Unit :=
  TableWorld.empty.recorded (fun _ => 1700000001) () key
    { node.unmarshal value with trustLevel := node.trust (node.unmarshal value).identityAttestation }

theorem world_run (key : Key) (value : Bytes) (accepted : node.vetted (node.unmarshal value) =
      some { node.unmarshal value with trustLevel := node.trust (node.unmarshal value).identityAttestation })
    (present : (node.unmarshal value).status ≠ LEFT) :
    (updateNodeTableHook node key value).run (execTable (fun _ => 1700000001) ()) TableWorld.empty =
      some (.ok (), world key value) := by
  simp only [updateNodeTableHook, hookRecord, accepted, present, false_and, if_false]
  rfl

end Replay

open Replay in
/-- The record of the peer that signed the attestation is trusted, and bound. -/
theorem trust_bound_owned : HookReach node (fun _ => 1700000001) (OwnAttestation node) (world ["worker"] [0]) ∧
    ((world ["worker"] [0]).table.lookup ["worker"]).map Peer.trustLevel = some trustSelfAttested ∧
    Bound node (world ["worker"] [0]).table := by
  have reach : HookReach node (fun _ => 1700000001) (OwnAttestation node) (world ["worker"] [0]) := by
    refine .next .start (world_run ["worker"] [0] (by decide) (by decide)) (fun _ att here _ => ?_)
    cases here
    decide
  exact ⟨reach, by decide, (trust_bound node (fun _ => 1700000001)).1 _ reach⟩

open Replay in
/-- Replayed in the record of another peer, the attestation makes that peer trusted too. -/
theorem trust_not_bound :
    ¬ ∀ w, HookReach node (fun _ => 1700000001) (fun _ _ => True) w → Bound node w.table := by
  intro always
  have reach : HookReach node (fun _ => 1700000001) (fun _ _ => True) (world ["mallory"] [1]) :=
    .next .start (world_run ["mallory"] [1] (by decide) (by decide)) (fun _ => trivial)
  obtain ⟨att, here, _, _, peer⟩ := always _ reach ["mallory"]
    { copied with trustLevel := trustSelfAttested, lastSeen := 1700000001 } (by decide) (by decide)
  cases here
  exact absurd peer (by decide)

end OpenTela
