import OpenTela.NodeTable.Hooks

namespace OpenTela

/-- Every row but the node's own comes from a record whose build attestation verified. -/
def Signed (node : Node) (table : NodeTable) : Prop :=
  ∀ key row, table.lookup key = some row → key ≠ peerKey node.myID →
    row.signedBuild = true ∧ ∃ info, row.buildAttestation = some info ∧ verifyBuild node.crypto info = .ok ()

/-- Under a key that is not the node's own, a record that claims the node's id is signed. -/
def OwnId (node : Node) (key : Key) (peer : Peer) : Prop :=
  key ≠ peerKey node.myID → peer.id = node.myID → node.signed peer = true

theorem Node.signed_verified {node : Node} {peer : Peer} (signed : node.signed peer = true) :
    ∃ info, peer.buildAttestation = some info ∧ verifyBuild node.crypto info = .ok () := by
  unfold Node.signed at signed
  cases attached : peer.buildAttestation with
  | none => simp [attached] at signed
  | some info =>
    refine ⟨info, rfl, ?_⟩
    cases verified : verifyBuild node.crypto info with
    | ok _ => rfl
    | error e => simp [attached, verified, Except.isOk, Except.toBool] at signed

/-- With enforcement on, a record the hook accepts is signed or claims the node's own id. -/
theorem accepts_signed {node : Node} (enforced : node.requireSignedBinary = true) {table : NodeTable} {peer p : Peer}
    (accepted : node.accepts table peer = some p) : node.signed peer = true ∨ peer.id = node.myID := by
  by_contra neither
  obtain ⟨unsigned, foreign⟩ := not_or.mp neither
  have rejected : node.vetted peer = none := by
    simp [Node.vetted, enforced, unsigned, foreign]
  simp [Node.accepts, rejected] at accepted

/-- Enforcement holds as long as no accepted record under another key claims the node's own
id without a valid build attestation; the first one that does breaks it. -/
theorem signed_enforced (node : Node) (clock : ℕ → ℤ) (enforced : node.requireSignedBinary = true) :
    (∀ w, HookReach node clock (OwnId node) w → Signed node w.table) ∧
    ∀ w u key value, Signed node w.table →
      (updateNodeTableHook node key value).run (execTable clock ()) w = some (.ok (), u) →
      (Signed node u.table ↔
        (node.accepts w.table (node.unmarshal value) ≠ none → OwnId node key (node.unmarshal value))) := by
  refine hook_rows (fun table key peer p existing now accepted => ?_)
  obtain ⟨_, _, _, attestation, signedBuild⟩ := accepts_fields accepted existing now
  rw [signedBuild, attestation]
  constructor
  · intro signed foreign _
    exact (signed foreign).1
  · intro own foreign
    have signed : node.signed peer = true :=
      (accepts_signed enforced accepted).elim (fun signed => signed) (own foreign)
    exact ⟨signed, Node.signed_verified signed⟩

namespace Claimed

/-- A record that claims the id of the node that receives it, without any attestation. -/
def node : Node where
  myID := "me"
  crypto := { base58 := fun _ => none, base64 := fun _ => none, hex := fun _ => none, identityPayload := fun _ _ _ => [],
              verify := fun _ _ _ => false }
  unmarshal := fun _ => { id := "me" }
  requireSignedBinary := true

/-- The table after one call on an empty one. -/
def world (key : Key) : TableWorld Unit := TableWorld.empty.recorded (fun _ => 1700000000) () key { id := "me" }

theorem world_run (key : Key) :
    (updateNodeTableHook node key []).run (execTable (fun _ => 1700000000) ()) TableWorld.empty = some (.ok (), world key) := by
  have admitted : node.vetted { id := "me" } = some { id := "me" } := by decide
  have here : ({ id := "me" } : Peer).status ≠ LEFT := by decide
  simp only [updateNodeTableHook, show node.unmarshal [] = { id := "me" } from rfl, hookRecord, admitted, here, false_and,
    if_false]
  rfl

end Claimed

open Claimed in
/-- Under the node's own key the record is welcome. -/
theorem signed_enforced_own : HookReach node (fun _ => 1700000000) (OwnId node) (world (peerKey "me")) ∧
    (world (peerKey "me")).table.lookup (peerKey "me") ≠ none ∧ Signed node (world (peerKey "me")).table := by
  have reach : HookReach node (fun _ => 1700000000) (OwnId node) (world (peerKey "me")) :=
    .next .start (world_run _) (fun _ foreign => absurd rfl foreign)
  exact ⟨reach, by decide, (signed_enforced node (fun _ => 1700000000) rfl).1 _ reach⟩

open Claimed in
/-- Under any other key it is written as well, unsigned. -/
theorem signed_not_enforced : node.requireSignedBinary = true ∧
    ¬ ∀ w, HookReach node (fun _ => 1700000000) (fun _ _ => True) w → Signed node w.table := by
  refine ⟨rfl, fun always => ?_⟩
  have reach : HookReach node (fun _ => 1700000000) (fun _ _ => True) (world ["mallory"]) :=
    .next .start (world_run _) (fun _ => trivial)
  have row := always _ reach ["mallory"] { id := "me", lastSeen := 1700000000 } (by decide) (by decide)
  exact absurd row.1 (by decide)

end OpenTela
