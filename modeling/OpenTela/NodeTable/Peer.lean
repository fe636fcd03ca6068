import OpenTela.Crdt.Keys

namespace OpenTela

structure Service where
  name : String
  status : String := ""
  host : String := ""
  port : String := ""
  identityGroup : List String := []
  deriving DecidableEq

/-- `attestation.BuildInfo`. -/
structure BuildInfo where
  version : String
  commit : String
  signature : String
  deriving DecidableEq

/-- `wallet.IdentityAttestation`. -/
structure IdentityAttestation where
  peerID : String
  walletPubkey : String
  timestamp : ℤ
  signature : String
  deriving DecidableEq

/-- `Peer`, as far as the table and its updaters look at it. -/
structure Peer where
  id : String := ""
  owner : String := ""
  role : List String := []
  status : String := ""
  service : List Service := []
  lastSeen : ℤ := 0
  relayPeer : String := ""
  evictedBy : String := ""
  connected : Bool := false
  buildAttestation : Option BuildInfo := none
  signedBuild : Bool := false
  identityAttestation : Option IdentityAttestation := none
  trustLevel : ℕ := 0
  deriving DecidableEq

/-- The status of a peer that has announced its leave. -/
def LEFT : String := "left"

def trustUntrusted : ℕ := 0
def trustSelfAttested : ℕ := 1
def trustUserTrusted : ℕ := 2

/-- What `json.Marshal` and then `json.Unmarshal` give back: the fields tagged `-` are not sent. -/
def Peer.published (p : Peer) : Peer := { p with signedBuild := false, trustLevel := 0 }

/-- The encodings and the signature scheme the checks call. -/
structure Crypto where
  base58 : String → Option Bytes
  base64 : String → Option Bytes
  hex : String → Option Bytes
  identityPayload : String → String → ℤ → Bytes
  verify : Bytes → Bytes → Bytes → Bool

/-- `ed25519.PublicKeySize`. -/
def publicKeySize : ℕ := 32

/-- `wallet.VerifyIdentity`. -/
def verifyIdentity (c : Crypto) : Option IdentityAttestation → Except String Unit
  | none => .error "nil attestation"
  | some att =>
    match c.base58 att.walletPubkey with
    | none => .error "invalid wallet pubkey encoding"
    | some pubKey =>
      if pubKey.length ≠ publicKeySize then .error "wallet pubkey has wrong length"
      else
        match c.base64 att.signature with
        | none => .error "invalid signature encoding"
        | some sig =>
          if c.verify pubKey (c.identityPayload att.peerID att.walletPubkey att.timestamp) sig then .ok ()
          else .error "identity signature verification failed"

def maintainerPubKeyHex : String := "df45c7c4dd4450cd0f296ea6250c60e8a0dad2f459dbf5908e38977e45098d8b"

def loadPubKey (c : Crypto) : Except String Bytes :=
  match c.hex maintainerPubKeyHex with
  | none => .error "invalid maintainer public key hex"
  | some b => if b.length ≠ publicKeySize then .error "maintainer public key has wrong length" else .ok b

def attestationMessage (version commit : String) : Bytes :=
  (version ++ "|" ++ commit).toUTF8.data.toList.map UInt8.toFin

/-- `attestation.Verify`. -/
def verifyBuild (c : Crypto) (info : BuildInfo) : Except String Unit :=
  if info.signature = "" then .error "no build signature present"
  else
    match loadPubKey c with
    | .error _ => .error "cannot load maintainer public key"
    | .ok pk =>
      match c.hex info.signature with
      | none => .error "invalid signature hex"
      | some sig =>
        if c.verify pk (attestationMessage info.version info.commit) sig then .ok ()
        else .error "signature verification failed"

/-- The settings of a node, and how it reads a record. `unmarshal` fills a zero `Peer` and
keeps what it has filled when the bytes turn out not to be valid. -/
structure Node where
  myID : String
  crypto : Crypto
  unmarshal : Bytes → Peer
  requireSignedBinary : Bool := false
  trustedWallets : List String := []
  walletAccount : String := ""

/-- The trust `UpdateNodeTableHook` derives from an identity attestation. -/
def Node.trust (node : Node) : Option IdentityAttestation → ℕ
  | none => trustUntrusted
  | some att =>
    match verifyIdentity node.crypto (some att) with
    | .error _ => trustUntrusted
    | .ok () =>
      let level := if att.walletPubkey ∈ node.trustedWallets then trustUserTrusted else trustSelfAttested
      if att.walletPubkey = node.walletAccount then
        if level < trustUserTrusted then trustUserTrusted else level
      else level

/-- Whether a record carries a build attestation that verifies. -/
def Node.signed (node : Node) (peer : Peer) : Bool :=
  match peer.buildAttestation with
  | none => false
  | some info => (verifyBuild node.crypto info).isOk

/-- The first half of `UpdateNodeTableHook`: the checks of the record on its own. `none` is
a record that enforcement rejects; the record that names this node is always let through. -/
def Node.vetted (node : Node) (peer : Peer) : Option Peer :=
  if node.requireSignedBinary && !node.signed peer && decide (peer.id ≠ node.myID) then none
  else some { peer with signedBuild := node.signed peer, trustLevel := node.trust peer.identityAttestation }

/-- The datastore key `"/" + peerId` as its namespaces. -/
def peerKey (peerId : String) : Key := (peerId.toList.splitOn '/').map String.ofList

theorem Node.trust_pos {node : Node} {att : Option IdentityAttestation} (trusted : trustSelfAttested ≤ node.trust att) :
    ∃ a, att = some a ∧ verifyIdentity node.crypto (some a) = .ok () := by
  cases att with
  | none => exact absurd (show trustSelfAttested ≤ trustUntrusted from trusted) (by decide)
  | some a =>
    refine ⟨a, rfl, ?_⟩
    cases verified : verifyIdentity node.crypto (some a) with
    | ok _ => rfl
    | error e =>
      simp only [Node.trust, verified] at trusted
      exact absurd trusted (by decide)

theorem Node.trust_of_verified {node : Node} {a : IdentityAttestation}
    (verified : verifyIdentity node.crypto (some a) = .ok ()) : trustSelfAttested ≤ node.trust (some a) := by
  simp only [Node.trust, verified]
  split
  · split
    · decide
    · split <;> decide
  · split <;> decide

end OpenTela
