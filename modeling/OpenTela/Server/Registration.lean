import OpenTela.Lib.Crew
import OpenTela.NodeTable.Peer
import OpenTela.Server.Http

namespace OpenTela

open Prog

/-- `challengeTTL`, in nanoseconds. -/
def challengeTTL : ℤ := 60000000000

structure ChallengeResponse where
  nonce : String
  signature : String
  peerID : String
  publicKey : String

/-- `RegisterRequest`: the peer with the fields that only this handler looks at. -/
structure RegisterRequest where
  peer : Peer
  providerID : String := ""
  publicAddress : String
  publicPort : String
  challengeResponse : ChallengeResponse

structure PendingChallenge where
  peerID : String
  nonce : Bytes
  expires : ℤ
  deriving DecidableEq

/-- The libraries that registration calls. -/
structure Registrar (PubKey : Type) where
  crypto : Crypto
  encodeHex : Bytes → String
  unmarshalPublicKey : Bytes → Option PubKey
  idFromPublicKey : PubKey → Option String
  verify : PubKey → Bytes → Bytes → Option Bool
  parseIP : String → Bool
  buildBootstrapAddr : String → String → String → String → String

/-- The steps on the challenges, each of them atomic. `expire` and `consume` are both `challengeStore.Delete`. -/
inductive RegOp where
  | random
  | now
  | store (nonceHex : String) (challenge : PendingChallenge)
  | load (nonce : String)
  | expire (nonce : String)
  | consume (nonce : String)
  | range
  | registerRemotePeer (req : RegisterRequest)

def RegOp.Res : RegOp → Type
  | .random => Option Bytes
  | .now => ℤ
  | .load _ => Option PendingChallenge
  | .range => List (String × PendingChallenge)
  | .registerRemotePeer _ => Except String Unit
  | _ => Unit

abbrev RegM := Prog RegOp RegOp.Res Reply

namespace RegM

def random : RegM (Option Bytes) := Prog.perform RegOp.random
def now : RegM ℤ := Prog.perform RegOp.now
def store (nonceHex : String) (challenge : PendingChallenge) : RegM Unit := Prog.perform (RegOp.store nonceHex challenge)
def load (nonce : String) : RegM (Option PendingChallenge) := Prog.perform (RegOp.load nonce)
def expire (nonce : String) : RegM Unit := Prog.perform (RegOp.expire nonce)
def consume (nonce : String) : RegM Unit := Prog.perform (RegOp.consume nonce)
def range : RegM (List (String × PendingChallenge)) := Prog.perform RegOp.range
def registerRemotePeer (req : RegisterRequest) : RegM (Except String Unit) := Prog.perform (RegOp.registerRemotePeer req)

def deny {α : Type} (status : ℕ) (text : String) : RegM α := Prog.fail { status, error := { text } }

end RegM

open RegM

section Programs

variable {PubKey : Type} (setup : Registrar PubKey)

def challengePeer (peerID : String) : RegM String :=
  if peerID = "" then deny statusBadRequest "peer_id is required"
  else do
    match ← random with
    | none => deny statusInternalServerError "failed to generate nonce"
    | some nonce => do
      let nonceHex := setup.encodeHex nonce
      let now ← RegM.now
      RegM.store nonceHex { peerID, nonce, expires := now + challengeTTL }
      return nonceHex

def forbidden {α : Type} (text : String) : Except Reply α := .error { status := statusForbidden, error := { text } }

def badRequest {α : Type} (text : String) : Except Reply α := .error { status := statusBadRequest, error := { text } }

/-- Steps 3 to 5: the key is that of the peer, and has signed the nonce. -/
def registerPeer.verifyNonce (req : RegisterRequest) (challenge : PendingChallenge) : Except Reply Unit :=
  if req.challengeResponse.publicKey = "" then badRequest "public_key is required"
  else
    match setup.crypto.base64 req.challengeResponse.publicKey with
    | none => forbidden "invalid public key encoding"
    | some pubKeyBytes =>
      match setup.unmarshalPublicKey pubKeyBytes with
      | none => forbidden "invalid public key"
      | some pubKey =>
        match setup.idFromPublicKey pubKey with
        | none => forbidden "cannot derive peer id from public key"
        | some derivedID =>
          if derivedID ≠ req.peer.id then forbidden "public key does not match peer id"
          else
            match setup.crypto.hex req.challengeResponse.signature with
            | none => forbidden "invalid signature encoding"
            | some sigBytes =>
              match setup.verify pubKey challenge.nonce sigBytes with
              | some true => .ok ()
              | _ => forbidden "signature verification failed"

/-- Step 7. -/
def registerPeer.verifyOwner (req : RegisterRequest) : Except Reply Unit :=
  match req.peer.identityAttestation with
  | none => .ok ()
  | some att =>
    match verifyIdentity setup.crypto (some att) with
    | .error e => forbidden ("identity attestation verification failed: " ++ e)
    | .ok () =>
      if req.peer.owner ≠ att.walletPubkey then forbidden "owner does not match wallet pubkey in identity attestation" else .ok ()

def registerPeer.validPort (publicPort : String) : Bool :=
  match atoi publicPort with
  | none => false
  | some port => decide (1 ≤ port ∧ port ≤ 65535)

/-- Step 11. -/
def RegisterRequest.sanitize (req : RegisterRequest) : RegisterRequest :=
  { req with
    peer :=
      { req.peer with
        owner := if req.peer.identityAttestation = none then "" else req.peer.owner
        role := ["relay"]
        service := [] }
    providerID := if req.peer.identityAttestation = none then "" else req.providerID }

/-- Steps 6 to 11. -/
def registerPeer.vet (req : RegisterRequest) : Except Reply RegisterRequest :=
  match req.peer.buildAttestation with
  | none => forbidden "build attestation is required"
  | some info =>
    match verifyBuild setup.crypto info with
    | .error e => forbidden ("build attestation verification failed: " ++ e)
    | .ok () =>
      match registerPeer.verifyOwner setup req with
      | .error reply => .error reply
      | .ok () =>
        if !setup.parseIP req.publicAddress then badRequest "invalid public_address"
        else if !registerPeer.validPort req.publicPort then badRequest "public_port must be a valid TCP port (1-65535)"
        else if !req.peer.role.any (fun r => equalFold r "relay") then badRequest "role must include relay"
        else .ok req.sanitize

/-- The handler, with the request as `BindJSON` reads it. -/
def registerPeer (body : Except String RegisterRequest) : RegM String :=
  match body with
  | .error e => deny statusBadRequest e
  | .ok req =>
    if req.peer.id = "" ∨ req.challengeResponse.peerID = "" ∨ req.peer.id ≠ req.challengeResponse.peerID then
      deny statusBadRequest "peer id mismatch or missing"
    else do
      match ← load req.challengeResponse.nonce with
      | none => deny statusForbidden "invalid or expired nonce"
      | some challenge => do
        let now ← RegM.now
        if challenge.expires < now then do
          expire req.challengeResponse.nonce
          deny statusForbidden "invalid or expired nonce"
        else if challenge.peerID ≠ req.peer.id then deny statusForbidden "nonce peer id mismatch"
        else
          match registerPeer.verifyNonce setup req challenge with
          | .error reply => .fail reply
          | .ok () => do
            consume req.challengeResponse.nonce
            match registerPeer.vet setup req with
            | .error reply => .fail reply
            | .ok req => do
              match ← RegM.registerRemotePeer req with
              | .error _ => deny statusInternalServerError "failed to register peer"
              | .ok () => return setup.buildBootstrapAddr req.publicAddress req.publicPort "" req.peer.id

def cleanExpiredChallenges.loop (now : ℤ) : List (String × PendingChallenge) → RegM Unit
  | [] => return ()
  | (key, challenge) :: rest =>
    if challenge.expires < now then do
      expire key
      loop now rest
    else loop now rest

def cleanExpiredChallenges : RegM Unit := do
  let now ← RegM.now
  let entries ← range
  cleanExpiredChallenges.loop now entries

end Programs

/-- A request to one of the handlers, or a round of the cleanup. -/
inductive RegTask where
  | challenge (peerID : String)
  | register (body : Except String RegisterRequest)
  | cleanup

/-- What a thread has come to: what it has loaded, the clock it has read, the nonce it has consumed, and whether it
has registered its peer. -/
structure RegProgress where
  loaded : Option (String × PendingChallenge) := none
  read : Option ℤ := none
  consumed : Option String := none
  registered : Bool := false

def RegProgress.learn (k : RegProgress) : (o : RegOp) → o.Res → RegProgress
  | .load nonce, (found : Option PendingChallenge) => { k with loaded := found.map (fun challenge => (nonce, challenge)) }
  | .now, (now : ℤ) => { k with read := some now }
  | .consume nonce, _ => { k with consumed := some nonce }
  | .registerRemotePeer _, (out : Except String Unit) => { k with registered := k.registered || out.isOk }
  | _, _ => k

/-- A registration that has succeeded, and when its nonce has been checked. -/
structure Registration where
  thread : ℕ
  req : RegisterRequest
  checked : Option ℤ

def Registration.nonce (r : Registration) : String := r.req.challengeResponse.nonce

/-- The challenge store. Only noted are the challenges issued, which thread has consumed a nonce, the registrations,
and the progress of each thread. -/
structure Registry where
  challengeStore : List (String × PendingChallenge) := []
  issued : List (String × PendingChallenge) := []
  consumed : List (ℕ × String) := []
  registered : List Registration := []
  progress : ℕ → RegProgress := fun _ => {}

/-- The bytes `rand.Read` gives, the time, and what comes of the write of a peer. -/
structure RegChance where
  random : Option Bytes := none
  now : ℤ := 0
  written : Except String Unit := .ok ()

namespace Registry

def delete (nonce : String) (s : Registry) : Registry :=
  { s with challengeStore := s.challengeStore.filter (fun entry => entry.1 ≠ nonce) }

def act (i : ℕ) (chance : RegChance) : (o : RegOp) → Registry → o.Res × Registry
  | .random, s => (chance.random, s)
  | .now, s => (chance.now, s)
  | .store nonceHex challenge, s =>
    ((), { s with
      challengeStore := (nonceHex, challenge) :: (s.delete nonceHex).challengeStore
      issued := s.issued ++ [(nonceHex, challenge)] })
  | .load nonce, s => (s.challengeStore.lookup nonce, s)
  | .expire nonce, s => ((), s.delete nonce)
  | .consume nonce, s => ((), { s.delete nonce with consumed := s.consumed ++ [(i, nonce)] })
  | .range, s => (s.challengeStore, s)
  | .registerRemotePeer req, s =>
    (chance.written,
      if chance.written.isOk then { s with registered := s.registered ++ [{ thread := i, req, checked := (s.progress i).read }] }
      else s)

def exec (i : ℕ) (chance : RegChance) (o : RegOp) (s : Registry) : Option (o.Res × Registry) :=
  let out := s.act i chance o
  some (out.1, { out.2 with progress := Function.update out.2.progress i ((out.2.progress i).learn o out.1) })

end Registry

def Registrar.body {PubKey : Type} (setup : Registrar PubKey) : RegTask → RegM Unit
  | .challenge peerID => (challengePeer setup peerID).bind (fun _ => .ret ())
  | .register body => (registerPeer setup body).bind (fun _ => .ret ())
  | .cleanup => cleanExpiredChallenges

def Registrar.system {PubKey : Type} (setup : Registrar PubKey) : System RegOp RegOp.Res Reply Registry RegChance RegTask where
  exec := Registry.exec
  starts := fun _ => []
  body := setup.body
  entry := fun _ => true

abbrev RegCrew := Prog.Crew RegOp RegOp.Res Reply Registry RegTask

/-- A server that has just been started. -/
def RegCrew.fresh : RegCrew := ⟨{}, []⟩

end OpenTela
