import OpenTela.NodeTable.Departed
import OpenTela.Server.Http

namespace OpenTela

/-- What the handlers use of `jsonparser` and `json.Marshal`: whether a body has a key, the string
under it, and the body of an object with one key. -/
structure JsonParser where
  has : String → String → Bool
  getString : String → String → Option String
  marshal : String → String → String

/-- The best match among the identity groups: 1 is catch-all, 2 wildcard, 3 exact. -/
def identityMatch (json : JsonParser) (body : String) : List String → ℕ → ℕ
  | [], bestMatch => bestMatch
  | ig :: rest, bestMatch =>
    if ig = "all" then identityMatch json body rest (max bestMatch 1)
    else
      match splitOnce '=' ig with
      | none => identityMatch json body rest bestMatch
      | some (igKey, igValue) =>
        if igValue = "*" then identityMatch json body rest (if json.has body igKey then max bestMatch 2 else bestMatch)
        else if json.getString body igKey = some igValue then 3
        else identityMatch json body rest bestMatch

/-- The match of a provider: that of its first service with the name that has one. -/
def providerMatch (json : JsonParser) (body serviceName : String) : List Service → ℕ
  | [] => 0
  | service :: rest =>
    if service.name = serviceName then
      let bestMatch := identityMatch json body service.identityGroup 0
      if 0 < bestMatch then bestMatch else providerMatch json body serviceName rest
    else providerMatch json body serviceName rest

def selectCandidates (json : JsonParser) (providers : List Peer) (serviceName body : String) (fallbackLevel : ℤ) : List String :=
  let tier := fun level => (providers.filter (fun p => providerMatch json body serviceName p.service = level)).map Peer.id
  let candidates := tier 3
  let candidates := if candidates = [] ∧ 1 ≤ fallbackLevel then tier 2 else candidates
  if candidates = [] ∧ 2 ≤ fallbackLevel then tier 1 else candidates

def parseFallbackLevel (header : String) : ℤ :=
  if header = "" then 0
  else
    match atoi header with
    | none => 0
    | some level => if 0 ≤ level ∧ level ≤ 2 then level else 0

def excludePeers (candidates excluded : List String) : List String := candidates.filter (fun c => c ∉ excluded)

/-- The draw is that of `rand.Float64() > acceptRate`. -/
def shouldShedLoad (available expected : ℤ) (draw : Bool) : Bool :=
  if expected ≤ 0 ∨ expected ≤ available then false else draw

def getPeerFromTable (table : NodeTable) (peerId : String) : Option Peer := table.lookup (peerKey peerId)

def filterByTrust (table : NodeTable) (candidates : List String) (minTrust : ℤ) : List String :=
  candidates.filter (fun id =>
    match getPeerFromTable table id with
    | none => false
    | some peer => decide (minTrust ≤ peer.trustLevel))

def filterAllowedCandidatesV2 (candidates : List String) : Option ControlPlaneDecisionV2 → List String
  | none => candidates
  | some decision => candidates.filter decision.allows

def buildInternalServicePath (scope : RoutingScope) (suffix : String) : String :=
  if scope.partition = .trustedRegion then "/v1/_regions/" ++ scope.region ++ "/service/" ++ scope.service ++ suffix
  else "/v1/_service/" ++ scope.service ++ suffix

/-- A connection, and whether its remote address is that of a circuit, if it has one. -/
structure Conn where
  limited : Bool
  circuit : Option Bool

/-- The libp2p host as the routing looks at it; `decode` is `peer.Decode`. -/
structure Network where
  up : Bool := true
  id : String := ""
  decode : String → Option String := fun s => some s
  connected : String → Bool := fun _ => false
  conns : String → List Conn := fun _ => []
  peers : List String := []

def isTrustedDirectConn (conn : Conn) : Bool := !conn.limited && conn.circuit == some false

def isDirectlyConnected (net : Network) (targetPeerID : String) : Bool := net.up && (net.decode targetPeerID).any net.connected

def hasTrustedDirectConnection (net : Network) (targetPeerID : String) : Bool :=
  net.up && (net.decode targetPeerID).any (fun pid => (net.conns pid).any isTrustedDirectConn)

/-- The relay the target advertises, if this node is connected to it. -/
def advertisedRelay (net : Network) (table : NodeTable) (targetPeerID : String) : Option String :=
  match getPeerFromTable table targetPeerID with
  | none => none
  | some info =>
    if info.relayPeer ≠ "" ∧ (net.decode info.relayPeer).any net.connected = true then some info.relayPeer else none

def findRelayFor (net : Network) (table : NodeTable) (targetPeerID : String) : String :=
  if !net.up then ""
  else
    match advertisedRelay net table targetPeerID with
    | some relay => relay
    | none =>
      match net.decode targetPeerID with
      | none => ""
      | some targetPID =>
        let relays := net.peers.filter (fun p => p ≠ targetPID ∧ p ≠ net.id ∧
          (getPeerFromTable table p).any (fun info => info.role.any (fun r => r == "relay" || r == "head")) = true)
        relays.headD ""

/-- What a handler finds around it: the table and the network before its attempts (at 0) and at
each of them (from 1 on), what the load balancer picks, which attempts fail so that another one
may be made, and the draw of the admission control. -/
structure Surroundings where
  table : ℕ → NodeTable := fun _ => ∅
  network : ℕ → Network := fun _ => {}
  pick : ℕ → ℕ := fun _ => 0
  retryable : ℕ → Request → Bool := fun _ _ => false
  draw : Bool := false
  requestID : String := ""

structure RoutingSetup where
  json : JsonParser
  admissionControl : Bool := false
  expectedWorkers : ℤ := 0
  retryEnabled : Bool := false
  maxRetries : ℤ := 0

section Global

variable (setup : RoutingSetup) (env : Surroundings) (scope : RoutingScope) (req : Request)

/-- The body in which the identity groups are looked up. -/
def matchBody (body : String) : String :=
  match splitOnce '=' (req.getHeader "X-Otela-Identity-Group") with
  | none => body
  | some (key, value) => setup.json.marshal key value

/-- `globalServiceForwardWithScope` up to the authorization. -/
def routingCandidates : Except Reply (List String) :=
  match req.body with
  | .error e => .error { status := statusInternalServerError, error := { text := e } }
  | .ok body =>
    match getAllProviders (env.table 0) scope.service with
    | (_, some e) => .error { status := statusBadRequest, error := { text := e } }
    | (providers, none) =>
      match selectCandidates setup.json providers scope.service (matchBody setup req body)
          (parseFallbackLevel (req.getHeader "X-Otela-Fallback")) with
      | [] => .error { status := statusServiceUnavailable, error := { text := "No provider found for the requested service." } }
      | candidates => .ok candidates

/-- The candidates that are allowed, and the wallet. Without a control plane there is no answer. -/
def filterAuthorized (candidates : List String) :
    Option (Except ControlPlaneError (Option ControlPlaneDecisionV2)) → Except Reply (List String × String)
  | none => .ok (candidates, "")
  | some (.error e) => .error { status := e.status, error := { text := e.clientMessage } }
  | some (.ok decision) =>
    match filterAllowedCandidatesV2 candidates decision with
    | [] => .error { status := statusForbidden, error := { text := "access denied by instance ACL" } }
    | allowed => .ok (allowed, decision.elim "" ControlPlaneDecisionV2.primaryWallet)

def filterDirect (candidates : List String) : Except Reply (List String) :=
  if scope.trusted then
    match candidates.filter (hasTrustedDirectConnection (env.network 0)) with
    | [] => .error { status := statusServiceUnavailable, error := { text := "no direct trusted providers available" } }
    | direct => .ok direct
  else .ok candidates

def filterTrust (candidates : List String) : Except Reply (List String) :=
  if scope.partition = .permissionless then
    match atoi (req.getHeader "X-Otela-Trust") with
    | none => .ok candidates
    | some minTrust =>
      if 0 < minTrust then
        match filterByTrust (env.table 0) candidates minTrust with
        | [] =>
          .error { status := statusServiceUnavailable
                   error := { text := "No provider meets the requested trust level (" ++ toString minTrust ++ ")." } }
        | trusted => .ok trusted
      else .ok candidates
  else .ok candidates

def admission (candidates : List String) : Except Reply Unit :=
  if setup.admissionControl && decide (0 < setup.expectedWorkers) &&
      shouldShedLoad candidates.length setup.expectedWorkers env.draw then
    .error { status := statusServiceUnavailable, error := { text := "Service degraded, try again later" } }
  else .ok ()

/-- Where attempt `n` at a peer goes, directly or by a relay. -/
def resolveTarget (n : ℕ) (targetPeer requestPath : String) : Option Target :=
  let net := env.network (n + 1)
  if scope.trusted then
    if !hasTrustedDirectConnection net targetPeer then none
    else some { scheme := "libp2p", host := targetPeer, path := requestPath }
  else if isDirectlyConnected net targetPeer then some { scheme := "libp2p", host := targetPeer, path := requestPath }
  else
    let relayPeer := findRelayFor net (env.table (n + 1)) targetPeer
    if relayPeer = "" then none
    else some { scheme := "libp2p", host := relayPeer, path := "/v1/p2p/" ++ targetPeer ++ requestPath }

end Global

end OpenTela
