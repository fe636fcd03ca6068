import OpenTela.Server.Forwarding

namespace OpenTela

structure Worker where
  myID : String
  controlPlane : ControlPlane
  policy : String := ""
  whitelist : List String := []
  blacklist : List String := []
  walletAccount : String := ""
  localServices : List Service := []
  table : NodeTable
  authorizer : Authorizer

def isLibp2pRemoteAddr (addr : String) : Bool :=
  "12D3".toList.isPrefixOf addr.toList || "Qm".toList.isPrefixOf addr.toList || "16Ui".toList.isPrefixOf addr.toList

def resolveCallerWallet (table : NodeTable) (r : Request) (controlPlaneWallet : String) (controlPlaneAuthoritative : Bool) : String :=
  if controlPlaneAuthoritative then controlPlaneWallet
  else if !isLibp2pRemoteAddr r.remoteAddr then ""
  else
    let clientWallet := r.getHeader clientWalletHeader
    if clientWallet ≠ "" then clientWallet
    else
      match getPeerFromTable table r.remoteAddr with
      | none => ""
      | some peer =>
        match peer.identityAttestation with
        | some att => if trustSelfAttested ≤ peer.trustLevel then att.walletPubkey else peer.owner
        | none => peer.owner

def maybeWorkerScopeFromContext (r : Request) : Except Message (Option RoutingScope) :=
  if trimSpace r.service = "" then .ok none
  else
    let partition := if trimSpace r.region ≠ "" then RoutingPartition.trustedRegion else .permissionless
    match newRoutingScope partition r.region .worker r.service with
    | .error e => .error e
    | .ok scope => .ok (some scope)

section Worker

variable (w : Worker)

/-- The checks of a request within a scope; the wallet is the control plane's, if there is one. -/
def Worker.checkScope (scope : RoutingScope) (r : Request) : Except Reply (Option String) :=
  match resolveUniqueLocalService w.localServices scope.service with
  | .error reply => .error reply
  | .ok _ =>
    if scope.trusted && !w.controlPlane.isControlPlaneEnabled then
      .error { status := statusServiceUnavailable, error := { text := "trusted region routing requires control plane" } }
    else if scope.trusted && !isLibp2pRemoteAddr r.remoteAddr then
      .error { status := statusForbidden, error := { text := "trusted worker routes require a libp2p upstream" } }
    else if w.controlPlane.isControlPlaneEnabled then
      let upstreamPeerID := if isLibp2pRemoteAddr r.remoteAddr then r.remoteAddr else ""
      match w.authorizer.forScope (r.getHeader "Authorization") scope [w.myID] upstreamPeerID with
      | .error e => .error { status := e.status, error := { text := e.clientMessage } }
      | .ok none => .error (scopeDenial scope "")
      | .ok (some decision) =>
        if decision.allows w.myID then .ok (some decision.primaryWallet) else .error (scopeDenial scope (decision.reason w.myID))
    else .ok none

def Worker.checkPeer (r : Request) : Except Reply (Option String) :=
  if w.controlPlane.isControlPlaneEnabled then
    match w.authorizer.forPeers (r.getHeader "Authorization") [w.myID] with
    | .error e => .error { status := e.status, error := { text := e.clientMessage } }
    | .ok none => .error { status := statusForbidden, error := { text := "access denied by instance ACL" } }
    | .ok (some decision) =>
      if decision.allows w.myID then .ok (some decision.primaryWallet)
      else .error { status := statusForbidden, error := { text := "access denied by instance ACL" } }
  else .ok none

def Worker.checkPolicy (callerWallet : String) : Except Reply Unit :=
  let denied := fun text => Except.error { status := statusForbidden, error := { text } }
  let policy := String.ofList (w.policy.toList.map Char.toLower)
  if policy = "self" then
    if w.walletAccount = "" then denied "access denied: node has policy=self but no wallet configured"
    else if callerWallet ≠ w.walletAccount then
      denied "access denied: only requests from the node operator's own wallet are accepted"
    else .ok ()
  else if policy = "whitelist" then
    if callerWallet ∉ w.whitelist then denied "access denied: wallet not in whitelist" else .ok ()
  else if policy = "blacklist" then
    if callerWallet ∈ w.blacklist then denied "access denied: wallet is blacklisted" else .ok ()
  -- `any`, none at all, and every unknown policy
  else .ok ()

/-- `accessControlMiddleware`: the request goes on, or it is answered. -/
def Worker.accessControl (r : Request) : Except Reply Unit :=
  match maybeWorkerScopeFromContext r with
  | .error e => .error { status := statusBadRequest, error := e }
  | .ok scope =>
    match scope.elim (w.checkPeer r) (fun scope => w.checkScope scope r) with
    | .error reply => .error reply
    | .ok wallet => w.checkPolicy (resolveCallerWallet w.table r (wallet.getD "") wallet.isSome)

end Worker

end OpenTela
