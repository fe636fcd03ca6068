import OpenTela.Server.DecisionCache
import OpenTela.Server.Routing
import Mathlib.Data.List.GetD

namespace OpenTela

def parseBearerToken (authHeader : String) : Except AuthError String :=
  if authHeader = "" then .error .errMissingBearer
  else
    match splitOnce ' ' authHeader with
    | none => .error .errInvalidBearer
    | some (scheme, rest) =>
      if !equalFold scheme "bearer" then .error .errInvalidBearer
      else
        let token := trimSpace rest
        if token = "" then .error .errInvalidBearer else .ok token

/-- What the legacy auth server answers: a status and the wallet in a body that can be decoded. -/
inductive LegacyAnswer where
  | unreachable
  | status (code : ℕ) (wallet : Option String)

/-- The legacy auth server, and the wallets that are cached for 60 seconds. -/
structure Legacy where
  cached : String → Option String := fun _ => none
  verify : String → LegacyAnswer := fun _ => .unreachable

/-- What the two evaluations answer to a handler that makes one of them. -/
structure Authorizer where
  forPeers : String → List String → Except ControlPlaneError (Option ControlPlaneDecision)
  forScope : String → RoutingScope → List String → String → Except ControlPlaneError (Option ControlPlaneDecisionV2)

structure ServerSetup where
  controlPlane : ControlPlane
  authURL : String := ""
  routing : RoutingSetup

/-- A request on its way to a peer. -/
structure Dispatch where
  peer : String
  target : Target
  request : Request

/-- The header of the wallet that the source spells out. -/
def director (target : Target) (clientWallet : String) (req : Request) : Request :=
  { req with
    host := target.host
    path := target.path
    header := if clientWallet ≠ "" then req.header.set clientWalletHeader clientWallet else req.header }

def messageForScopeDenial (scope : RoutingScope) (reason : String) : String :=
  if reason = "service_context_required" then "service-managed targets require service-aware routing"
  else if reason = "service_undeclared" then "service is not declared for this instance"
  else if reason = "duplicate_service_name" then "duplicate local service name"
  else if reason = "service_disabled" then "service is disabled"
  else if reason = "partition_mismatch" then "service is not exposed through this partition"
  else if reason = "trusted_route_required" then
    if scope.trusted then "trusted route required" else "service must be reached through a trusted route"
  else if reason = "untrusted_upstream" then "upstream peer is not trusted for this region"
  else "access denied by instance ACL"

/-- `statusForScopeDenial` is 403 for every reason. -/
def scopeDenial (scope : RoutingScope) (reason : String) : Reply :=
  { status := statusForbidden, error := { text := messageForScopeDenial scope reason } }

section Handlers

variable (setup : ServerSetup) (legacy : Legacy) (auth : Authorizer) (env : Surroundings)

def verifyBearerToken (token : String) : Except Message String :=
  if setup.controlPlane.isControlPlaneEnabled then .ok ""
  else if setup.authURL = "" then .ok ""
  else
    match legacy.cached token with
    | some wallet => .ok wallet
    | none =>
      match legacy.verify token with
      | .unreachable => .error { text := "auth server unreachable" }
      | .status code wallet =>
        if code = statusUnauthorized then .error { text := "invalid or revoked token" }
        else if code ≠ statusOK then .error { text := "auth server returned " ++ toString code }
        else
          match wallet with
          | none => .error { text := "invalid auth response" }
          | some wallet => .ok wallet

def resolveClientWallet (req : Request) : String :=
  match parseBearerToken (req.getHeader "Authorization") with
  | .error _ => ""
  | .ok token =>
    match verifyBearerToken setup legacy token with
    | .error _ => ""
    | .ok wallet => wallet

/-- The wallet of the decision, or else that of the legacy auth server. -/
def authenticatedWallet (req : Request) (primaryWallet : String) : String :=
  if primaryWallet = "" then resolveClientWallet setup legacy req else primaryWallet

def p2pForwardHandler.authorize (req : Request) : Except Reply String :=
  if setup.controlPlane.isControlPlaneEnabled then
    match auth.forPeers (req.getHeader "Authorization") [req.peerId] with
    | .error e => .error { status := e.status, error := { text := e.clientMessage } }
    | .ok none => .error { status := statusForbidden, error := { text := "access denied by instance ACL" } }
    | .ok (some decision) =>
      if decision.allows req.peerId then .ok decision.primaryWallet
      else .error { status := statusForbidden, error := { text := "access denied by instance ACL" } }
  else .ok ""

def p2pForwardHandler (req : Request) : Except Reply (List Dispatch) :=
  match p2pForwardHandler.authorize setup auth req with
  | .error reply => .error reply
  | .ok primaryWallet =>
    let clientWallet := authenticatedWallet setup legacy req primaryWallet
    let target : Target := { scheme := "libp2p", host := req.peerId, path := req.path }
    .ok [{ peer := req.peerId, target, request := serveHTTP (director target clientWallet) req }]

def p2pServiceForwardWithScope.authorize (scope : RoutingScope) (req : Request) : Except Reply String :=
  if setup.controlPlane.isControlPlaneEnabled then
    match auth.forScope (req.getHeader "Authorization") scope [req.peerId] "" with
    | .error e => .error { status := e.status, error := { text := e.clientMessage } }
    | .ok none => .error (scopeDenial scope "")
    | .ok (some decision) =>
      if decision.allows req.peerId then .ok decision.primaryWallet
      else .error (scopeDenial scope (decision.reason req.peerId))
  else .ok ""

def p2pServiceForwardWithScope (scope : RoutingScope) (req : Request) : Except Reply (List Dispatch) :=
  match p2pServiceForwardWithScope.authorize setup auth scope req with
  | .error reply => .error reply
  | .ok primaryWallet =>
    let clientWallet := authenticatedWallet setup legacy req primaryWallet
    let target : Target := { scheme := "libp2p", host := req.peerId, path := buildInternalServicePath scope req.path }
    if scope.trusted && !hasTrustedDirectConnection (env.network 0) req.peerId then
      .error { status := statusServiceUnavailable, error := { text := "no direct trusted path available" } }
    else .ok [{ peer := req.peerId, target, request := serveHTTP (director target clientWallet) req }]

/-- A handler that makes its scope from the parameters of the route. -/
def withScope (partition : RoutingPartition) (region : String) (kind : RouteKind)
    (forward : RoutingScope → Request → Except Reply (List Dispatch)) (req : Request) : Except Reply (List Dispatch) :=
  match newRoutingScope partition region kind req.service with
  | .error e => .error { status := statusBadRequest, error := e }
  | .ok scope => forward scope req

def p2pServiceForwardHandler (req : Request) : Except Reply (List Dispatch) :=
  withScope .permissionless "" .p2pIngress (p2pServiceForwardWithScope setup legacy auth env) req

def trustedRegionP2PServiceForwardHandler (req : Request) : Except Reply (List Dispatch) :=
  withScope .trustedRegion req.region .p2pIngress (p2pServiceForwardWithScope setup legacy auth env) req

/-- The retry loop, `rounds` attempts at most, of which this is number `n`; `send` makes the request
that goes to a target. -/
def globalServiceForward.attempts (scope : RoutingScope) (requestPath : String) (send : Target → Request) (candidates : List String) :
    (rounds : ℕ) → (n : ℕ) → (excluded : List String) → List Dispatch
  | 0, _, _ => []
  | rounds + 1, n, excluded =>
    match excludePeers candidates excluded with
    | [] => []
    | first :: rest =>
      let remaining := first :: rest
      let targetPeer := remaining.getD (env.pick n % remaining.length) first
      match resolveTarget env scope n targetPeer requestPath with
      | none => attempts scope requestPath send candidates rounds (n + 1) (targetPeer :: excluded)
      | some target =>
        { peer := targetPeer, target, request := send target } ::
          if env.retryable n (send target) then
            attempts scope requestPath send candidates rounds (n + 1) (targetPeer :: excluded)
          else []

/-- The candidates an attempt may be made at, and the wallet of the answer. -/
def globalServiceForward.eligible (scope : RoutingScope) (req : Request) (candidates : List String)
    (outcome : Option (Except ControlPlaneError (Option ControlPlaneDecisionV2))) : Except Reply (List String × String) := do
  let (candidates, primaryWallet) ← filterAuthorized candidates outcome
  let candidates ← filterDirect env scope candidates
  let candidates ← filterTrust env scope req candidates
  admission setup.routing env candidates
  return (candidates, primaryWallet)

/-- `globalServiceForwardWithScope` from the answer of the authorization on. -/
def globalServiceForward (scope : RoutingScope) (req : Request) (candidates : List String)
    (outcome : Option (Except ControlPlaneError (Option ControlPlaneDecisionV2))) : Except Reply (List Dispatch) :=
  match globalServiceForward.eligible setup env scope req candidates outcome with
  | .error reply => .error reply
  | .ok (candidates, primaryWallet) =>
    let maxRetries := if setup.routing.retryEnabled then setup.routing.maxRetries else 0
    let clientWallet := authenticatedWallet setup legacy req primaryWallet
    let attemptReq := { req with header := req.header.set "X-Otela-Request-Id" env.requestID }
    .ok (globalServiceForward.attempts env scope (buildInternalServicePath scope req.path)
      (fun target => serveHTTP (director target clientWallet) attemptReq) candidates (maxRetries + 1).toNat 0 [])

def globalServiceForwardWithScope (scope : RoutingScope) (req : Request) : Except Reply (List Dispatch) :=
  match routingCandidates setup.routing env scope req with
  | .error reply => .error reply
  | .ok candidates =>
    globalServiceForward setup legacy env scope req candidates
      (if setup.controlPlane.isControlPlaneEnabled then some (auth.forScope (req.getHeader "Authorization") scope candidates "")
        else none)

def globalServiceForwardHandler (req : Request) : Except Reply (List Dispatch) :=
  withScope .permissionless "" .serviceIngress (globalServiceForwardWithScope setup legacy auth env) req

def trustedRegionServiceForwardHandler (req : Request) : Except Reply (List Dispatch) :=
  withScope .trustedRegion req.region .serviceIngress (globalServiceForwardWithScope setup legacy auth env) req

end Handlers

/-- The errors of `resolveUniqueLocalService`, as `writeServiceResolutionError` answers them. -/
def resolveUniqueLocalService (localServices : List Service) (name : String) : Except Reply Service :=
  if !serviceNamePattern name then .error { status := statusBadRequest, error := { text := "invalid service name", quoted := some name } }
  else
    match localServices.filter (fun service => service.name == name) with
    | [] => .error { status := statusForbidden, error := { text := "local service not found" } }
    | [service] => .ok service
    | _ => .error { status := statusForbidden, error := { text := "duplicate local service name" } }

/-- `ServiceForwardHandler`, with the service that the access control has resolved. -/
def serviceForwardHandler (localServices : List Service) (resolved : Option Service) (req : Request) : Except Reply (List Dispatch) :=
  match resolved.elim (resolveUniqueLocalService localServices req.service) Except.ok with
  | .error reply => .error reply
  | .ok service =>
    let target : Target := { scheme := "http", host := service.host ++ ":" ++ service.port, path := req.path }
    .ok [{ peer := "", target, request := serveHTTP (director target "") req }]

section Attempts

variable {setup : ServerSetup} {env : Surroundings} {scope : RoutingScope} {req : Request}

/-- Whether an attempt is made at all does not depend on what is sent. -/
theorem attempts_nil {requestPath : String} {candidates : List String} {rounds n : ℕ} {excluded : List String}
    (send send' : Target → Request)
    (none : globalServiceForward.attempts env scope requestPath send candidates rounds n excluded = []) :
    globalServiceForward.attempts env scope requestPath send' candidates rounds n excluded = [] := by
  induction rounds generalizing n excluded with
  | zero => rfl
  | succ rounds ih =>
    unfold globalServiceForward.attempts at none ⊢
    split at none
    · rfl
    · dsimp only at none ⊢
      split at none
      · exact ih none
      · cases none

theorem mem_excludePeers {candidates excluded : List String} {c : String} :
    c ∈ excludePeers candidates excluded ↔ c ∈ candidates ∧ c ∉ excluded := by
  simp [excludePeers]

/-- Whoever is picked is left. -/
theorem pick_mem {candidates excluded rest : List String} {first : String} (pick : ℕ)
    (left : excludePeers candidates excluded = first :: rest) :
    (first :: rest).getD (pick % (first :: rest).length) first ∈ excludePeers candidates excluded := by
  have within : pick % (first :: rest).length < (first :: rest).length := Nat.mod_lt _ (by simp)
  rw [List.getD_eq_getElem _ _ within, left]
  exact List.getElem_mem within

/-- An attempt goes to a candidate, at the target found for it. -/
theorem attempts_mem {requestPath : String} {send : Target → Request} {candidates : List String} {rounds n : ℕ}
    {excluded : List String} {d : Dispatch}
    (member : d ∈ globalServiceForward.attempts env scope requestPath send candidates rounds n excluded) :
    d.peer ∈ candidates ∧ d.request = send d.target ∧ ∃ n, resolveTarget env scope n d.peer requestPath = some d.target := by
  induction rounds generalizing n excluded with
  | zero => cases member
  | succ rounds ih =>
    unfold globalServiceForward.attempts at member
    split at member
    · cases member
    · rename_i first rest left
      dsimp only at member
      have picked := (mem_excludePeers.mp (pick_mem (env.pick n) left)).1
      split at member
      · exact ih member
      · rename_i target found
        rcases List.mem_cons.mp member with rfl | later
        · exact ⟨picked, rfl, n, found⟩
        · split at later
          · exact ih later
          · cases later

theorem filterDirect_mem {candidates direct : List String} (filtered : filterDirect env scope candidates = .ok direct) {c : String}
    (member : c ∈ direct) : c ∈ candidates := by
  unfold filterDirect at filtered
  split at filtered
  · split at filtered
    · cases filtered
    · cases filtered
      exact List.mem_of_mem_filter member
  · cases filtered
    exact member

theorem filterTrust_mem {candidates trusted : List String} (filtered : filterTrust env scope req candidates = .ok trusted) {c : String}
    (member : c ∈ trusted) : c ∈ candidates := by
  unfold filterTrust at filtered
  split at filtered
  · split at filtered
    · cases filtered
      exact member
    · split at filtered
      · split at filtered
        · cases filtered
        · cases filtered
          exact List.mem_of_mem_filter member
      · cases filtered
        exact member
  · cases filtered
    exact member

/-- Whoever is eligible has been authorized. -/
theorem eligible_ok {candidates eligible : List String} {primaryWallet : String}
    {outcome : Option (Except ControlPlaneError (Option ControlPlaneDecisionV2))}
    (found : globalServiceForward.eligible setup env scope req candidates outcome = .ok (eligible, primaryWallet)) :
    ∃ allowed, filterAuthorized candidates outcome = .ok (allowed, primaryWallet) ∧ ∀ c ∈ eligible, c ∈ allowed := by
  unfold globalServiceForward.eligible at found
  cases authorized : filterAuthorized candidates outcome with
  | error reply => simp [authorized, bind, Except.bind] at found
  | ok out =>
    obtain ⟨allowed, wallet⟩ := out
    simp only [authorized, bind, Except.bind] at found
    cases direct : filterDirect env scope allowed with
    | error reply => simp [direct] at found
    | ok near =>
      simp only [direct] at found
      cases trusted : filterTrust env scope req near with
      | error reply => simp [trusted] at found
      | ok remaining =>
        simp only [trusted] at found
        split at found
        · cases found
        · cases found
          exact ⟨allowed, rfl, fun c member => filterDirect_mem direct (filterTrust_mem trusted member)⟩

/-- A request goes out to an authorized candidate, at the target found for it. -/
theorem globalServiceForward_mem {legacy : Legacy} {candidates : List String}
    {outcome : Option (Except ControlPlaneError (Option ControlPlaneDecisionV2))} {deliveries : List Dispatch}
    (forwarded : globalServiceForward setup legacy env scope req candidates outcome = .ok deliveries) {d : Dispatch}
    (member : d ∈ deliveries) :
    ∃ allowed primaryWallet, filterAuthorized candidates outcome = .ok (allowed, primaryWallet) ∧ d.peer ∈ allowed ∧
      ∃ n, resolveTarget env scope n d.peer (buildInternalServicePath scope req.path) = some d.target := by
  unfold globalServiceForward at forwarded
  split at forwarded
  · cases forwarded
  · rename_i eligible primaryWallet found
    cases forwarded
    obtain ⟨allowed, authorized, within⟩ := eligible_ok found
    obtain ⟨candidate, _, routed⟩ := attempts_mem member
    exact ⟨allowed, primaryWallet, authorized, within _ candidate, routed⟩

end Attempts

end OpenTela
