import OpenTela.Server.Scope
import Mathlib.Data.List.Dedup

namespace OpenTela

inductive AuthError where
  | errMissingBearer
  | errInvalidBearer
  | errInvalidToken
  | errEvaluatorDown
  | errMalformedResponse (detail : Option Message)
  | errMissingControlToken
  deriving DecidableEq

def statusOK : ℕ := 200
def statusBadRequest : ℕ := 400
def statusUnauthorized : ℕ := 401
def statusForbidden : ℕ := 403
def statusInternalServerError : ℕ := 500
def statusBadGateway : ℕ := 502
def statusServiceUnavailable : ℕ := 503

structure ControlPlaneError where
  status : ℕ
  err : AuthError
  deriving DecidableEq

def ControlPlaneError.clientMessage (e : ControlPlaneError) : String :=
  if e.status = statusUnauthorized then
    match e.err with
    | .errMissingBearer | .errInvalidBearer => "invalid or missing bearer token"
    | _ => "invalid or revoked token"
  else "control-plane evaluator unavailable"

structure AclEvaluateRequest where
  keyHash : String
  peerIDs : List String
  deriving DecidableEq

structure AclEvaluateV2Request where
  keyHash : String
  partition : RoutingPartition
  region : String
  routeKind : RouteKind
  service : String
  peerIDs : List String
  upstreamPeerID : String
  deriving DecidableEq

structure AclDeniedPeer where
  peerID : String
  reason : String
  deriving DecidableEq

structure AclEvaluateResponse where
  keyID : String
  allowedPeerIDs : List String
  denied : List AclDeniedPeer
  primaryWallet : String
  cacheTTLSeconds : ℤ
  deriving DecidableEq

/-- A scope as the evaluator names it. -/
structure AclDecisionScope where
  partition : String
  region : String
  routeKind : String
  service : String
  deriving DecidableEq

structure AclDecisionV2 where
  peerID : String
  allowed : Bool
  reason : String
  policyScope : String
  serviceExposure : String
  deriving DecidableEq

structure AclEvaluateV2Response where
  keyID : String
  primaryWallet : String
  decisionScope : AclDecisionScope
  decisions : List AclDecisionV2
  cacheTTLSeconds : ℤ
  deriving DecidableEq

structure ControlPlaneDecision where
  keyID : String := ""
  primaryWallet : String := ""
  allowedPeerIDs : List String := []
  deniedReasons : List (String × String) := []
  deriving DecidableEq

/-- The decisions of the source are a map; here each carries its key. -/
structure ControlPlaneDecisionV2 where
  keyID : String := ""
  primaryWallet : String := ""
  scope : AclDecisionScope
  decisions : List AclDecisionV2
  deriving DecidableEq

def ControlPlaneDecision.allows (d : ControlPlaneDecision) (peerID : String) : Bool := decide (peerID ∈ d.allowedPeerIDs)

def ControlPlaneDecisionV2.allows (d : ControlPlaneDecisionV2) (peerID : String) : Bool :=
  match d.decisions.find? (fun decision => decision.peerID = peerID) with
  | none => false
  | some decision => decision.allowed

def ControlPlaneDecisionV2.reason (d : ControlPlaneDecisionV2) (peerID : String) : String :=
  match d.decisions.find? (fun decision => decision.peerID = peerID) with
  | none => ""
  | some decision => decision.reason

/-- The peers a decision allows. -/
def ControlPlaneDecisionV2.allowedPeers (d : ControlPlaneDecisionV2) : List String :=
  (d.decisions.filter AclDecisionV2.allowed).map AclDecisionV2.peerID

def RoutingScope.decisionScope (s : RoutingScope) : AclDecisionScope :=
  { partition := s.partition.text, region := s.region, routeKind := s.routeKind.text, service := s.service }

def AclEvaluateV2Request.decisionScope (r : AclEvaluateV2Request) : AclDecisionScope :=
  { partition := r.partition.text, region := r.region, routeKind := r.routeKind.text, service := r.service }

/-- The keys of the map. -/
def allowedPeerSet (peerIDs : List String) : List String := peerIDs.dedup

def isKnownACLReason (reason : String) : Bool :=
  reason ∈ ["unmanaged", "public", "owner", "email_domain", "wallet",
    "no_match", "stale_identity", "ownership_mismatch", "ownership_unavailable", "service_context_required"]

def isKnownACLReasonV2 (reason : String) : Bool :=
  reason ∈ ["instance_acl_allow",
    "public", "owner", "email_domain", "wallet",
    "unmanaged", "not_region_member", "membership_suspended", "membership_expired",
    "membership_revoked", "ownership_mismatch", "ownership_unavailable",
    "partition_mismatch", "trusted_route_required", "untrusted_upstream",
    "wrong_role", "service_context_required", "service_undeclared",
    "duplicate_service_name", "service_disabled"]

/-- The first loop of `validateACLResponse`; what has been seen is what is allowed. -/
def validateACLResponse.allowed (requested : List String) : List String → List String → Except Message (List String)
  | [], seen => .ok seen
  | peerID :: rest, seen =>
    if peerID ∉ requested then .error { text := "unknown allowed peer", quoted := some peerID }
    else if peerID ∈ seen then .error { text := "duplicate peer", quoted := some peerID }
    else allowed requested rest (seen ++ [peerID])

/-- The second loop of `validateACLResponse`. -/
def validateACLResponse.denied (requested : List String) :
    List AclDeniedPeer → List String → List (String × String) → Except Message (List String × List (String × String))
  | [], seen, reasons => .ok (seen, reasons)
  | entry :: rest, seen, reasons =>
    if entry.peerID ∉ requested then .error { text := "unknown denied peer", quoted := some entry.peerID }
    else if entry.peerID ∈ seen then .error { text := "duplicate peer", quoted := some entry.peerID }
    else if !isKnownACLReason entry.reason then .error { text := "unknown deny reason", quoted := some entry.reason }
    else denied requested rest (seen ++ [entry.peerID]) (reasons ++ [(entry.peerID, entry.reason)])

/-- The errors come out wrapped in `errMalformedResponse`. -/
def validateACLResponse (resp : AclEvaluateResponse) (requestedPeerIDs : List String) : Except Message ControlPlaneDecision :=
  if resp.keyID = "" then .error { text := "missing key_id" }
  else do
    let requested := allowedPeerSet requestedPeerIDs
    let allowed ← validateACLResponse.allowed requested resp.allowedPeerIDs []
    let (seen, denied) ← validateACLResponse.denied requested resp.denied allowed []
    if seen.length ≠ requested.length then .error { text := "incomplete peer classification" }
    else .ok { keyID := resp.keyID, primaryWallet := resp.primaryWallet, allowedPeerIDs := allowed, deniedReasons := denied }

/-- The loop of `validateACLResponseV2`. -/
def validateACLResponseV2.loop (requested : List String) :
    List AclDecisionV2 → List AclDecisionV2 → Except Message (List AclDecisionV2)
  | [], decisions => .ok decisions
  | decision :: rest, decisions =>
    if decision.peerID ∉ requested then .error { text := "unknown peer", quoted := some decision.peerID }
    else if decision.peerID ∈ decisions.map AclDecisionV2.peerID then .error { text := "duplicate peer", quoted := some decision.peerID }
    else if !isKnownACLReasonV2 decision.reason then .error { text := "unknown reason", quoted := some decision.reason }
    else if decision.policyScope ∉ ["", "peer", "service"] then
      .error { text := "unknown policy_scope", quoted := some decision.policyScope }
    else if decision.serviceExposure ∉ ["", "permissionless", "trusted_region", "disabled"] then
      .error { text := "unknown service_exposure", quoted := some decision.serviceExposure }
    else loop requested rest (decisions ++ [decision])

def validateACLResponseV2 (resp : AclEvaluateV2Response) (request : AclEvaluateV2Request) : Except Message ControlPlaneDecisionV2 :=
  if resp.keyID = "" then .error { text := "missing key_id" }
  else if resp.decisionScope ≠ request.decisionScope then .error { text := "decision_scope mismatch" }
  else do
    let requested := allowedPeerSet request.peerIDs
    let decisions ← validateACLResponseV2.loop requested resp.decisions []
    if decisions.length ≠ requested.length then .error { text := "incomplete peer classification" }
    else .ok { keyID := resp.keyID, primaryWallet := resp.primaryWallet, scope := resp.decisionScope, decisions }

theorem ControlPlaneDecisionV2.allowed_of_allows {d : ControlPlaneDecisionV2} {peerID : String} (allows : d.allows peerID = true) :
    peerID ∈ d.allowedPeers := by
  unfold ControlPlaneDecisionV2.allows at allows
  split at allows
  · cases allows
  · rename_i decision found
    have named : decision.peerID = peerID := by simpa using List.find?_some found
    exact List.mem_map.mpr ⟨decision, List.mem_filter.mpr ⟨List.mem_of_find?_eq_some found, allows⟩, named⟩

theorem validateACLResponse_allowed {requested peerIDs seen allowed : List String}
    (validated : validateACLResponse.allowed requested peerIDs seen = .ok allowed) : allowed = seen ++ peerIDs := by
  induction peerIDs generalizing seen with
  | nil =>
    cases validated
    simp
  | cons peerID rest ih =>
    unfold validateACLResponse.allowed at validated
    split at validated
    · cases validated
    · split at validated
      · cases validated
      · simpa using ih validated

/-- A decision allows the peers that the response allows. -/
theorem validateACLResponse_ok {resp : AclEvaluateResponse} {peerIDs : List String} {d : ControlPlaneDecision}
    (validated : validateACLResponse resp peerIDs = .ok d) : d.allowedPeerIDs = resp.allowedPeerIDs := by
  unfold validateACLResponse at validated
  split at validated
  · cases validated
  · cases first : validateACLResponse.allowed (allowedPeerSet peerIDs) resp.allowedPeerIDs [] with
    | error e => simp [first, bind, Except.bind] at validated
    | ok allowed =>
      cases second : validateACLResponse.denied (allowedPeerSet peerIDs) resp.denied allowed [] with
      | error e => simp [first, second, bind, Except.bind] at validated
      | ok out =>
        simp only [first, second, bind, Except.bind] at validated
        split at validated
        · cases validated
        · cases validated
          simpa using validateACLResponse_allowed first

theorem validateACLResponseV2_loop {requested : List String} {incoming decisions out : List AclDecisionV2}
    (validated : validateACLResponseV2.loop requested incoming decisions = .ok out) : out = decisions ++ incoming := by
  induction incoming generalizing decisions with
  | nil =>
    cases validated
    simp
  | cons decision rest ih =>
    unfold validateACLResponseV2.loop at validated
    split at validated
    · cases validated
    split at validated
    · cases validated
    split at validated
    · cases validated
    split at validated
    · cases validated
    split at validated
    · cases validated
    simpa using ih validated

/-- A decision is about the scope of the request, and it decides as the response does. -/
theorem validateACLResponseV2_ok {resp : AclEvaluateV2Response} {request : AclEvaluateV2Request} {d : ControlPlaneDecisionV2}
    (validated : validateACLResponseV2 resp request = .ok d) :
    resp.decisionScope = request.decisionScope ∧ d.decisions = resp.decisions := by
  unfold validateACLResponseV2 at validated
  split at validated
  · cases validated
  · split at validated
    · cases validated
    · rename_i same
      cases decided : validateACLResponseV2.loop (allowedPeerSet request.peerIDs) resp.decisions [] with
      | error e => simp [decided, bind, Except.bind] at validated
      | ok decisions =>
        simp only [decided, bind, Except.bind] at validated
        split at validated
        · cases validated
        · cases validated
          exact ⟨not_not.mp same, by simpa using validateACLResponseV2_loop decided⟩

end OpenTela
