import OpenTela.Lib.Crew
import OpenTela.Server.Forwarding

namespace OpenTela

open Prog

/-- What is evaluated: a token, by its digest, and for which scope, if for one. -/
structure Subject where
  keyHash : String := ""
  scope : Option RoutingScope := none
  deriving DecidableEq

def Subject.version (s : Subject) : AclVersion :=
  match s.scope with
  | none => .v1
  | some _ => .v2

def Subject.cacheKey (s : Subject) (peerIDs : List String) : String :=
  match s.scope with
  | none => cacheKeyForDecision s.keyHash peerIDs
  | some scope => cacheKeyForDecisionV2 s.keyHash scope peerIDs

def Subject.cacheable (s : Subject) : Bool :=
  match s.scope with
  | none => true
  | some scope => shouldCacheDecisionV2 scope

namespace AclVersion

def subject : (v : AclVersion) → v.Request → Subject
  | .v1, (r : AclEvaluateRequest) => { keyHash := r.keyHash }
  | .v2, (r : AclEvaluateV2Request) =>
    { keyHash := r.keyHash
      scope := some { partition := r.partition, region := r.region, routeKind := r.routeKind, service := r.service } }

def validate : (v : AclVersion) → v.Request → v.Response → Except Message v.Decision
  | .v1, (request : AclEvaluateRequest), resp => validateACLResponse resp request.peerIDs
  | .v2, request, resp => validateACLResponseV2 resp request

def ttl : (v : AclVersion) → v.Response → ℤ
  | .v1, (resp : AclEvaluateResponse) => resp.cacheTTLSeconds
  | .v2, (resp : AclEvaluateV2Response) => resp.cacheTTLSeconds

/-- The scope a response says it is about. -/
def about : (v : AclVersion) → v.Response → Option AclDecisionScope
  | .v1, _ => none
  | .v2, (resp : AclEvaluateV2Response) => some resp.decisionScope

/-- The peers that a response allows. -/
def permits : (v : AclVersion) → v.Response → List String
  | .v1, (resp : AclEvaluateResponse) => resp.allowedPeerIDs
  | .v2, (resp : AclEvaluateV2Response) => (resp.decisions.filter AclDecisionV2.allowed).map AclDecisionV2.peerID

/-- The peers that a decision allows. -/
def allowed : (v : AclVersion) → v.Decision → List String
  | .v1, (d : ControlPlaneDecision) => d.allowedPeerIDs
  | .v2, (d : ControlPlaneDecisionV2) => d.allowedPeers

end AclVersion

/-- What comes of a call of the evaluator: a status, the `X-Otela-Control-Auth-Failed` header, and
what the strict decoding of the body gives. -/
inductive Answer (α : Type) where
  | unreachable
  | response (status : ℕ) (controlAuthFailed : String) (body : Except String α)

/-- Whether a 401 is about the node's own credential. -/
def controlAuthFailure (header : String) : Bool := equalFold (trimSpace header) "true"

/-- A validated OK. -/
def Answer.accepted (v : AclVersion) (request : v.Request) : Answer v.Response → Option (v.Response × v.Decision)
  | .response status _ (.ok resp) =>
    if status = statusOK then
      match v.validate request resp with
      | .ok decision => some (resp, decision)
      | .error _ => none
    else none
  | _ => none

/-- The answer that the token is not authorized. -/
def Answer.refused {α : Type} : Answer α → Bool
  | .response status header _ => decide (status = statusUnauthorized) && !controlAuthFailure header
  | .unreachable => false

/-- The steps of an evaluation and of a forward. `begin` reads the clock; that it starts an
evaluation of a subject, that `grant` ends one with peers allowed, and that `report` hands a
decision over to a handler, is only noted. -/
inductive AuthOp where
  | begin (subject : Subject)
  | getFresh (v : AclVersion) (key : String) (now : ℤ)
  | getStale (v : AclVersion) (key : String) (now : ℤ)
  | set (v : AclVersion) (key : String) (decision : v.Decision) (freshFor staleFor now : ℤ)
  | getTrustedNodeCredential
  | evaluate (v : AclVersion) (request : v.Request) (token : String)
  | grant (allowed : List String)
  | report (allowed : List String)
  | surroundings
  | forward (d : Dispatch)

def AuthOp.Res : AuthOp → Type
  | .begin _ => ℤ
  | .getFresh v .. | .getStale v .. => Option v.Decision
  | .getTrustedNodeCredential => Option String
  | .evaluate v .. => Answer v.Response
  | .surroundings => Surroundings × Legacy
  | .set .. | .grant _ | .report _ | .forward _ => Unit

abbrev AuthM := Prog AuthOp AuthOp.Res ControlPlaneError

namespace AuthM

def begin (subject : Subject) : AuthM ℤ := Prog.perform (AuthOp.begin subject)
def getFresh (v : AclVersion) (key : String) (now : ℤ) : AuthM (Option v.Decision) := Prog.perform (AuthOp.getFresh v key now)
def getStale (v : AclVersion) (key : String) (now : ℤ) : AuthM (Option v.Decision) := Prog.perform (AuthOp.getStale v key now)
def set (v : AclVersion) (key : String) (decision : v.Decision) (freshFor staleFor now : ℤ) : AuthM Unit :=
  Prog.perform (AuthOp.set v key decision freshFor staleFor now)
def getTrustedNodeCredential : AuthM (Option String) := Prog.perform AuthOp.getTrustedNodeCredential
def evaluate (v : AclVersion) (request : v.Request) (token : String) : AuthM (Answer v.Response) :=
  Prog.perform (AuthOp.evaluate v request token)
def grant (allowed : List String) : AuthM Unit := Prog.perform (AuthOp.grant allowed)
def report (allowed : List String) : AuthM Unit := Prog.perform (AuthOp.report allowed)
def surroundings : AuthM (Surroundings × Legacy) := Prog.perform AuthOp.surroundings
def forward (d : Dispatch) : AuthM Unit := Prog.perform (AuthOp.forward d)

def unavailable {α : Type} (err : AuthError) : AuthM α := .fail { status := statusServiceUnavailable, err }

end AuthM

open AuthM

section Evaluations

variable (cp : ControlPlane)

def controlPlaneBatchLimit : ℕ := 100

/-- The decision an evaluation returns. -/
def allow (v : AclVersion) (decision : v.Decision) : AuthM v.Decision := do
  grant (v.allowed decision)
  return decision

/-- The stale decision, if there is one, for an error. -/
def staleIfError (v : AclVersion) (useCache : Bool) (cacheKey : String) (now : ℤ) (err : AuthError) : AuthM v.Decision :=
  if useCache then do
    match ← getStale v cacheKey now with
    | some decision => allow v decision
    | none => unavailable err
  else unavailable err

/-- Both evaluations from the answer of the evaluator on. -/
def conclude (v : AclVersion) (useCache : Bool) (cacheKey : String) (now : ℤ) (payload : v.Request) :
    Answer v.Response → AuthM v.Decision
  | .unreachable => staleIfError v useCache cacheKey now .errEvaluatorDown
  | .response status controlAuthFailed body =>
    if status = statusUnauthorized then
      if controlAuthFailure controlAuthFailed then staleIfError v useCache cacheKey now .errEvaluatorDown
      else .fail { status := statusUnauthorized, err := .errInvalidToken }
    else if status ≠ statusOK then staleIfError v useCache cacheKey now .errEvaluatorDown
    else
      match body with
      | .error e => staleIfError v useCache cacheKey now (.errMalformedResponse (some { text := e }))
      | .ok resp =>
        match v.validate payload resp with
        | .error e => staleIfError v useCache cacheKey now (.errMalformedResponse (some e))
        | .ok decision =>
          if useCache then do
            AuthM.set v cacheKey decision (cp.controlPlaneFreshTTL (v.ttl resp)) cp.controlPlaneStaleIfError now
            allow v decision
          else allow v decision

/-- `evaluateBearerForPeers` from the miss of the cache on. -/
def evaluateBearerForPeers.ask (controlToken cacheKey : String) (now : ℤ) (payload : AclEvaluateRequest) : AuthM ControlPlaneDecision :=
  if !cp.validURL then unavailable .errEvaluatorDown
  else do
    let answer ← evaluate .v1 payload controlToken
    conclude cp .v1 true cacheKey now payload answer

/-- `evaluateBearerForPeers` for at most `controlPlaneBatchLimit` peers. -/
def evaluateBearerForPeers.batch (bearer : String) (peerIDs : List String) : AuthM ControlPlaneDecision :=
  let uniquePeers := uniquePeerIDs peerIDs
  if uniquePeers = [] then return {}
  else
    let controlToken := trimSpace cp.token
    if controlToken = "" then unavailable .errMissingControlToken
    else do
      let keyHash := cp.digest.sha256Hex bearer
      let cacheKey := cacheKeyForDecision keyHash uniquePeers
      let now ← AuthM.begin { keyHash }
      match ← getFresh .v1 cacheKey now with
      | some decision => allow .v1 decision
      | none => evaluateBearerForPeers.ask cp controlToken cacheKey now { keyHash, peerIDs := uniquePeers }

/-- The loop over the batches, with the decisions of those before. -/
def evaluateBearerForPeers.loop (bearer : String) : List (List String) → Option ControlPlaneDecision → AuthM ControlPlaneDecision
  | [], combined => return combined.getD {}
  | batch :: rest, none => do
    let decision ← evaluateBearerForPeers.batch cp bearer batch
    loop bearer rest (some decision)
  | batch :: rest, some combined => do
    let decision ← evaluateBearerForPeers.batch cp bearer batch
    if decision.keyID ≠ combined.keyID then unavailable (.errMalformedResponse none)
    else if decision.primaryWallet ≠ combined.primaryWallet then unavailable (.errMalformedResponse none)
    else
      loop bearer rest (some { combined with
        allowedPeerIDs := combined.allowedPeerIDs ++ decision.allowedPeerIDs
        deniedReasons := combined.deniedReasons ++ decision.deniedReasons })

def evaluateBearerForPeers (bearer : String) (peerIDs : List String) : AuthM ControlPlaneDecision :=
  let uniquePeers := uniquePeerIDs peerIDs
  if uniquePeers.length > controlPlaneBatchLimit then
    evaluateBearerForPeers.loop cp bearer (uniquePeers.toChunks controlPlaneBatchLimit) none
  else evaluateBearerForPeers.batch cp bearer peerIDs

/-- The token for the evaluator's own check. -/
def controlCredential (scope : RoutingScope) : AuthM String :=
  if scope.partition = .trustedRegion then do
    match ← getTrustedNodeCredential with
    | none => unavailable .errEvaluatorDown
    | some token => return token
  else
    let controlToken := trimSpace cp.token
    if controlToken = "" then unavailable .errMissingControlToken else return controlToken

/-- `evaluateBearerForScope` from the miss of the cache on. -/
def evaluateBearerForScope.ask (scope : RoutingScope) (useCache : Bool) (cacheKey : String) (now : ℤ) (payload : AclEvaluateV2Request) :
    AuthM ControlPlaneDecisionV2 :=
  if !cp.validURL then unavailable .errEvaluatorDown
  else do
    let token ← controlCredential cp scope
    let answer ← evaluate .v2 payload token
    conclude cp .v2 useCache cacheKey now payload answer

def evaluateBearerForScope (bearer : String) (scope : RoutingScope) (peerIDs : List String) (upstreamPeerID : String) :
    AuthM ControlPlaneDecisionV2 :=
  let uniquePeers := uniquePeerIDs peerIDs
  if uniquePeers = [] then return { scope := scope.decisionScope, decisions := [] }
  else do
    let keyHash := cp.digest.sha256Hex bearer
    let now ← AuthM.begin { keyHash, scope := some scope }
    let cacheKey := cacheKeyForDecisionV2 keyHash scope uniquePeers
    let useCache := shouldCacheDecisionV2 scope
    let fresh ← if useCache then getFresh .v2 cacheKey now else pure none
    match fresh with
    | some decision => allow .v2 decision
    | none =>
      evaluateBearerForScope.ask cp scope useCache cacheKey now
        { keyHash, partition := scope.partition, region := scope.region, routeKind := scope.routeKind, service := scope.service
          peerIDs := uniquePeers, upstreamPeerID }

def authorizeRequestForPeers (authHeader : String) (peerIDs : List String) : AuthM (Option ControlPlaneDecision) :=
  if !cp.isControlPlaneEnabled then return none
  else
    match parseBearerToken authHeader with
    | .error err => .fail { status := statusUnauthorized, err }
    | .ok bearer => do
      let decision ← evaluateBearerForPeers cp bearer peerIDs
      return some decision

def authorizeRequestForScope (authHeader : String) (scope : RoutingScope) (peerIDs : List String) (upstreamPeerID : String) :
    AuthM (Option ControlPlaneDecisionV2) :=
  if !cp.isControlPlaneEnabled then return none
  else
    match parseBearerToken authHeader with
    | .error err => .fail { status := statusUnauthorized, err }
    | .ok bearer => do
      let decision ← evaluateBearerForScope cp bearer scope peerIDs upstreamPeerID
      return some decision

end Evaluations

end OpenTela
