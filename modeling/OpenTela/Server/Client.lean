import OpenTela.Server.Authorization

namespace OpenTela

open Prog AuthM

/-- One evaluation of a thread: the how-manieth it is, of what, and when it began. -/
structure Evaluation where
  number : ℕ := 0
  subject : Subject := {}
  began : ℤ := 0

/-- A decision that the thread has just been sent, and the time it may be used for. -/
structure Live where
  version : AclVersion
  ttl : ℤ
  decision : version.Decision

/-- What a thread has learned: in its present evaluation the peers allowed by the responses and the
cache entries it has seen, the responses themselves, and what it has let through; what it has let
through so far; and what it finds around it. -/
structure Account where
  evaluation : Evaluation := {}
  known : List (List String) := []
  live : List Live := []
  granted : List (List String) := []
  given : List (List String) := []
  surroundings : Option Surroundings := none

def Account.starts (k : Account) (subject : Subject) (now : ℤ) : Account :=
  { k with evaluation := { number := k.evaluation.number + 1, subject, began := now }, known := [], live := [], granted := [] }

def Account.finds (k : Account) (v : AclVersion) : Option v.Decision → Account
  | none => k
  | some decision => { k with known := v.allowed decision :: k.known }

def Account.hears (k : Account) (v : AclVersion) (request : v.Request) (answer : Answer v.Response) : Account :=
  match answer.accepted v request with
  | none => k
  | some (resp, decision) =>
    { k with
      known := v.allowed decision :: k.known
      live := { version := v, ttl := v.ttl resp, decision } :: k.live }

def Account.learn (k : Account) : (o : AuthOp) → o.Res → Account
  | .begin subject, (now : ℤ) => k.starts subject now
  | .getFresh v _ _, found | .getStale v _ _, found => k.finds v found
  | .evaluate v request _, answer => k.hears v request answer
  | .grant allowed, _ => { k with granted := allowed :: k.granted, given := allowed :: k.given }
  | .surroundings, (found : Surroundings × Legacy) => { k with surroundings := some found.1 }
  | _, _ => k

/-- A validated response, with the evaluation that asked for it. -/
structure Received where
  thread : ℕ
  evaluation : Evaluation
  keyHash : String
  scope : Option AclDecisionScope
  ttl : ℤ
  allowed : List String

/-- The peers an evaluation has let through; it is `late` if the token stood revoked when the
evaluation began, and no OK for it has been validated since. -/
structure Grant where
  thread : ℕ
  evaluation : Evaluation
  allowed : List String
  late : Bool

/-- The peers that a decision handed over allows. -/
structure Reported where
  thread : ℕ
  allowed : List String

structure Sent where
  thread : ℕ
  evaluation : Evaluation
  surroundings : Option Surroundings
  delivery : Dispatch

/-- The two caches. Only noted are the tokens that stand revoked, how many OKs have been validated
for each, the count a thread found when it began an evaluation of a revoked one, and what has been
received, let through, handed over and sent. -/
structure AuthWorld where
  cache : (v : AclVersion) → Expiring String v.Decision ℤ := fun _ => .empty
  revoked : String → Bool := fun _ => false
  validated : String → ℕ := fun _ => 0
  late : ℕ → Option ℕ := fun _ => none
  account : ℕ → Account := fun _ => {}
  responses : List Received := []
  granted : List Grant := []
  reported : List Reported := []
  sent : List Sent := []

/-- The evaluation of thread `i` began while its token stood revoked, as it still does. -/
def AuthWorld.overdue (s : AuthWorld) (i : ℕ) : Bool :=
  s.late i == some (s.validated (s.account i).evaluation.subject.keyHash)

/-- The time, and what the evaluator and the node's surroundings come up with. -/
structure AuthChance where
  now : ℤ := 0
  answer : (v : AclVersion) → Answer v.Response := fun _ => .unreachable
  credential : Option String := none
  surroundings : Surroundings := {}
  legacy : Legacy := {}

def AuthWorld.answer (s : AuthWorld) (chance : AuthChance) : (o : AuthOp) → o.Res
  | .begin _ => chance.now
  | .getFresh v key now => (s.cache v).getFresh key now
  | .getStale v key now => (s.cache v).getStale key now
  | .getTrustedNodeCredential => chance.credential
  | .evaluate v _ _ => chance.answer v
  | .surroundings => (chance.surroundings, chance.legacy)
  | .set .. | .grant _ | .report _ | .forward _ => ()

/-- Notes what an answer of the evaluator says about the token, and the response if it is validated. -/
def AuthWorld.hear (s : AuthWorld) (i : ℕ) (v : AclVersion) (request : v.Request) (answer : Answer v.Response) : AuthWorld :=
  let keyHash := (v.subject request).keyHash
  match answer.accepted v request with
  | some (resp, _) =>
    { s with
      revoked := Function.update s.revoked keyHash false
      validated := Function.update s.validated keyHash (s.validated keyHash + 1)
      responses := s.responses ++
        [{ thread := i, evaluation := (s.account i).evaluation, keyHash, scope := v.about resp, ttl := v.ttl resp
           allowed := v.permits resp }] }
  | none => if answer.refused then { s with revoked := Function.update s.revoked keyHash true } else s

def AuthWorld.effect (s : AuthWorld) (i : ℕ) : (o : AuthOp) → o.Res → AuthWorld
  | .begin subject, _ =>
    { s with late := Function.update s.late i (if s.revoked subject.keyHash then some (s.validated subject.keyHash) else none) }
  | .set v key decision freshFor staleFor now, _ =>
    { s with cache := Function.update s.cache v ((s.cache v).set key (cacheEntry decision freshFor staleFor now)) }
  | .evaluate v request _, (answer : Answer v.Response) => s.hear i v request answer
  | .grant allowed, _ =>
    { s with granted := s.granted ++ [{ thread := i, evaluation := (s.account i).evaluation, allowed, late := s.overdue i }] }
  | .report allowed, _ => { s with reported := s.reported ++ [{ thread := i, allowed }] }
  | .forward delivery, _ =>
    { s with sent := s.sent ++
        [{ thread := i, evaluation := (s.account i).evaluation, surroundings := (s.account i).surroundings, delivery }] }
  | _, _ => s

def AuthWorld.exec (i : ℕ) (chance : AuthChance) (o : AuthOp) (s : AuthWorld) : Option (o.Res × AuthWorld) :=
  let r := s.answer chance o
  some (r, { s.effect i o r with account := Function.update s.account i ((s.account i).learn o r) })

/-- The calls of the authorization client: as `P2PForwardHandler` makes it, as the handlers with a
scope do, and as the forward to a global service does. -/
inductive Call where
  | forPeers (authHeader : String) (peerIDs : List String)
  | forScope (partition : RoutingPartition) (region : String) (kind : RouteKind) (service authHeader : String)
      (peerIDs : List String) (upstreamPeerID : String)
  | globalService (partition : RoutingPartition) (req : Request)

/-- What becomes of the answer; without a control plane there is no decision. -/
def handOver (v : AclVersion) : Option v.Decision → AuthM Unit
  | none => return ()
  | some decision => report (v.allowed decision)

def forwardAll : List Dispatch → AuthM Unit
  | [] => return ()
  | d :: rest => do
    AuthM.forward d
    forwardAll rest

section Calls

variable (setup : ServerSetup)

/-- The answer of the authorization, if there is a control plane. -/
def authorizeCandidates (scope : RoutingScope) (req : Request) (candidates : List String) :
    AuthM (Option (Except ControlPlaneError (Option ControlPlaneDecisionV2))) :=
  if setup.controlPlane.isControlPlaneEnabled then do
    let outcome ← (authorizeRequestForScope setup.controlPlane (req.getHeader "Authorization") scope candidates "").attempt
    return some outcome
  else return none

/-- `globalServiceForwardWithScope`, with the requests it sends. -/
def forwardGlobalService (scope : RoutingScope) (req : Request) : AuthM Unit := do
  let (env, legacy) ← surroundings
  match routingCandidates setup.routing env scope req with
  | .error _ => return ()
  | .ok candidates => do
    let outcome ← authorizeCandidates setup scope req candidates
    match globalServiceForward setup legacy env scope req candidates outcome with
    | .error _ => return ()
    | .ok deliveries => forwardAll deliveries

def callForPeers (authHeader : String) (peerIDs : List String) : AuthM Unit := do
  let decision ← authorizeRequestForPeers setup.controlPlane authHeader peerIDs
  handOver .v1 decision

def callForScope (partition : RoutingPartition) (region : String) (kind : RouteKind) (service authHeader : String)
    (peerIDs : List String) (upstreamPeerID : String) : AuthM Unit :=
  match newRoutingScope partition region kind service with
  | .error _ => return ()
  | .ok scope => do
    let decision ← authorizeRequestForScope setup.controlPlane authHeader scope peerIDs upstreamPeerID
    handOver .v2 decision

/-- `GlobalServiceForwardHandler` and `TrustedRegionServiceForwardHandler`. -/
def callGlobalService (partition : RoutingPartition) (req : Request) : AuthM Unit :=
  let region := if partition = .trustedRegion then req.region else ""
  match newRoutingScope partition region .serviceIngress req.service with
  | .error _ => return ()
  | .ok scope => forwardGlobalService setup scope req

def ServerSetup.body : Call → AuthM Unit
  | .forPeers authHeader peerIDs => callForPeers setup authHeader peerIDs
  | .forScope partition region kind service authHeader peerIDs upstreamPeerID =>
    callForScope setup partition region kind service authHeader peerIDs upstreamPeerID
  | .globalService partition req => callGlobalService setup partition req

end Calls

def ServerSetup.system (setup : ServerSetup) : System AuthOp AuthOp.Res ControlPlaneError AuthWorld AuthChance Call where
  exec := AuthWorld.exec
  starts := fun _ => []
  body := setup.body
  entry := fun _ => true

abbrev AuthCrew := Prog.Crew AuthOp AuthOp.Res ControlPlaneError AuthWorld Call

/-- A node that has authorized nothing yet. -/
def AuthCrew.fresh : AuthCrew := ⟨{}, []⟩

end OpenTela
