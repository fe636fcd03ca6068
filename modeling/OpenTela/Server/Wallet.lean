import OpenTela.Server.AccessControl

namespace OpenTela

/-- The handlers that forward a request, with what they resolve from outside it. -/
inductive ForwardHandler where
  | p2pForward
  | p2pServiceForward
  | trustedRegionP2PServiceForward
  | serviceForward (localServices : List Service) (resolved : Option Service)
  | globalServiceForward
  | trustedRegionServiceForward

/-- What a handler has sent when it is done. -/
def sent : Except Reply (List Dispatch) → List Dispatch
  | .error _ => []
  | .ok deliveries => deliveries

/-- The wallet in an answer of the control plane. -/
def answeredWallet {α : Type} (wallet : α → String) : Except ControlPlaneError (Option α) → String
  | .ok (some decision) => wallet decision
  | _ => ""

section Handlers

variable (setup : ServerSetup) (legacy : Legacy) (auth : Authorizer) (env : Surroundings)

def ForwardHandler.handle : ForwardHandler → Request → Except Reply (List Dispatch)
  | .p2pForward, req => p2pForwardHandler setup legacy auth req
  | .p2pServiceForward, req => p2pServiceForwardHandler setup legacy auth env req
  | .trustedRegionP2PServiceForward, req => trustedRegionP2PServiceForwardHandler setup legacy auth env req
  | .serviceForward localServices resolved, req => serviceForwardHandler localServices resolved req
  | .globalServiceForward, req => globalServiceForwardHandler setup legacy auth env req
  | .trustedRegionServiceForward, req => trustedRegionServiceForwardHandler setup legacy auth env req

/-- The requests that go out for one that comes in. -/
def ForwardHandler.delivered (h : ForwardHandler) (req : Request) : List Dispatch := sent (h.handle setup legacy auth env req)

/-- The wallet in the control plane's answer about the peer of the request. -/
def peerWallet (req : Request) : String :=
  if setup.controlPlane.isControlPlaneEnabled then
    answeredWallet ControlPlaneDecision.primaryWallet (auth.forPeers (req.getHeader "Authorization") [req.peerId])
  else ""

/-- The same about peers within a scope. -/
def scopeWallet (req : Request) (scope : RoutingScope) (peerIDs : List String) : String :=
  if setup.controlPlane.isControlPlaneEnabled then
    answeredWallet ControlPlaneDecisionV2.primaryWallet (auth.forScope (req.getHeader "Authorization") scope peerIDs "")
  else ""

def authenticatedIn (req : Request) (scope : RoutingScope) : Except Reply (List String) → String
  | .error _ => ""
  | .ok peerIDs => authenticatedWallet setup legacy req (scopeWallet setup auth req scope peerIDs)

def scopedWallet (req : Request) (partition : RoutingPartition) (region : String) (kind : RouteKind)
    (peerIDs : RoutingScope → Except Reply (List String)) : String :=
  match newRoutingScope partition region kind req.service with
  | .error _ => ""
  | .ok scope => authenticatedIn setup legacy auth req scope (peerIDs scope)

/-- The wallet that the token of a request belongs to, as the control plane or else the legacy
auth server answers; the local handler asks neither. -/
def ForwardHandler.clientWallet (req : Request) : ForwardHandler → String
  | .p2pForward => authenticatedWallet setup legacy req (peerWallet setup auth req)
  | .p2pServiceForward => scopedWallet setup legacy auth req .permissionless "" .p2pIngress (fun _ => .ok [req.peerId])
  | .trustedRegionP2PServiceForward =>
    scopedWallet setup legacy auth req .trustedRegion req.region .p2pIngress (fun _ => .ok [req.peerId])
  | .serviceForward _ _ => ""
  | .globalServiceForward =>
    scopedWallet setup legacy auth req .permissionless "" .serviceIngress (fun scope => routingCandidates setup.routing env scope req)
  | .trustedRegionServiceForward =>
    scopedWallet setup legacy auth req .trustedRegion req.region .serviceIngress
      (fun scope => routingCandidates setup.routing env scope req)

end Handlers

/-- A request as it arrives at a worker, on one of its routes. -/
def Request.arriving (r : Request) (remoteAddr region service : String) : Request := { r with remoteAddr, region, service }

/-- Two handlings deliver the same wallets, and no worker treats the deliveries differently. -/
def Unspoofed (ds ds' : List Dispatch) : Prop :=
  ds.map (fun d => d.request.header clientWalletHeader) = ds'.map (fun d => d.request.header clientWalletHeader) ∧
    ∀ (w : Worker) (remoteAddr region service : String),
      ds.map (fun d => w.accessControl (d.request.arriving remoteAddr region service)) =
        ds'.map (fun d => w.accessControl (d.request.arriving remoteAddr region service))

/-- Whatever a client claims, the handling goes the same way, and the requests it sends are those
of one proxy with one wallet. -/
def Carries (wallet : String) (req : Request) (delivered : Request → List Dispatch) : Prop :=
  ∃ (run : (Target → Request) → List Dispatch) (base : Request),
    base.header.connection = req.header.connection ∧
    (∀ wallets, delivered (req.claiming wallets) = run (fun target => serveHTTP (director target wallet) (base.claiming wallets))) ∧
    (∀ send send', run send = [] → run send' = []) ∧
    (∀ send, ∀ d ∈ run send, ∃ target, d.request = send target)

section Proxy

variable {target : Target} {wallet : String} {base : Request} {wallets : List String}

theorem director_connection : (director target wallet base).header.connection = base.header.connection := by
  unfold director
  split
  · exact base.header.set_connection wallet (by decide)
  · rfl

theorem serveHTTP_header {director : Request → Request} (name : String) :
    (serveHTTP director base).header name =
      if name ∈ (director base).header.connection ++ hopHeaders then [] else (director base).header name :=
  foldl_del _ _ _

theorem serveHTTP_kept (unnamed : clientWalletHeader ∉ base.header.connection) :
    (serveHTTP (director target "") (base.claiming wallets)).header clientWalletHeader = wallets := by
  rw [serveHTTP_header, director_connection, Request.claiming_connection, if_neg]
  · simp [director]
  · simpa [clientWallet_endToEnd] using unnamed

/-- A header that the director sets, or that is removed, no longer shows what the client claimed. -/
theorem serveHTTP_settled (settled : clientWalletHeader ∈ base.header.connection ∨ wallet ≠ "") (wallets' : List String) :
    serveHTTP (director target wallet) (base.claiming wallets) = serveHTTP (director target wallet) (base.claiming wallets') := by
  have headers : (serveHTTP (director target wallet) (base.claiming wallets)).header =
      (serveHTTP (director target wallet) (base.claiming wallets')).header := by
    funext name
    simp only [serveHTTP_header, director_connection, Request.claiming_connection]
    by_cases removed : name ∈ base.header.connection ++ hopHeaders
    · simp only [removed, if_true]
    · simp only [removed, if_false]
      by_cases named : name = clientWalletHeader
      · subst named
        have set : wallet ≠ "" := settled.resolve_left (fun there => removed (List.mem_append_left _ there))
        simp [director, set, Header.set]
      · by_cases set : wallet = ""
        · simp [director, set, Request.claiming_other _ _ named]
        · simp [director, set, Header.set, Function.update_of_ne named, Request.claiming_other _ _ named]
  exact congrArg (fun header => ({ base with host := target.host, path := target.path, header } : Request)) headers

end Proxy

/-- What a client claims shows in what is delivered exactly if something is delivered with the
header still there and no wallet set. -/
theorem Carries.unspoofed_iff {wallet : String} {req : Request} {delivered : Request → List Dispatch}
    (carries : Carries wallet req delivered) :
    (∀ wallets wallets', Unspoofed (delivered (req.claiming wallets)) (delivered (req.claiming wallets'))) ↔
      delivered req = [] ∨ clientWalletHeader ∈ req.header.connection ∨ wallet ≠ "" := by
  obtain ⟨run, base, connection, runs, nothing, members⟩ := carries
  constructor
  · intro agree
    by_contra exposed
    obtain ⟨something, unnamed, unset⟩ := not_or.mp exposed |>.imp_right not_or.mp
    obtain rfl : wallet = "" := not_not.mp unset
    have shows : ∀ wallets, ∀ d ∈ delivered (req.claiming wallets), d.request.header clientWalletHeader = wallets := by
      intro wallets d member
      rw [runs] at member
      obtain ⟨target, sent⟩ := members _ d member
      rw [sent]
      exact serveHTTP_kept (connection ▸ unnamed)
    obtain ⟨d, member⟩ := List.exists_mem_of_ne_nil _ something
    rw [← req.claiming_self] at member
    have mine := shows _ d member
    have moved : d.request.header clientWalletHeader ∈
        (delivered (req.claiming ("x" :: req.header clientWalletHeader))).map (fun d => d.request.header clientWalletHeader) := by
      rw [← (agree (req.header clientWalletHeader) ("x" :: req.header clientWalletHeader)).1]
      exact List.mem_map.mpr ⟨d, member, rfl⟩
    obtain ⟨d', member', same⟩ := List.mem_map.mp moved
    have theirs := shows _ d' member'
    rw [same, mine] at theirs
    simp at theirs
  · rintro (none | settled) wallets wallets'
    · have empty : ∀ wallets, delivered (req.claiming wallets) = [] := by
        intro wallets
        rw [← req.claiming_self, runs] at none
        rw [runs]
        exact nothing _ _ none
      rw [empty, empty]
      exact ⟨rfl, fun _ _ _ _ => rfl⟩
    · have same : delivered (req.claiming wallets) = delivered (req.claiming wallets') := by
        rw [runs, runs]
        congr 1
        funext target
        exact serveHTTP_settled (connection ▸ settled) wallets'
      rw [same]
      exact ⟨rfl, fun _ _ _ _ => rfl⟩

section Constructors

variable {wallet : String} {req : Request} {delivered : Request → List Dispatch}

theorem Carries.nothing (none : ∀ wallets, delivered (req.claiming wallets) = []) : Carries wallet req delivered :=
  ⟨fun _ => [], req, rfl, none, fun _ _ _ => rfl, fun _ _ member => absurd member List.not_mem_nil⟩

theorem Carries.one (peer : String) (target : Target)
    (one : ∀ wallets, delivered (req.claiming wallets) =
      [{ peer, target, request := serveHTTP (director target wallet) (req.claiming wallets) }]) : Carries wallet req delivered := by
  refine ⟨fun send => [{ peer, target, request := send target }], req, rfl, one, ?_, ?_⟩
  · intro _ _ none
    cases none
  · intro send d member
    rw [List.mem_singleton.mp member]
    exact ⟨target, rfl⟩

theorem Carries.congr {delivered' : Request → List Dispatch} (carries : Carries wallet req delivered)
    (same : ∀ wallets, delivered' (req.claiming wallets) = delivered (req.claiming wallets)) : Carries wallet req delivered' := by
  obtain ⟨run, base, connection, runs, rest⟩ := carries
  exact ⟨run, base, connection, fun wallets => (same wallets).trans (runs wallets), rest⟩

end Constructors

section Claims

variable (setup : ServerSetup) (legacy : Legacy) (auth : Authorizer) (env : Surroundings) (scope : RoutingScope) (req : Request)
  (wallets : List String)

theorem authorization_claiming : (req.claiming wallets).getHeader "Authorization" = req.getHeader "Authorization" :=
  req.claiming_getHeader wallets (by decide)

theorem authenticatedWallet_claiming (primaryWallet : String) :
    authenticatedWallet setup legacy (req.claiming wallets) primaryWallet = authenticatedWallet setup legacy req primaryWallet := by
  unfold authenticatedWallet resolveClientWallet
  rw [authorization_claiming]

theorem routingCandidates_claiming :
    routingCandidates setup.routing env scope (req.claiming wallets) = routingCandidates setup.routing env scope req := by
  unfold routingCandidates matchBody
  rw [req.claiming_getHeader wallets (by decide), req.claiming_getHeader wallets (by decide)]
  rfl

theorem filterTrust_claiming (candidates : List String) :
    filterTrust env scope (req.claiming wallets) candidates = filterTrust env scope req candidates := by
  unfold filterTrust
  rw [req.claiming_getHeader wallets (by decide)]

theorem p2pForward_wallet {primaryWallet : String} (authorized : p2pForwardHandler.authorize setup auth req = .ok primaryWallet) :
    primaryWallet = peerWallet setup auth req := by
  unfold p2pForwardHandler.authorize at authorized
  unfold peerWallet
  split at authorized
  · rename_i enabled
    rw [if_pos enabled]
    split at authorized
    · cases authorized
    · cases authorized
    · rename_i answered
      rw [answered]
      split at authorized
      · cases authorized
        rfl
      · cases authorized
  · rename_i disabled
    rw [if_neg disabled]
    cases authorized
    rfl

theorem p2pService_wallet {primaryWallet : String}
    (authorized : p2pServiceForwardWithScope.authorize setup auth scope req = .ok primaryWallet) :
    primaryWallet = scopeWallet setup auth req scope [req.peerId] := by
  unfold p2pServiceForwardWithScope.authorize at authorized
  unfold scopeWallet
  split at authorized
  · rename_i enabled
    rw [if_pos enabled]
    split at authorized
    · cases authorized
    · cases authorized
    · rename_i answered
      rw [answered]
      split at authorized
      · cases authorized
        rfl
      · cases authorized
  · rename_i disabled
    rw [if_neg disabled]
    cases authorized
    rfl

theorem filterAuthorized_wallet {candidates allowed : List String} {primaryWallet : String}
    (filtered : filterAuthorized candidates
      (if setup.controlPlane.isControlPlaneEnabled then some (auth.forScope (req.getHeader "Authorization") scope candidates "")
        else none) = .ok (allowed, primaryWallet)) :
    primaryWallet = scopeWallet setup auth req scope candidates := by
  unfold scopeWallet
  split at filtered
  · rename_i enabled
    rw [if_pos enabled]
    cases answered : auth.forScope (req.getHeader "Authorization") scope candidates "" with
    | error e =>
      rw [answered] at filtered
      cases filtered
    | ok decision =>
      rw [answered] at filtered
      simp only [filterAuthorized] at filtered
      split at filtered
      · cases filtered
      · cases filtered
        cases decision with
        | none => rfl
        | some d => rfl
  · rename_i disabled
    rw [if_neg disabled]
    cases filtered
    rfl

theorem p2pForward_carries :
    Carries (authenticatedWallet setup legacy req (peerWallet setup auth req)) req
      (fun r => sent (p2pForwardHandler setup legacy auth r)) := by
  have authorize : ∀ wallets, p2pForwardHandler.authorize setup auth (req.claiming wallets) =
      p2pForwardHandler.authorize setup auth req := by
    intro wallets
    unfold p2pForwardHandler.authorize
    rw [authorization_claiming]
    rfl
  cases authorized : p2pForwardHandler.authorize setup auth req with
  | error reply =>
    refine Carries.nothing (fun wallets => ?_)
    unfold p2pForwardHandler
    rw [authorize, authorized]
    rfl
  | ok primaryWallet =>
    rw [← p2pForward_wallet setup auth req authorized]
    refine Carries.one req.peerId { scheme := "libp2p", host := req.peerId, path := req.path } (fun wallets => ?_)
    unfold p2pForwardHandler
    rw [authorize, authorized]
    dsimp only
    rw [authenticatedWallet_claiming]
    rfl

theorem p2pService_carries :
    Carries (authenticatedIn setup legacy auth req scope (.ok [req.peerId])) req
      (fun r => sent (p2pServiceForwardWithScope setup legacy auth env scope r)) := by
  change Carries (authenticatedWallet setup legacy req (scopeWallet setup auth req scope [req.peerId])) req _
  have authorize : ∀ wallets, p2pServiceForwardWithScope.authorize setup auth scope (req.claiming wallets) =
      p2pServiceForwardWithScope.authorize setup auth scope req := by
    intro wallets
    unfold p2pServiceForwardWithScope.authorize
    rw [authorization_claiming]
    rfl
  cases authorized : p2pServiceForwardWithScope.authorize setup auth scope req with
  | error reply =>
    refine Carries.nothing (fun wallets => ?_)
    unfold p2pServiceForwardWithScope
    rw [authorize, authorized]
    rfl
  | ok primaryWallet =>
    rw [← p2pService_wallet setup auth scope req authorized]
    by_cases unreachable : (scope.trusted && !hasTrustedDirectConnection (env.network 0) req.peerId) = true
    · refine Carries.nothing (fun wallets => ?_)
      unfold p2pServiceForwardWithScope
      rw [authorize, authorized]
      dsimp only
      rw [Request.claiming_peerId, if_pos unreachable]
      rfl
    · refine Carries.one req.peerId
        { scheme := "libp2p", host := req.peerId, path := buildInternalServicePath scope req.path } (fun wallets => ?_)
      unfold p2pServiceForwardWithScope
      rw [authorize, authorized]
      dsimp only
      rw [Request.claiming_peerId, if_neg unreachable, authenticatedWallet_claiming]
      rfl

theorem globalService_carries :
    Carries (authenticatedIn setup legacy auth req scope (routingCandidates setup.routing env scope req)) req
      (fun r => sent (globalServiceForwardWithScope setup legacy auth env scope r)) := by
  cases routed : routingCandidates setup.routing env scope req with
  | error reply =>
    refine Carries.nothing (fun wallets => ?_)
    unfold globalServiceForwardWithScope
    rw [routingCandidates_claiming, routed]
    rfl
  | ok candidates =>
    have opened : ∀ wallets, globalServiceForwardWithScope setup legacy auth env scope (req.claiming wallets) =
        globalServiceForward setup legacy env scope (req.claiming wallets) candidates
          (if setup.controlPlane.isControlPlaneEnabled then some (auth.forScope (req.getHeader "Authorization") scope candidates "")
            else none) := by
      intro wallets
      unfold globalServiceForwardWithScope
      rw [routingCandidates_claiming, routed, authorization_claiming]
    have eligible : ∀ wallets outcome, globalServiceForward.eligible setup env scope (req.claiming wallets) candidates outcome =
        globalServiceForward.eligible setup env scope req candidates outcome := by
      intro wallets outcome
      unfold globalServiceForward.eligible
      simp only [filterTrust_claiming]
    unfold globalServiceForward at opened
    simp only [eligible] at opened
    split at opened
    · refine Carries.nothing (fun wallets => ?_)
      rw [opened]
      rfl
    · rename_i remaining primaryWallet found
      obtain ⟨allowed, authorized, _⟩ := eligible_ok found
      change Carries (authenticatedWallet setup legacy req (scopeWallet setup auth req scope candidates)) req _
      rw [← filterAuthorized_wallet setup auth scope req authorized]
      refine ⟨fun send => globalServiceForward.attempts env scope (buildInternalServicePath scope req.path) send remaining
          ((if setup.routing.retryEnabled then setup.routing.maxRetries else 0) + 1).toNat 0 [],
        { req with header := req.header.set "X-Otela-Request-Id" env.requestID },
        req.header.set_connection _ (by decide), fun wallets => ?_, fun send send' => attempts_nil send send',
        fun send d member => ⟨d.target, (attempts_mem member).2.1⟩⟩
      have stamped : ({ req.claiming wallets with
          header := (req.claiming wallets).header.set "X-Otela-Request-Id" env.requestID } : Request) =
          ({ req with header := req.header.set "X-Otela-Request-Id" env.requestID } : Request).claiming wallets := by
        unfold Request.claiming Header.set
        simp only
        rw [Function.update_comm (by decide)]
      beta_reduce
      rw [opened, stamped, authenticatedWallet_claiming]
      rfl

theorem withScope_ok {partition : RoutingPartition} {region : String} {kind : RouteKind}
    {forward : RoutingScope → Request → Except Reply (List Dispatch)} {r : Request} {scope : RoutingScope}
    (made : newRoutingScope partition region kind r.service = .ok scope) :
    withScope partition region kind forward r = forward scope r := by
  unfold withScope
  rw [made]

theorem withScope_error {partition : RoutingPartition} {region : String} {kind : RouteKind}
    {forward : RoutingScope → Request → Except Reply (List Dispatch)} {r : Request} {e : Message}
    (made : newRoutingScope partition region kind r.service = .error e) : sent (withScope partition region kind forward r) = [] := by
  unfold withScope
  rw [made]
  rfl

/-- A scope that cannot be made sends nothing; one that can carries what its handling carries. -/
theorem withScope_carries (partition : RoutingPartition) (region : String) (kind : RouteKind)
    {forward : RoutingScope → Request → Except Reply (List Dispatch)} {peerIDs : RoutingScope → Except Reply (List String)}
    (carries : ∀ scope, Carries (authenticatedIn setup legacy auth req scope (peerIDs scope)) req (fun r => sent (forward scope r))) :
    Carries (scopedWallet setup legacy auth req partition region kind peerIDs) req
      (fun r => sent (withScope partition region kind forward r)) := by
  unfold scopedWallet
  cases made : newRoutingScope partition region kind req.service with
  | error e => exact Carries.nothing (fun wallets => withScope_error (r := req.claiming wallets) made)
  | ok scope =>
    refine (carries scope).congr (fun wallets => ?_)
    rw [withScope_ok (r := req.claiming wallets) made]

/-- A request for this node's own service is passed on without a wallet. -/
theorem serviceForward_carries (localServices : List Service) (resolved : Option Service) :
    Carries "" req (fun r => sent (serviceForwardHandler localServices resolved r)) := by
  cases found : resolved.elim (resolveUniqueLocalService localServices req.service) Except.ok with
  | error reply =>
    refine Carries.nothing (fun wallets => ?_)
    have claimed : resolved.elim (resolveUniqueLocalService localServices (req.claiming wallets).service) Except.ok = .error reply :=
      found
    unfold serviceForwardHandler
    rw [claimed]
    rfl
  | ok service =>
    refine Carries.one ""
      { scheme := "http", host := service.host ++ ":" ++ service.port, path := req.path } (fun wallets => ?_)
    have claimed : resolved.elim (resolveUniqueLocalService localServices (req.claiming wallets).service) Except.ok = .ok service :=
      found
    unfold serviceForwardHandler
    rw [claimed]
    rfl

theorem ForwardHandler.carries (h : ForwardHandler) :
    Carries (h.clientWallet setup legacy auth env req) req (h.delivered setup legacy auth env) := by
  cases h with
  | p2pForward => exact p2pForward_carries setup legacy auth req
  | p2pServiceForward =>
    have carries := withScope_carries setup legacy auth req .permissionless "" .p2pIngress
      (fun scope => p2pService_carries setup legacy auth env scope req)
    unfold ForwardHandler.clientWallet
    exact carries.congr (fun _ => rfl)
  | trustedRegionP2PServiceForward =>
    have carries := withScope_carries setup legacy auth req .trustedRegion req.region .p2pIngress
      (fun scope => p2pService_carries setup legacy auth env scope req)
    unfold ForwardHandler.clientWallet
    exact carries.congr (fun _ => rfl)
  | serviceForward localServices resolved =>
    exact serviceForward_carries req localServices resolved
  | globalServiceForward =>
    have carries := withScope_carries setup legacy auth req .permissionless "" .serviceIngress
      (fun scope => globalService_carries setup legacy auth env scope req)
    unfold ForwardHandler.clientWallet
    exact carries.congr (fun _ => rfl)
  | trustedRegionServiceForward =>
    have carries := withScope_carries setup legacy auth req .trustedRegion req.region .serviceIngress
      (fun scope => globalService_carries setup legacy auth env scope req)
    unfold ForwardHandler.clientWallet
    exact carries.congr (fun _ => rfl)

/-- What a client writes under the header of the wallet makes no difference to the requests that go
out for it, nor to any worker, exactly if nothing goes out, or its `Connection` header has the
proxy drop the header, or its token belongs to a wallet. -/
theorem wallet_unspoofed (h : ForwardHandler) :
    (∀ wallets wallets', Unspoofed (h.delivered setup legacy auth env (req.claiming wallets))
        (h.delivered setup legacy auth env (req.claiming wallets'))) ↔
      h.delivered setup legacy auth env req = [] ∨ clientWalletHeader ∈ req.header.connection ∨
        h.clientWallet setup legacy auth env req ≠ "" :=
  (h.carries setup legacy auth env req).unspoofed_iff

end Claims

namespace Forged

theorem no_digits : ∀ c ∈ "".toList, c.isDigit ∨ ('a' ≤ c ∧ c ≤ 'f') := hex_digits (by decide +kernel)

def controlPlane : ControlPlane := { url := "", token := "", digest := ⟨fun _ => "", fun _ => no_digits⟩ }

def noAnswer : Authorizer := ⟨fun _ _ => .ok none, fun _ _ _ _ => .ok none⟩

/-- A head with a legacy auth server. -/
def head : ServerSetup where
  controlPlane := controlPlane
  authURL := "http://auth.local"
  routing := { json := ⟨fun _ _ => false, fun _ _ => none, fun _ _ => ""⟩ }

/-- A worker that serves one wallet. -/
def worker : Worker where
  myID := "12D3KooWWorker"
  controlPlane := controlPlane
  policy := "whitelist"
  whitelist := ["Wallet"]
  localServices := [{ name := "llm", host := "localhost", port := "8080" }]
  table := ∅
  authorizer := noAnswer

/-- A request without a token. -/
def anonymous : Request := { peerId := "12D3KooWWorker", path := "/v1/_service/llm/v1/models" }

end Forged

open Forged in
/-- Who claims the wallet is served, who claims none is not. -/
theorem wallet_spoofed : ¬ ∀ setup legacy auth env (req : Request) (h : ForwardHandler) wallets wallets',
    Unspoofed (h.delivered setup legacy auth env (req.claiming wallets)) (h.delivered setup legacy auth env (req.claiming wallets')) := by
  intro always
  have same := (always head {} noAnswer {} anonymous .p2pForward [] ["Wallet"]).2 worker "12D3KooWHead" "" "llm"
  exact absurd same (by decide)

end OpenTela
