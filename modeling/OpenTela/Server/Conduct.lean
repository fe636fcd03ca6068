import OpenTela.Lib.Modal
import OpenTela.Server.Client

namespace OpenTela

open Prog AuthM

/-- No separator of the cache keys in what a key is made of. -/
structure Subject.Clean (s : Subject) : Prop where
  keyHash : nul ∉ s.keyHash.toList
  scope : ∀ scope, s.scope = some scope → scope.validate = .ok ()

/-- A key tells what it was made for. -/
theorem Subject.cacheKey_inj {s t : Subject} {peerIDs peerIDs' : List String} (clean : s.Clean) (clean' : t.Clean)
    (versions : s.version = t.version) (same : s.cacheKey peerIDs = t.cacheKey peerIDs') : s = t := by
  obtain ⟨hash, scope⟩ := s
  obtain ⟨hash', scope'⟩ := t
  cases scope with
  | none =>
    cases scope' with
    | none =>
      obtain rfl : hash = hash' := cacheKeyForDecision_inj clean.keyHash clean'.keyHash same
      rfl
    | some other => cases versions
  | some scope =>
    cases scope' with
    | none => cases versions
    | some other =>
      obtain ⟨hashes, scopes⟩ : hash = hash' ∧ scope = other :=
        cacheKeyForDecisionV2_inj clean.keyHash clean'.keyHash (clean.scope _ rfl) (clean'.scope _ rfl) same
      rw [hashes, scopes]

/-- A step on the cache is about the evaluation that is going on. -/
structure Account.Keyed (k : Account) (v : AclVersion) (key : String) (now : ℤ) : Prop where
  now : now = k.evaluation.began
  cacheable : k.evaluation.subject.cacheable = true
  version : v = k.evaluation.subject.version
  key : ∃ peerIDs, key = k.evaluation.subject.cacheKey peerIDs

/-- A request goes to a peer the evaluation has let through, where the routing finds it. -/
structure Account.Permits (k : Account) (d : Dispatch) : Prop where
  allowed : ∃ allowed ∈ k.granted, d.peer ∈ allowed
  routed : ∃ scope env n suffix, k.evaluation.subject.scope = some scope ∧ k.surroundings = some env ∧
    resolveTarget env scope n d.peer (buildInternalServicePath scope suffix) = some d.target

/-- How a thread behaves, by its account. -/
def conduct (setup : ServerSetup) (k : Account) (_ : Call) : AuthOp → Prop
  | .begin subject => subject.Clean
  | .getFresh v key now | .getStale v key now => k.Keyed v key now
  | .set v key decision freshFor staleFor now =>
    k.Keyed v key now ∧ staleFor = setup.controlPlane.controlPlaneStaleIfError ∧
      ∃ ttl, freshFor = setup.controlPlane.controlPlaneFreshTTL ttl ∧ { version := v, ttl, decision } ∈ k.live
  | .evaluate v request _ => v.subject request = k.evaluation.subject
  | .grant allowed => allowed ∈ k.known
  | .report allowed => ∀ peer ∈ allowed, ∃ given ∈ k.given, peer ∈ given
  | .forward d => setup.controlPlane.isControlPlaneEnabled = true → k.Permits d
  | .getTrustedNodeCredential | .surroundings => True

abbrev Conducted {α : Type} (setup : ServerSetup) (task : Call) (post : Account → Except ControlPlaneError α → Prop) (k : Account)
    (p : AuthM α) : Prop :=
  Always (fun _ _ => True) Account.learn (fun k o _ _ => conduct setup k task o) post k p

/-- What a call leaves behind for its handler: the peers of its decision have been let through, and
what was let through before it is not forgotten. -/
def Given {α : Type} (permits : α → String → Prop) (given : List (List String)) (k : Account) : Except ControlPlaneError α → Prop
  | .error _ => True
  | .ok decision => given ⊆ k.given ∧ ∀ peer, permits decision peer → ∃ allowed ∈ k.given, peer ∈ allowed

/-- What an evaluation leaves behind: the peers of its decision are let through, for its subject. -/
def Concluded {α : Type} (permits : α → String → Prop) (subject : Subject) (env : Option Surroundings) (given : List (List String))
    (k : Account) (out : Except ControlPlaneError α) : Prop :=
  k.surroundings = env ∧ Given permits given k out ∧
    ∀ decision, out = .ok decision → ∀ peer, permits decision peer →
      k.evaluation.subject = subject ∧ ∃ allowed ∈ k.granted, peer ∈ allowed

theorem Concluded.error {α : Type} {permits : α → String → Prop} {subject : Subject} {given : List (List String)} {k : Account}
    {e : ControlPlaneError} : Concluded permits subject k.surroundings given k (.error e) :=
  ⟨rfl, trivial, fun _ never => by cases never⟩

section Rules

variable {setup : ServerSetup} {task : Call}

theorem Conducted.bind {α β : Type} {mid : Account → Except ControlPlaneError α → Prop}
    {post : Account → Except ControlPlaneError β → Prop} {k : Account} {p : AuthM α} {f : α → AuthM β}
    (first : Conducted setup task mid k p) (errors : ∀ k e, mid k (.error e) → post k (.error e))
    (second : ∀ k a, mid k (.ok a) → Conducted setup task post k (f a)) : Conducted setup task post k (p.bind f) := by
  refine Always.bind (first.mono (fun _ _ _ _ _ fine => fine) ?_)
  rintro k (e | a) here
  · exact errors k e here
  · exact second k a here

theorem Conducted.mono {α : Type} {post post' : Account → Except ControlPlaneError α → Prop} {k : Account} {p : AuthM α}
    (conducted : Conducted setup task post k p) (weaker : ∀ k out, post k out → post' k out) : Conducted setup task post' k p :=
  Always.mono (fun _ _ _ _ _ fine => fine) weaker conducted

theorem Conducted.fail {α : Type} {post : Account → Except ControlPlaneError α → Prop} {k : Account} {e : ControlPlaneError}
    (ending : post k (.error e)) : Conducted setup task post k (.fail e) := ending

theorem Conducted.ite {α : Type} {post : Account → Except ControlPlaneError α → Prop} {k : Account} {p q : AuthM α} {c : Prop}
    [Decidable c] (yes : c → Conducted setup task post k p) (no : ¬ c → Conducted setup task post k q) :
    Conducted setup task post k (if c then p else q) := by
  by_cases h : c
  · rw [if_pos h]
    exact yes h
  · rw [if_neg h]
    exact no h

end Rules

section Evaluations

variable (setup : ServerSetup) (task : Call)

/-- The peers of a decision, as its own list has them. -/
abbrev listed (v : AclVersion) (decision : v.Decision) (peer : String) : Prop := peer ∈ v.allowed decision

/-- The evaluation going on ends well, from here on. -/
abbrev Concludes (v : AclVersion) (k : Account) : Account → Except ControlPlaneError v.Decision → Prop :=
  Concluded (listed v) k.evaluation.subject k.surroundings k.given

theorem allow_conducted {v : AclVersion} {k : Account} {decision : v.Decision} (known : v.allowed decision ∈ k.known) :
    Conducted setup task (Concludes v k) k (allow v decision) := by
  intro _ _
  refine ⟨known, rfl, ⟨List.subset_cons_self _ _, fun _ there => ⟨_, List.mem_cons_self, there⟩⟩, ?_⟩
  rintro _ ⟨⟩ _ there
  exact ⟨rfl, _, List.mem_cons_self, there⟩

theorem staleIfError_conducted {v : AclVersion} {useCache : Bool} {key : String} {now : ℤ} {err : AuthError} {k : Account}
    (keyed : useCache = true → k.Keyed v key now) :
    Conducted setup task (Concludes v k) k (staleIfError v useCache key now err) := by
  cases useCache with
  | false => exact .error
  | true =>
    intro found _
    refine ⟨keyed rfl, ?_⟩
    cases found with
    | none => exact Concluded.error
    | some decision =>
      have known : v.allowed decision ∈ (k.finds v (some decision)).known := List.mem_cons_self
      exact allow_conducted setup task known

/-- After the answer of the evaluator, with what has been learned from it. -/
theorem conclude_conducted {v : AclVersion} {useCache : Bool} {key : String} {now : ℤ} {payload : v.Request}
    {answer : Answer v.Response} {k : Account} (keyed : useCache = true → k.Keyed v key now)
    (learned : ∀ resp decision, answer.accepted v payload = some (resp, decision) →
      v.allowed decision ∈ k.known ∧ { version := v, ttl := v.ttl resp, decision } ∈ k.live) :
    Conducted setup task (Concludes v k) k
      (conclude setup.controlPlane v useCache key now payload answer) := by
  cases answer with
  | unreachable => exact staleIfError_conducted setup task keyed
  | response status header body =>
    have stale : ∀ err, Conducted setup task (Concludes v k) k (staleIfError v useCache key now err) :=
      fun err => staleIfError_conducted setup task keyed
    unfold conclude
    dsimp only
    refine Conducted.ite (fun _ => ?_) (fun _ => ?_)
    · generalize controlAuthFailure header = own
      exact Conducted.ite (fun _ => stale _) (fun _ => Conducted.fail .error)
    · refine Conducted.ite (fun _ => stale _) (fun succeeded => ?_)
      cases body with
      | error e => exact staleIfError_conducted setup task keyed
      | ok resp =>
        cases validated : v.validate payload resp with
        | error e => simpa only [validated] using staleIfError_conducted setup task keyed
        | ok decision =>
          have accepted : Answer.accepted v payload (.response status header (.ok resp)) = some (resp, decision) := by
            simp only [Answer.accepted, not_not.mp succeeded, if_true, validated]
          obtain ⟨known, live⟩ := learned resp decision accepted
          simp only [validated]
          refine Conducted.ite (fun caching => ?_) (fun _ => allow_conducted setup task known)
          exact fun _ _ => ⟨⟨keyed caching, rfl, _, rfl, live⟩, allow_conducted setup task known⟩

/-- What asking the evaluator leaves in the account. -/
theorem hears_accepted (k : Account) (v : AclVersion) (request : v.Request) (answer : Answer v.Response) :
    (k.hears v request answer).evaluation = k.evaluation ∧ (k.hears v request answer).surroundings = k.surroundings ∧
      (k.hears v request answer).given = k.given ∧ ∀ resp decision, answer.accepted v request = some (resp, decision) →
        v.allowed decision ∈ (k.hears v request answer).known ∧
          { version := v, ttl := v.ttl resp, decision } ∈ (k.hears v request answer).live := by
  unfold Account.hears
  cases accepted : answer.accepted v request with
  | none => exact ⟨rfl, rfl, rfl, fun _ _ none => by cases none⟩
  | some out =>
    obtain ⟨resp, decision⟩ := out
    refine ⟨rfl, rfl, rfl, fun resp' decision' same => ?_⟩
    cases same
    exact ⟨List.mem_cons_self, List.mem_cons_self⟩

/-- The evaluator is asked, and what it answers is made of it. -/
theorem ask_conducted {v : AclVersion} {useCache : Bool} {key token : String} {now : ℤ} {payload : v.Request} {k : Account}
    (subject : v.subject payload = k.evaluation.subject) (keyed : useCache = true → k.Keyed v key now) :
    Conducted setup task (Concludes v k) k
      ((AuthM.evaluate v payload token).bind (conclude setup.controlPlane v useCache key now payload)) := by
  intro answer _
  refine ⟨subject, ?_⟩
  obtain ⟨same, around, given, learned⟩ := hears_accepted k v payload answer
  have keyed' : useCache = true → (k.hears v payload answer).Keyed v key now := by
    intro caching
    obtain ⟨began, cacheable, version, peerIDs, key⟩ := keyed caching
    exact ⟨same ▸ began, same ▸ cacheable, same ▸ version, peerIDs, same ▸ key⟩
  have concluded := conclude_conducted setup task keyed' learned
  unfold Concludes at concluded
  rw [same, around, given] at concluded
  exact concluded

/-- The client hands over only peers that it has let through. -/
abbrev Hands (v : AclVersion) (k : Account) : Account → Except ControlPlaneError v.Decision → Prop := Given (listed v) k.given

theorem ask_peers_conducted {controlToken key : String} {now : ℤ} (payload : AclEvaluateRequest) {k : Account}
    (subject : AclVersion.subject .v1 payload = k.evaluation.subject) (keyed : k.Keyed .v1 key now) :
    Conducted setup task (Hands .v1 k) k (evaluateBearerForPeers.ask setup.controlPlane controlToken key now payload) :=
  Conducted.ite (fun _ => trivial)
    (fun _ => (ask_conducted setup task subject (fun _ => keyed)).mono (fun _ _ concluded => concluded.2.1))

theorem batch_conducted (bearer : String) (peerIDs : List String) (k : Account) :
    Conducted setup task (Hands .v1 k) k (evaluateBearerForPeers.batch setup.controlPlane bearer peerIDs) := by
  unfold evaluateBearerForPeers.batch
  refine Conducted.ite (fun _ => ⟨List.Subset.refl _, fun _ none => by cases none⟩) (fun _ => ?_)
  refine Conducted.ite (fun _ => trivial) (fun _ => ?_)
  intro now _
  refine ⟨⟨setup.controlPlane.digest.clean bearer, fun _ none => by cases none⟩, ?_⟩
  have keyed : (k.starts { keyHash := setup.controlPlane.digest.sha256Hex bearer } now).Keyed .v1
      (cacheKeyForDecision (setup.controlPlane.digest.sha256Hex bearer) (uniquePeerIDs peerIDs)) now :=
    ⟨rfl, rfl, rfl, uniquePeerIDs peerIDs, rfl⟩
  intro found _
  refine ⟨keyed, ?_⟩
  cases found with
  | some decision =>
    have known : AclVersion.allowed .v1 decision ∈ ((k.starts { keyHash := setup.controlPlane.digest.sha256Hex bearer } now).finds
        .v1 (some decision)).known := List.mem_cons_self
    exact (allow_conducted setup task known).mono (fun _ _ concluded => concluded.2.1)
  | none => exact ask_peers_conducted setup task ⟨setup.controlPlane.digest.sha256Hex bearer, uniquePeerIDs peerIDs⟩ rfl keyed

/-- From batch to batch: the peers of the decisions combined so far have been let through. -/
theorem loop_conducted (bearer : String) (batches : List (List String)) (combined : Option ControlPlaneDecision) {given : List (List String)}
    {k : Account} (kept : given ⊆ k.given) (lets : ∀ decision, combined = some decision → ∀ peer ∈ decision.allowedPeerIDs,
      ∃ allowed ∈ k.given, peer ∈ allowed) :
    Conducted setup task (Given (listed .v1) given) k (evaluateBearerForPeers.loop setup.controlPlane bearer batches combined) := by
  induction batches generalizing combined k with
  | nil =>
    refine ⟨kept, fun peer there => ?_⟩
    cases combined with
    | none => cases there
    | some combined => exact lets combined rfl peer there
  | cons batch rest ih =>
    have first := batch_conducted setup task bearer batch k
    cases combined with
    | none =>
      refine first.bind (fun _ _ _ => trivial) (fun k' decision hands => ?_)
      refine ih (some decision) (List.Subset.trans kept hands.1) ?_
      rintro _ ⟨⟩ peer there
      exact hands.2 peer there
    | some combined =>
      refine first.bind (fun _ _ _ => trivial) (fun k' decision hands => ?_)
      refine Conducted.ite (fun _ => trivial) (fun _ => Conducted.ite (fun _ => trivial) (fun _ => ?_))
      refine ih _ (List.Subset.trans kept hands.1) ?_
      rintro _ ⟨⟩ peer there
      rcases List.mem_append.mp there with before | now
      · obtain ⟨allowed, member, within⟩ := lets combined rfl peer before
        exact ⟨allowed, hands.1 member, within⟩
      · exact hands.2 peer now

/-- What an answer of the client permits, if it is an answer. -/
abbrev answered (v : AclVersion) (answer : Option v.Decision) (peer : String) : Prop := ∃ decision, answer = some decision ∧ listed v decision peer

theorem Given.answered {v : AclVersion} {given : List (List String)} {k : Account} {decision : v.Decision}
    (hands : Given (listed v) given k (.ok decision)) : Given (OpenTela.answered v) given k (.ok (some decision)) := by
  refine ⟨hands.1, ?_⟩
  rintro peer ⟨_, ⟨⟩, there⟩
  exact hands.2 peer there

theorem peers_conducted (authHeader : String) (peerIDs : List String) (k : Account) :
    Conducted setup task (Given (answered .v1) k.given) k (authorizeRequestForPeers setup.controlPlane authHeader peerIDs) := by
  unfold authorizeRequestForPeers
  split
  · exact ⟨List.Subset.refl _, fun _ ⟨_, never, _⟩ => by cases never⟩
  · split
    · trivial
    · rename_i bearer _
      have evaluated : Conducted setup task (Hands .v1 k) k (evaluateBearerForPeers setup.controlPlane bearer peerIDs) := by
        unfold evaluateBearerForPeers
        dsimp only
        split
        · exact loop_conducted setup task bearer _ none (List.Subset.refl _) (fun _ never => by cases never)
        · exact batch_conducted setup task bearer peerIDs k
      exact evaluated.bind (fun _ _ _ => trivial) (fun _ _ hands => Given.answered hands)

theorem credential_conducted (scope : RoutingScope) (k : Account) :
    Conducted setup task (fun k' _ => k' = k) k (controlCredential setup.controlPlane scope) := by
  unfold controlCredential
  split
  · intro credential _
    refine ⟨trivial, ?_⟩
    cases credential with
    | none => exact rfl
    | some token => exact rfl
  · dsimp only
    split
    · exact rfl
    · exact rfl

theorem ask_scope_conducted (scope : RoutingScope) (payload : AclEvaluateV2Request) {useCache : Bool} {key : String} {now : ℤ}
    {k : Account} (subject : AclVersion.subject .v2 payload = k.evaluation.subject) (keyed : useCache = true → k.Keyed .v2 key now) :
    Conducted setup task (Concludes .v2 k) k (evaluateBearerForScope.ask setup.controlPlane scope useCache key now payload) := by
  unfold evaluateBearerForScope.ask
  refine Conducted.ite (fun _ => .error) (fun _ => ?_)
  refine (credential_conducted setup task scope k).bind (fun k' e same => same ▸ .error) (fun k' token same => ?_)
  rw [same]
  exact ask_conducted setup task subject keyed

theorem scope_conducted (bearer : String) {scope : RoutingScope} (valid : scope.validate = .ok ()) (peerIDs : List String)
    (upstreamPeerID : String) (k : Account) :
    Conducted setup task
      (Concluded (listed .v2) { keyHash := setup.controlPlane.digest.sha256Hex bearer, scope := some scope } k.surroundings k.given) k
      (evaluateBearerForScope setup.controlPlane bearer scope peerIDs upstreamPeerID) := by
  unfold evaluateBearerForScope
  dsimp only
  split
  · refine ⟨rfl, ⟨List.Subset.refl _, fun _ none => by cases none⟩, ?_⟩
    rintro _ ⟨⟩ _ none
    cases none
  · intro now _
    refine ⟨⟨setup.controlPlane.digest.clean bearer, fun _ same => by cases same; exact valid⟩, ?_⟩
    generalize begun : k.learn (.begin { keyHash := setup.controlPlane.digest.sha256Hex bearer, scope := some scope }) now = k'
    have about : k'.evaluation.subject = { keyHash := setup.controlPlane.digest.sha256Hex bearer, scope := some scope } := begun ▸ rfl
    have around : k'.surroundings = k.surroundings := begun ▸ rfl
    have given : k'.given = k.given := begun ▸ rfl
    have keyed : shouldCacheDecisionV2 scope = true →
        k'.Keyed .v2 (cacheKeyForDecisionV2 (setup.controlPlane.digest.sha256Hex bearer) scope (uniquePeerIDs peerIDs)) now :=
      fun caching => begun ▸ ⟨rfl, caching, rfl, _, rfl⟩
    rw [← about, ← around, ← given]
    have asks := ask_scope_conducted setup task scope
      ⟨setup.controlPlane.digest.sha256Hex bearer, scope.partition, scope.region, scope.routeKind, scope.service,
        uniquePeerIDs peerIDs, upstreamPeerID⟩ about.symm keyed
    by_cases caching : shouldCacheDecisionV2 scope = true
    · simp only [caching, if_true] at asks ⊢
      intro found _
      refine ⟨keyed caching, ?_⟩
      cases found with
      | none => exact asks
      | some decision =>
        have known : AclVersion.allowed .v2 decision ∈ (k'.finds .v2 (some decision)).known := List.mem_cons_self
        exact allow_conducted setup task known
    · simp only [caching] at asks ⊢
      exact asks

/-- What an answer of the authorization entitles to: who passes the filter has been let through. -/
def Entitled (scope : RoutingScope) (env : Option Surroundings) (k : Account)
    (outcome : Option (Except ControlPlaneError (Option ControlPlaneDecisionV2))) : Prop :=
  k.surroundings = env ∧
    (setup.controlPlane.isControlPlaneEnabled = true → ∀ candidates allowed wallet,
      filterAuthorized candidates outcome = .ok (allowed, wallet) →
        ∀ peer ∈ allowed, k.evaluation.subject.scope = some scope ∧ ∃ list ∈ k.granted, peer ∈ list)

theorem filterAuthorized_error {candidates allowed : List String} {wallet : String} {e : ControlPlaneError}
    (filtered : filterAuthorized candidates (some (.error e)) = .ok (allowed, wallet)) : False := by
  cases filtered

theorem filterAuthorized_allowed {candidates allowed : List String} {wallet : String} {decision : ControlPlaneDecisionV2}
    (filtered : filterAuthorized candidates (some (.ok (some decision))) = .ok (allowed, wallet)) :
    ∀ peer ∈ allowed, decision.allows peer = true := by
  unfold filterAuthorized at filtered
  dsimp only at filtered
  split at filtered
  · cases filtered
  · cases filtered
    exact fun peer member => (List.mem_filter.mp member).2

theorem authorize_conducted (authHeader : String) {scope : RoutingScope} (valid : scope.validate = .ok ()) (peerIDs : List String)
    (upstreamPeerID : String) (k : Account) :
    Conducted setup task (fun k' out => Given (answered .v2) k.given k' out ∧ Entitled setup scope k.surroundings k' (some out)) k
      (authorizeRequestForScope setup.controlPlane authHeader scope peerIDs upstreamPeerID) := by
  unfold authorizeRequestForScope
  split
  · rename_i disabled
    refine ⟨⟨List.Subset.refl _, fun _ ⟨_, never, _⟩ => by cases never⟩, rfl, fun enabled => ?_⟩
    simp [enabled] at disabled
  · split
    · exact ⟨trivial, rfl, fun _ _ _ _ filtered => (filterAuthorized_error filtered).elim⟩
    · rename_i bearer _
      refine (scope_conducted setup task bearer valid peerIDs upstreamPeerID k).bind (fun k' e concluded => ?_)
        (fun k' decision concluded => ?_)
      · exact ⟨trivial, concluded.1, fun _ _ _ _ filtered => (filterAuthorized_error filtered).elim⟩
      · obtain ⟨around, hands, lets⟩ := concluded
        refine ⟨Given.answered hands, around, fun _ candidates allowed wallet filtered peer member => ?_⟩
        obtain ⟨about, granted⟩ := lets decision rfl peer
          (ControlPlaneDecisionV2.allowed_of_allows (filterAuthorized_allowed filtered peer member))
        exact ⟨congrArg Subject.scope about, granted⟩

theorem candidates_conducted {scope : RoutingScope} (valid : scope.validate = .ok ()) (req : Request) (candidates : List String)
    (k : Account) :
    Conducted setup task (fun k' out => ∃ outcome, out = .ok outcome ∧ Entitled setup scope k.surroundings k' outcome) k
      (authorizeCandidates setup scope req candidates) := by
  unfold authorizeCandidates
  cases enabling : setup.controlPlane.isControlPlaneEnabled with
  | false => exact ⟨none, rfl, rfl, fun enabled => by rw [enabling] at enabled; cases enabled⟩
  | true =>
    have authorized := authorize_conducted setup task (req.getHeader "Authorization") valid candidates "" k
    -- The client is not looked into: its conditions would be evaluated.
    generalize authorizeRequestForScope setup.controlPlane (req.getHeader "Authorization") scope candidates "" = asked at authorized ⊢
    have handed : Conducted setup task (fun k' out => ∃ outcome, out = .ok outcome ∧ Entitled setup scope k.surroundings k' (some outcome))
        k asked.attempt := Always.attempt (authorized.mono (fun _ out entitled => ⟨out, rfl, entitled.2⟩))
    refine handed.bind (fun _ _ never => ?_) (fun k' outcome entitled => ?_)
    · obtain ⟨_, same, _⟩ := never
      cases same
    · obtain ⟨_, same, entitled⟩ := entitled
      cases same
      exact ⟨some outcome, rfl, entitled⟩

theorem forwardAll_conducted {deliveries : List Dispatch} {k : Account}
    (permitted : setup.controlPlane.isControlPlaneEnabled = true → ∀ d ∈ deliveries, k.Permits d) :
    Conducted setup task (fun _ _ => True) k (forwardAll deliveries) := by
  induction deliveries with
  | nil => trivial
  | cons d rest ih =>
    exact fun _ _ => ⟨fun enabled => permitted enabled d List.mem_cons_self,
      ih (fun enabled d' member => permitted enabled d' (List.mem_cons_of_mem _ member))⟩

theorem global_conducted {scope : RoutingScope} (valid : scope.validate = .ok ()) (req : Request) (k : Account) :
    Conducted setup task (fun _ _ => True) k (forwardGlobalService setup scope req) := by
  unfold forwardGlobalService
  intro found _
  refine ⟨trivial, ?_⟩
  obtain ⟨env, legacy⟩ := found
  dsimp only [Prog.bind]
  split
  · trivial
  · rename_i candidates _
    have authorized := candidates_conducted setup task valid req candidates (k.learn .surroundings (env, legacy))
    generalize authorizeCandidates setup scope req candidates = asked at authorized ⊢
    refine authorized.bind (fun _ _ _ => trivial) (fun k' outcome entitled => ?_)
    split
    · trivial
    · rename_i deliveries forwarded
      refine forwardAll_conducted setup task (fun enabled d member => ?_)
      obtain ⟨allowed, wallet, authorized, within, n, routed⟩ := globalServiceForward_mem forwarded member
      obtain ⟨_, same, around, lets⟩ := entitled
      cases same
      obtain ⟨about, granted⟩ := lets enabled candidates allowed wallet authorized d.peer within
      exact ⟨granted, scope, env, n, req.path, about, around, routed⟩

theorem handOver_conducted {v : AclVersion} {k : Account} {answer : Option v.Decision}
    (hands : Given (answered v) [] k (.ok answer)) :
    Conducted setup task (fun _ _ => True) k (handOver v answer) := by
  cases answer with
  | none => trivial
  | some decision => exact fun _ _ => ⟨fun peer there => hands.2 peer ⟨decision, rfl, there⟩, trivial⟩

/-- Every call behaves so from its start. -/
theorem body_conducted : Conducted setup task (fun _ _ => True) {} (setup.body task) := by
  cases task with
  | forPeers authHeader peerIDs =>
    change Conducted setup _ _ {} (callForPeers setup authHeader peerIDs)
    unfold callForPeers
    have authorized := peers_conducted setup (.forPeers authHeader peerIDs) authHeader peerIDs {}
    generalize authorizeRequestForPeers setup.controlPlane authHeader peerIDs = asked at authorized ⊢
    exact authorized.bind (fun _ _ _ => trivial) (fun _ _ hands => handOver_conducted setup _ hands)
  | forScope partition region kind service authHeader peerIDs upstreamPeerID =>
    change Conducted setup _ _ {} (callForScope setup partition region kind service authHeader peerIDs upstreamPeerID)
    unfold callForScope
    split
    · trivial
    · rename_i scope made
      have authorized := authorize_conducted setup (.forScope partition region kind service authHeader peerIDs upstreamPeerID) authHeader
        (newRoutingScope_ok made).1 peerIDs upstreamPeerID {}
      generalize authorizeRequestForScope setup.controlPlane authHeader scope peerIDs upstreamPeerID = asked at authorized ⊢
      exact authorized.bind (fun _ _ _ => trivial) (fun _ _ hands => handOver_conducted setup _ hands.1)
  | globalService partition req =>
    change Conducted setup _ _ {} (callGlobalService setup partition req)
    unfold callGlobalService
    dsimp only
    split
    · trivial
    · rename_i scope made
      exact global_conducted setup _ (newRoutingScope_ok made).1 req {}

end Evaluations

/-- The account of a thread is what it has learned. -/
theorem AuthWorld.exec_account {i : ℕ} {chance : AuthChance} {o : AuthOp} {s s' : AuthWorld} {r : o.Res}
    (executed : AuthWorld.exec i chance o s = some (r, s')) :
    s'.account i = (s.account i).learn o r ∧ ∀ j, j ≠ i → s'.account j = s.account j := by
  cases executed
  exact ⟨Function.update_self .., fun j different => Function.update_of_ne different ..⟩

/-- The invariant rule of the client: what holds of the world at first and survives every step of a
thread that behaves holds throughout. -/
theorem AuthCrew.keeps {setup : ServerSetup} {meets : AuthCrew → ℕ → Call → (o : AuthOp) → o.Res → Prop} {c : AuthCrew}
    (reach : Crew.Reach setup.system meets AuthCrew.fresh c) (holds : AuthWorld → Prop) (begins : holds {})
    (steps : ∀ (c : AuthCrew) i chance task o r s', holds c.state → AuthWorld.exec i chance o c.state = some (r, s') →
      meets c i task o r → conduct setup (c.state.account i) task o → holds s') : holds c.state := by
  have follows : Crew.Follows (fun _ _ => True) Account.learn (conduct setup) AuthWorld.account {} AuthCrew.fresh :=
    ⟨fun _ _ none => (nomatch none), fun _ _ => rfl⟩
  exact (reach.follows (conduct setup) AuthWorld.account {} (fun c => holds c.state) begins follows
    (fun task _ => body_conducted setup task) (fun _ _ _ _ _ _ _ _ => trivial)
    (fun _ _ _ _ _ _ _ executed => AuthWorld.exec_account executed) (fun _ _ now => now)
    (fun c i choice task o _ r s' now _ executed meeting behaves => steps c i choice task o r s' now executed meeting behaves)).1

end OpenTela
