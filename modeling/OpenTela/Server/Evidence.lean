import OpenTela.Server.Conduct

namespace OpenTela

open Prog

/-- What a response is about, and which peers it allows. -/
structure Received.About (b : Received) (subject : Subject) (allowed : List String) : Prop where
  keyHash : b.keyHash = subject.keyHash
  scope : b.scope = subject.scope.map RoutingScope.decisionScope
  allowed : b.allowed = allowed

/-- A response stands behind what evaluation `e` of thread `i` allows: it is about the same token and
scope, it is not too old, and where nothing may be cached it was received in this very evaluation. -/
structure Received.Backs (cp : ControlPlane) (b : Received) (i : ℕ) (e : Evaluation) (allowed : List String) : Prop where
  about : b.About e.subject allowed
  inTime : e.began ≤ b.evaluation.began + cp.freshBound b.ttl + cp.controlPlaneStaleIfError
  own : e.subject.cacheable = false → b.thread = i ∧ b.evaluation = e

/-- A response stands behind an entry of a cache. -/
structure Received.Fills (cp : ControlPlane) (b : Received) (v : AclVersion) (key : String) (entry : Expiring.Entry v.Decision ℤ) :
    Prop where
  about : ∃ subject : Subject, subject.Clean ∧ v = subject.version ∧ (∃ peerIDs, key = subject.cacheKey peerIDs) ∧
    b.About subject (v.allowed entry.value)
  fresh : entry.freshUntil ≤ b.evaluation.began + cp.freshBound b.ttl
  stale : entry.staleUntil ≤ b.evaluation.began + cp.freshBound b.ttl + cp.controlPlaneStaleIfError

/-- What the account of thread `i` rests on: responses, and what has been let through. -/
structure Account.Rests (cp : ControlPlane) (responses : List Received) (grants : List Grant) (i : ℕ) (k : Account) : Prop where
  clean : k.evaluation.subject.Clean
  live : ∀ l ∈ k.live, ∃ b ∈ responses, b.thread = i ∧ b.evaluation = k.evaluation ∧ b.ttl = l.ttl ∧
    b.About k.evaluation.subject (l.version.allowed l.decision)
  known : ∀ allowed ∈ k.known, ∃ b ∈ responses, b.Backs cp i k.evaluation allowed
  granted : ∀ allowed ∈ k.granted, ∃ g ∈ grants, g.thread = i ∧ g.evaluation = k.evaluation ∧ g.allowed = allowed
  given : ∀ allowed ∈ k.given, ∃ g ∈ grants, g.thread = i ∧ g.allowed = allowed

/-- A request goes to the peer itself, or, in the permissionless partition, to the relay that
`findRelayFor` names for it, with the peer in the path. -/
def Sent.Routed (r : Sent) : Prop :=
  ∃ scope env n suffix, r.evaluation.subject.scope = some scope ∧ r.surroundings = some env ∧
    (r.delivery.target.host = r.delivery.peer ∨
      scope.partition = .permissionless ∧
        r.delivery.target.host = findRelayFor (env.network (n + 1)) (env.table (n + 1)) r.delivery.peer ∧
        r.delivery.target.path = "/v1/p2p/" ++ r.delivery.peer ++ buildInternalServicePath scope suffix)

/-- A request is sent for a peer that its evaluation has let through. -/
def Sent.Granted (grants : List Grant) (r : Sent) : Prop :=
  r.Routed ∧ ∃ g ∈ grants, g.thread = r.thread ∧ g.evaluation = r.evaluation ∧ r.delivery.peer ∈ g.allowed

/-- There is a response behind everything. -/
structure AuthWorld.Backed (cp : ControlPlane) (s : AuthWorld) : Prop where
  accounts : ∀ i, (s.account i).Rests cp s.responses s.granted i
  cached : ∀ v key entry, s.cache v key = some entry → ∃ b ∈ s.responses, b.Fills cp v key entry
  granted : ∀ g ∈ s.granted, ∃ b ∈ s.responses, b.Backs cp g.thread g.evaluation g.allowed
  reported : ∀ r ∈ s.reported, ∀ peer ∈ r.allowed, ∃ g ∈ s.granted, g.thread = r.thread ∧ peer ∈ g.allowed
  sent : cp.isControlPlaneEnabled = true → ∀ r ∈ s.sent, r.Granted s.granted

theorem ControlPlane.freshBound_nonneg (cp : ControlPlane) (n : ℤ) : 0 ≤ cp.freshBound n := by
  have capped : 0 ≤ cp.controlPlaneCacheTTL := by
    unfold ControlPlane.controlPlaneCacheTTL
    split
    · omega
    · decide
  unfold ControlPlane.freshBound
  split
  · rename_i positive
    exact le_min (Int.mul_nonneg positive.le (by decide)) capped
  · exact capped

theorem Answer.accepted_ok {v : AclVersion} {request : v.Request} {answer : Answer v.Response} {resp : v.Response} {decision : v.Decision}
    (accepted : answer.accepted v request = some (resp, decision)) : v.validate request resp = .ok decision := by
  unfold Answer.accepted at accepted
  split at accepted
  · split at accepted
    · split at accepted
      · rename_i validated
        cases accepted
        exact validated
      · cases accepted
    · cases accepted
  · cases accepted

/-- A validated response is about the scope of the request, and allows what the decision does. -/
theorem AclVersion.validate_ok {v : AclVersion} {request : v.Request} {resp : v.Response} {decision : v.Decision}
    (validated : v.validate request resp = .ok decision) :
    v.about resp = (v.subject request).scope.map RoutingScope.decisionScope ∧ v.permits resp = v.allowed decision := by
  cases v with
  | v1 => exact ⟨rfl, (validateACLResponse_ok validated).symm⟩
  | v2 =>
    obtain ⟨same, decides⟩ := validateACLResponseV2_ok validated
    refine ⟨congrArg some same, ?_⟩
    change (resp.decisions.filter _).map _ = (decision.decisions.filter _).map _
    rw [decides]

theorem resolveTarget_some {env : Surroundings} {scope : RoutingScope} {n : ℕ} {peer requestPath : String} {target : Target}
    (found : resolveTarget env scope n peer requestPath = some target) :
    target.host = peer ∨
      scope.partition = .permissionless ∧ target.host = findRelayFor (env.network (n + 1)) (env.table (n + 1)) peer ∧
        target.path = "/v1/p2p/" ++ peer ++ requestPath := by
  unfold resolveTarget at found
  dsimp only at found
  split at found
  · split at found
    · cases found
    · cases found
      exact Or.inl rfl
  · rename_i untrusted
    split at found
    · cases found
      exact Or.inl rfl
    · split at found
      · cases found
      · cases found
        refine Or.inr ⟨?_, rfl, rfl⟩
        cases partition : scope.partition with
        | permissionless => rfl
        | trustedRegion => exact absurd (decide_eq_true partition) untrusted

section Accounts

variable {cp : ControlPlane} {responses responses' : List Received} {grants grants' : List Grant} {i : ℕ} {k : Account}

/-- What is noted does not get lost. -/
theorem Account.Rests.mono (rests : k.Rests cp responses grants i) (more : responses ⊆ responses') (more' : grants ⊆ grants') :
    k.Rests cp responses' grants' i := by
  refine ⟨rests.clean, fun l member => ?_, fun allowed member => ?_, fun allowed member => ?_, fun allowed member => ?_⟩
  · obtain ⟨b, there, rest⟩ := rests.live l member
    exact ⟨b, more there, rest⟩
  · obtain ⟨b, there, backs⟩ := rests.known allowed member
    exact ⟨b, more there, backs⟩
  · obtain ⟨g, there, rest⟩ := rests.granted allowed member
    exact ⟨g, more' there, rest⟩
  · obtain ⟨g, there, rest⟩ := rests.given allowed member
    exact ⟨g, more' there, rest⟩

theorem Account.Rests.starts (rests : k.Rests cp responses grants i) {subject : Subject} (clean : subject.Clean) (now : ℤ) :
    (k.starts subject now).Rests cp responses grants i := by
  refine ⟨clean, fun _ none => ?_, fun _ none => ?_, fun _ none => ?_, rests.given⟩
  · cases none
  · cases none
  · cases none

theorem Account.Rests.finds (rests : k.Rests cp responses grants i) {v : AclVersion} {found : Option v.Decision}
    (backed : ∀ decision, found = some decision → ∃ b ∈ responses, b.Backs cp i k.evaluation (v.allowed decision)) :
    (k.finds v found).Rests cp responses grants i := by
  cases found with
  | none => exact rests
  | some decision =>
    refine ⟨rests.clean, rests.live, fun allowed member => ?_, rests.granted, rests.given⟩
    rcases List.mem_cons.mp member with rfl | before
    · exact backed decision rfl
    · exact rests.known allowed before

/-- A response just received backs the evaluation that asked for it. -/
theorem Received.About.backs {b : Received} {e : Evaluation} {allowed : List String} (about : b.About e.subject allowed)
    (thread : b.thread = i) (evaluation : b.evaluation = e) : b.Backs cp i e allowed := by
  have fresh := cp.freshBound_nonneg b.ttl
  have stale := cp.staleIfError_pos
  refine ⟨about, ?_, fun _ => ⟨thread, evaluation⟩⟩
  rw [evaluation]
  omega

/-- An entry of the cache backs the evaluation that finds it before it expires. -/
theorem Received.Fills.backs {b : Received} {v : AclVersion} {key : String} {now : ℤ} {entry : Expiring.Entry v.Decision ℤ}
    (fills : b.Fills cp v key entry) (clean : k.evaluation.subject.Clean) (keyed : k.Keyed v key now)
    (inTime : now ≤ entry.freshUntil ∨ now ≤ entry.staleUntil) : b.Backs cp i k.evaluation (v.allowed entry.value) := by
  obtain ⟨⟨subject, clean', version, ⟨peerIDs, key⟩, about⟩, fresh, stale⟩ := fills
  obtain ⟨began, cacheable, version', peerIDs', key'⟩ := keyed
  obtain rfl : subject = k.evaluation.subject :=
    Subject.cacheKey_inj clean' clean (version.symm.trans version') (key.symm.trans key')
  have positive := cp.staleIfError_pos
  refine ⟨about, ?_, fun never => ?_⟩
  · rw [← began]
    omega
  · rw [never] at cacheable
    cases cacheable

end Accounts

section Steps

variable {cp : ControlPlane} {s : AuthWorld} {i : ℕ} {k : Account}

theorem AuthWorld.Backed.update (backed : s.Backed cp) {responses : List Received} {grants : List Grant} (more : s.responses ⊆ responses)
    (more' : s.granted ⊆ grants) (moved : k.Rests cp responses grants i) (j : ℕ) :
    (Function.update s.account i k j).Rests cp responses grants j := by
  by_cases same : j = i
  · subst same
    rw [Function.update_self]
    exact moved
  · rw [Function.update_of_ne same]
    exact (backed.accounts j).mono more more'

/-- A step that only adds to what a thread has learned. -/
theorem AuthWorld.Backed.learns (backed : s.Backed cp) (moved : k.Rests cp s.responses s.granted i) :
    ({ s with account := Function.update s.account i k } : AuthWorld).Backed cp :=
  ⟨backed.update (List.Subset.refl _) (List.Subset.refl _) moved, backed.cached, backed.granted, backed.reported, backed.sent⟩

theorem AuthWorld.Backed.finds (backed : s.Backed cp) {v : AclVersion} {key : String} {now : ℤ}
    (keyed : (s.account i).Keyed v key now) {found : Option v.Decision}
    (there : ∀ decision, found = some decision → ∃ entry, s.cache v key = some entry ∧ entry.value = decision ∧
      (now ≤ entry.freshUntil ∨ now ≤ entry.staleUntil)) :
    ({ s with account := Function.update s.account i ((s.account i).finds v found) } : AuthWorld).Backed cp := by
  refine backed.learns ((backed.accounts i).finds (fun decision same => ?_))
  obtain ⟨entry, holds, rfl, inTime⟩ := there decision same
  obtain ⟨b, received, fills⟩ := backed.cached v key entry holds
  exact ⟨b, received, fills.backs (backed.accounts i).clean keyed inTime⟩

theorem AuthWorld.Backed.evaluate (backed : s.Backed cp) {v : AclVersion} {request : v.Request} (answer : Answer v.Response)
    (same : v.subject request = (s.account i).evaluation.subject) :
    ({ s.hear i v request answer with
        account := Function.update s.account i ((s.account i).hears v request answer) } : AuthWorld).Backed cp := by
  unfold AuthWorld.hear Account.hears
  cases accepted : answer.accepted v request with
  | none =>
    dsimp only
    split
    · exact ⟨backed.update (List.Subset.refl _) (List.Subset.refl _) (backed.accounts i), backed.cached, backed.granted,
        backed.reported, backed.sent⟩
    · exact backed.learns (backed.accounts i)
  | some out =>
    obtain ⟨resp, decision⟩ := out
    obtain ⟨scope, permits⟩ := AclVersion.validate_ok (Answer.accepted_ok accepted)
    have more : ∀ b : Received, s.responses ⊆ s.responses ++ [b] := fun b => List.subset_append_left _ _
    have about : Received.About
        { thread := i, evaluation := (s.account i).evaluation, keyHash := (v.subject request).keyHash, scope := v.about resp
          ttl := v.ttl resp, allowed := v.permits resp } (s.account i).evaluation.subject (v.allowed decision) :=
      ⟨congrArg Subject.keyHash same, same ▸ scope, permits⟩
    obtain ⟨clean, live, known, granted, given⟩ := (backed.accounts i).mono (more _) (List.Subset.refl _)
    refine ⟨backed.update (more _) (List.Subset.refl _) ⟨clean, fun l member => ?_, fun allowed member => ?_, granted, given⟩, ?_, ?_,
      backed.reported, backed.sent⟩
    · rcases List.mem_cons.mp member with rfl | before
      · exact ⟨_, List.mem_append_right _ List.mem_cons_self, rfl, rfl, rfl, about⟩
      · exact live l before
    · rcases List.mem_cons.mp member with rfl | before
      · exact ⟨_, List.mem_append_right _ List.mem_cons_self, about.backs rfl rfl⟩
      · exact known allowed before
    · intro v' key entry there
      obtain ⟨b, received, fills⟩ := backed.cached v' key entry there
      exact ⟨b, more _ received, fills⟩
    · intro g member
      obtain ⟨b, received, backs⟩ := backed.granted g member
      exact ⟨b, more _ received, backs⟩

/-- What is put into a cache is a response of this evaluation. -/
theorem AuthWorld.Backed.set (backed : s.Backed cp) {v : AclVersion} {key : String} {now ttl : ℤ} {decision : v.Decision}
    (keyed : (s.account i).Keyed v key now) (live : { version := v, ttl, decision } ∈ (s.account i).live) :
    ({ s with
        cache := Function.update s.cache v
          ((s.cache v).set key (cacheEntry decision (cp.controlPlaneFreshTTL ttl) cp.controlPlaneStaleIfError now))
        account := Function.update s.account i (s.account i) } : AuthWorld).Backed cp := by
  refine ⟨?_, fun v' key' entry there => ?_, backed.granted, backed.reported, backed.sent⟩
  · exact backed.update (List.Subset.refl _) (List.Subset.refl _) (backed.accounts i)
  by_cases here : v' = v
  · subst here
    dsimp only at there
    rw [Function.update_self] at there
    rcases Expiring.set_some there with ⟨rfl, rfl⟩ | before
    · obtain ⟨b, received, _, evaluation, lasting, about⟩ := (backed.accounts i).live _ live
      have fresh : now + cp.controlPlaneFreshTTL ttl ≤ b.evaluation.began + cp.freshBound b.ttl := by
        rw [evaluation, keyed.now, lasting]
        have bound := cp.freshTTL_le ttl
        dsimp only
        omega
      refine ⟨b, received, ⟨_, (backed.accounts i).clean, keyed.version, keyed.key, about⟩, fresh, ?_⟩
      rw [cacheEntry_stale]
      omega
    · exact backed.cached v' key' entry before
  · dsimp only at there
    rw [Function.update_of_ne here] at there
    exact backed.cached v' key' entry there

theorem AuthWorld.Backed.grant (backed : s.Backed cp) {allowed : List String} (late : Bool)
    (known : allowed ∈ (s.account i).known) :
    ({ s with
        granted := s.granted ++ [{ thread := i, evaluation := (s.account i).evaluation, allowed, late }]
        account := Function.update s.account i
          { s.account i with granted := allowed :: (s.account i).granted, given := allowed :: (s.account i).given } } :
      AuthWorld).Backed cp := by
  have more : ∀ g : Grant, s.granted ⊆ s.granted ++ [g] := fun g => List.subset_append_left _ _
  obtain ⟨clean, live, knows, granted, given⟩ := (backed.accounts i).mono (List.Subset.refl _) (more _)
  refine ⟨backed.update (List.Subset.refl _) (more _) ⟨clean, live, knows, fun list member => ?_, fun list member => ?_⟩, backed.cached,
    fun g member => ?_, fun r member peer there => ?_, fun enabled r member => ?_⟩
  · rcases List.mem_cons.mp member with rfl | before
    · exact ⟨_, List.mem_append_right _ List.mem_cons_self, rfl, rfl, rfl⟩
    · exact granted list before
  · rcases List.mem_cons.mp member with rfl | before
    · exact ⟨_, List.mem_append_right _ List.mem_cons_self, rfl, rfl⟩
    · exact given list before
  · rcases List.mem_append.mp member with before | new
    · exact backed.granted g before
    · obtain rfl := List.mem_singleton.mp new
      exact (backed.accounts i).known allowed known
  · obtain ⟨g, lets, rest⟩ := backed.reported r member peer there
    exact ⟨g, more _ lets, rest⟩
  · obtain ⟨routed, g, lets, rest⟩ := backed.sent enabled r member
    exact ⟨routed, g, more _ lets, rest⟩

theorem AuthWorld.Backed.report (backed : s.Backed cp) {allowed : List String}
    (given : ∀ peer ∈ allowed, ∃ list ∈ (s.account i).given, peer ∈ list) :
    ({ s with
        reported := s.reported ++ [{ thread := i, allowed }]
        account := Function.update s.account i (s.account i) } : AuthWorld).Backed cp := by
  refine ⟨?_, backed.cached, backed.granted, fun r member peer there => ?_, backed.sent⟩
  · exact backed.update (List.Subset.refl _) (List.Subset.refl _) (backed.accounts i)
  · rcases List.mem_append.mp member with before | new
    · exact backed.reported r before peer there
    · obtain rfl := List.mem_singleton.mp new
      obtain ⟨list, lets, within⟩ := given peer there
      obtain ⟨g, granted, thread, rfl⟩ := (backed.accounts i).given list lets
      exact ⟨g, granted, thread, within⟩

theorem AuthWorld.Backed.forward (backed : s.Backed cp) {d : Dispatch}
    (permitted : cp.isControlPlaneEnabled = true → (s.account i).Permits d) :
    ({ s with
        sent := s.sent ++
          [{ thread := i, evaluation := (s.account i).evaluation, surroundings := (s.account i).surroundings, delivery := d }]
        account := Function.update s.account i (s.account i) } : AuthWorld).Backed cp := by
  refine ⟨?_, backed.cached, backed.granted, backed.reported, fun enabled r member => ?_⟩
  · exact backed.update (List.Subset.refl _) (List.Subset.refl _) (backed.accounts i)
  · rcases List.mem_append.mp member with before | new
    · exact backed.sent enabled r before
    · obtain rfl := List.mem_singleton.mp new
      have permits := permitted enabled
      obtain ⟨list, lets, within⟩ := permits.allowed
      obtain ⟨g, granted, thread, evaluation, rfl⟩ := (backed.accounts i).granted list lets
      obtain ⟨scope, env, n, suffix, about, around, found⟩ := permits.routed
      exact ⟨⟨scope, env, n, suffix, about, around, resolveTarget_some found⟩, g, granted, thread, evaluation, within⟩

end Steps

section Runs

variable {setup : ServerSetup}

/-- One step keeps a response behind everything, where the thread behaves. -/
theorem AuthWorld.Backed.step {s s' : AuthWorld} {i : ℕ} {chance : AuthChance} {task : Call} {o : AuthOp} {r : o.Res}
    (backed : s.Backed setup.controlPlane) (behaves : conduct setup (s.account i) task o)
    (executed : AuthWorld.exec i chance o s = some (r, s')) : s'.Backed setup.controlPlane := by
  cases executed
  cases o with
  | begin subject =>
    obtain ⟨accounts, cached, granted, reported, sent⟩ := backed.learns ((backed.accounts i).starts behaves chance.now)
    exact ⟨accounts, cached, granted, reported, sent⟩
  | getFresh v key now =>
    refine backed.finds behaves (fun decision found => ?_)
    obtain ⟨entry, there, same, fresh⟩ := Expiring.getFresh_some found
    exact ⟨entry, there, same, Or.inl fresh⟩
  | getStale v key now =>
    refine backed.finds behaves (fun decision found => ?_)
    obtain ⟨entry, there, same, stale⟩ := Expiring.getStale_some found
    exact ⟨entry, there, same, Or.inr stale⟩
  | set v key decision freshFor staleFor now =>
    obtain ⟨keyed, rfl, ttl, rfl, live⟩ := behaves
    exact backed.set keyed live
  | getTrustedNodeCredential => exact backed.learns (backed.accounts i)
  | evaluate v request token => exact backed.evaluate (chance.answer v) behaves
  | grant allowed => exact backed.grant _ behaves
  | report allowed => exact backed.report behaves
  | surroundings =>
    obtain ⟨clean, live, known, granted, given⟩ := backed.accounts i
    exact backed.learns ⟨clean, live, known, granted, given⟩
  | forward d => exact backed.forward behaves

theorem AuthWorld.Backed.fresh : ({} : AuthWorld).Backed setup.controlPlane := by
  refine ⟨fun i => ⟨⟨List.not_mem_nil, fun _ none => ?_⟩, fun _ none => ?_, fun _ none => ?_, fun _ none => ?_, fun _ none => ?_⟩,
    fun _ _ _ none => ?_, fun _ none => ?_, fun _ none => ?_, fun _ _ none => ?_⟩
  all_goals cases none

theorem AuthWorld.Backed.reach {c : AuthCrew} (reach : Crew.Reach setup.system Crew.Anyhow AuthCrew.fresh c) :
    c.state.Backed setup.controlPlane :=
  AuthCrew.keeps reach (AuthWorld.Backed setup.controlPlane) .fresh
    (fun _ _ _ _ _ _ _ backed executed _ behaves => backed.step behaves executed)

end Runs

namespace Carried

theorem digits : ∀ c ∈ "9f86d081884c7d659a2feaa0c55ad015a3bf4f1b2b0b822cd15d6c15b0f00a08".toList, c.isDigit ∨ ('a' ≤ c ∧ c ≤ 'f') :=
  hex_digits (by decide +kernel)

/-- The digest of the token `test`. -/
def digest : Digest := ⟨fun _ => "9f86d081884c7d659a2feaa0c55ad015a3bf4f1b2b0b822cd15d6c15b0f00a08", fun _ => digits⟩

def setup : ServerSetup where
  controlPlane := { url := "http://control.local", token := "node", digest }
  routing := { json := ⟨fun _ _ => false, fun _ _ => none, fun _ _ => ""⟩ }

def workerID : String := "QmNnooDu7bfjPFoTZYxMNLWUQJyrVwtbZg5gBMjTezGAJN"

def relayID : String := "QmbLHAnMoJPWSCR5Zhtx6BHJX9KiKNN6tpvbUcqanj75Nb"

/-- The worker can be reached by the relay only. -/
def around : Surroundings where
  table := fun _ => AList.insert [workerID] { id := workerID, connected := true, service := [{ name := "llm", identityGroup := ["all"] }] }
    (AList.insert [relayID] { id := relayID, connected := true, role := ["relay"] } ∅)
  network := fun _ => { id := "QmYyQSo1c1Ym7orWxLYvCrM2EmxFTANf8wXmmE7DWjhx5N", connected := fun p => p == relayID, peers := [relayID] }

def request : Request where
  service := "llm"
  path := "/v1/models"
  header := (Header.empty.set "Authorization" "Bearer test").set "X-Otela-Fallback" "2"

/-- The evaluator allows the worker. -/
def chance : AuthChance where
  surroundings := around
  answer
    | .v1 => .unreachable
    | .v2 => .response statusOK "" (.ok
        { keyID := "key", primaryWallet := "", decisionScope := ⟨"permissionless", "", "service_ingress", "llm"⟩
          decisions := [⟨workerID, true, "owner", "", ""⟩], cacheTTLSeconds := 30 })

def run : AuthCrew :=
  AuthCrew.fresh.play setup.system (fun _ _ => true) (.enter (.globalService .permissionless request) :: List.replicate 7 (.act 0 chance))

theorem reached : Crew.Reach setup.system Crew.Anyhow AuthCrew.fresh run := .of_play _ (fun _ _ _ _ _ _ => trivial) _ .start

def call : Call := .forPeers "Bearer test" [workerID]

/-- What the evaluator says to a request `seconds` after the start. -/
def said (seconds : ℤ) (answer : Answer AclEvaluateResponse) : AuthChance where
  now := seconds * second
  answer
    | .v1 => answer
    | .v2 => .unreachable

/-- The worker is allowed, for 30 seconds. -/
def allowing : AuthChance := said 0 (.response statusOK "" (.ok
  { keyID := "key", allowedPeerIDs := [workerID], denied := [], primaryWallet := "", cacheTTLSeconds := 30 }))

/-- Then a call is allowed, and the next one comes when that has lapsed and the evaluator cannot be reached. -/
def stale : AuthCrew :=
  run.play setup.system (fun _ _ => true) (.enter call :: List.replicate 6 (.act 1 allowing) ++
    .enter call :: List.replicate 6 (.act 2 (said 50 .unreachable)))

theorem stale_reached : Crew.Reach setup.system Crew.Anyhow AuthCrew.fresh stale := .of_play _ (fun _ _ _ _ _ _ => trivial) _ reached

end Carried

end OpenTela
