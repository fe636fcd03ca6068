import OpenTela.Services.Withdrawal

namespace OpenTela

open Prog

section Alone

variable {setup : AdSetup} {i : ℕ} {chance : AdChance}

/-- A program on the table changes nothing else of the node. -/
theorem table_run {α : Type} (p : TableM α) (s : Advertiser) :
    (AdM.table p).run (Advertiser.exec setup i chance) s =
      (p.run (execTable setup.clock ()) s.table).map (fun out => (out.1, { s with table := out.2 })) := by
  induction p generalizing s with
  | ret a => rfl
  | fail e => rfl
  | op o next ih =>
    change ((Advertiser.exec setup i chance (.table o) s).bind
      (fun out => (AdM.table (next out.1)).run (Advertiser.exec setup i chance) out.2)) = _
    simp only [Advertiser.exec, Prog.run]
    cases execTable setup.clock () o s.table with
    | none => rfl
    | some out => exact ih out.1 { s with table := out.2 }

theorem publishSelf_run (me : Peer) (s : Advertiser) : ∃ t, (publishSelf setup me).run (Advertiser.exec setup i chance) s = some (.ok (), t) ∧
    t.localServices = s.localServices ∧ t.withdrawn = s.withdrawn ∧ t.published = s.published ++ [(me, s.withdrawn)] := by
  obtain ⟨u, ran, _⟩ := hookRecord_run setup.node setup.clock () (peerKey setup.node.myID) me.published s.table
  have hooked : (AdM.table (hookRecord setup.node (peerKey setup.node.myID) me.published)).run (Advertiser.exec setup i chance) s =
      some (.ok (), { s with table := u }) := by
    rw [table_run, ran]
    rfl
  refine ⟨({ s with table := u, published := s.published ++ [(me, s.withdrawn)] } : Advertiser).hold i [], ?_, rfl, rfl, rfl⟩
  exact run_bind hooked _

/-- The record published is that of the local services, and what is left of the row's. -/
theorem reannounce_run (s : Advertiser) : ∃ t me existing,
    (reannounceLocalServices setup).run (Advertiser.exec setup i chance) s = some (.ok (), t) ∧
    t.localServices = s.localServices ∧ t.withdrawn = s.withdrawn ∧ t.published = s.published ++ [(me, s.withdrawn)] ∧
    me.service = mergeAdvertisedServices s.localServices existing s.withdrawn := by
  let key := peerKey setup.node.myID
  let existing := (s.table.table.lookup key).elim [] Peer.service
  let merged := mergeAdvertisedServices s.localServices existing s.withdrawn
  let looked : Advertiser := { s with table := { s.table with history := s.table.history ++ [.read () key] } }
  let me : Peer := { s.myself with service := merged }
  obtain ⟨t, ran, locals, withdrawn, published⟩ := @publishSelf_run setup i chance me
    ({ looked.hold i merged with myself := me }.hold i merged)
  exact ⟨t, me, existing, ran, locals, withdrawn, published, rfl⟩

variable {state : ServiceHealthState}

/-- What a round does, as the check is observed. -/
theorem revalidate_run (s : Advertiser) :
    (revalidate setup state).run (Advertiser.exec setup i chance) s =
      match state.observe chance.healthy (serviceHealthFailureThreshold setup.healthFailures) with
      | (.noop, _) => some (.ok (), s)
      | (.withdraw, state') =>
        ((reannounceLocalServices setup).bind (fun _ => AdM.go (.revalidate state'))).run (Advertiser.exec setup i chance)
          { s with localServices := removeLocalService (serviceKey setup.service) s.localServices
                   withdrawn := insert (serviceKey setup.service) s.withdrawn }
      | (.restore, state') =>
        ((reannounceLocalServices setup).bind (fun _ => AdM.go (.revalidate state'))).run (Advertiser.exec setup i chance)
          { s with localServices := addLocalService setup.service s.localServices
                   withdrawn := s.withdrawn.erase (serviceKey setup.service) } := by
  have checked : (AdM.healthCheck 1).run (Advertiser.exec setup i chance) s = some (.ok chance.healthy, s) := rfl
  rw [revalidate]
  refine (run_bind checked _).trans ?_
  dsimp only
  generalize state.observe chance.healthy (serviceHealthFailureThreshold setup.healthFailures) = observed
  obtain ⟨action, state'⟩ := observed
  cases action <;> rfl

/-- The node after the rounds of some checks, one after the other. -/
def AdSetup.rounds (setup : AdSetup) : List (ℕ × AdChance) → ServiceHealthState → Advertiser → Option Advertiser
  | [], _, s => some s
  | (i, chance) :: rest, state, s =>
    match (revalidate setup state).run (Advertiser.exec setup i chance) s with
    | some (.ok (), t) =>
      rounds setup rest (state.observe chance.healthy (serviceHealthFailureThreshold setup.healthFailures)).2 t
    | _ => none

end Alone

/-- The service with the key in the last record published. -/
def Advertiser.advertised (s : Advertiser) (key : String) : Option Service :=
  s.published.getLast?.bind (fun p => p.1.service.find? (fun service => serviceKey service = key))

/-- The same service with the same set of identity groups. -/
structure SameService (a b : Service) : Prop where
  name : a.name = b.name
  host : a.host = b.host
  port : a.port = b.port
  groups : ∀ g, g ∈ a.identityGroup ↔ g ∈ b.identityGroup

section Rounds

variable {setup : AdSetup}

theorem removeLocalService_find (key : String) (services : List Service) :
    ∀ s ∈ removeLocalService key services, serviceKey s ≠ key := by
  intro s member
  simpa using (List.mem_filter.mp member).2

/-- Without the key among them, the service comes behind the others. -/
theorem addLocalService_new {svc : Service} {services : List Service} (new : ∀ s ∈ services, serviceKey s ≠ serviceKey svc) :
    addLocalService svc services = services ++ [svc] := by
  induction services with
  | nil => rfl
  | cons s rest ih =>
    rw [addLocalService, if_neg (new s (List.mem_cons_self ..)), ih (fun t member => new t (List.mem_cons_of_mem _ member))]
    rfl

theorem mergeAdvertisedServices_loop_prefix (withdrawn : Finset String) (existing : List Service) (seen : List String)
    (merged : List Service) : ∃ more, mergeAdvertisedServices.loop withdrawn existing seen merged = merged ++ more := by
  induction existing generalizing seen merged with
  | nil => exact ⟨[], (List.append_nil _).symm⟩
  | cons s rest ih =>
    unfold mergeAdvertisedServices.loop
    split
    · exact ih seen merged
    · split
      · exact ih seen merged
      · obtain ⟨more, eq⟩ := ih (serviceKey s :: seen) (merged ++ [s])
        exact ⟨s :: more, by rw [eq, List.append_assoc]; rfl⟩

/-- The local entry of a key comes before any other, unless it is withdrawn. -/
theorem mergeAdvertisedServices_find {locals existing : List Service} {withdrawn : Finset String} {key : String} {svc : Service}
    (found : locals.find? (fun s => serviceKey s = key) = some svc) (offered : key ∉ withdrawn) :
    (mergeAdvertisedServices locals existing withdrawn).find? (fun s => serviceKey s = key) = some svc := by
  obtain ⟨more, eq⟩ := mergeAdvertisedServices_loop_prefix withdrawn existing
    ((locals.filter (fun s => serviceKey s ∉ withdrawn)).map serviceKey) (locals.filter (fun s => serviceKey s ∉ withdrawn))
  have kept : (locals.filter (fun s => serviceKey s ∉ withdrawn)).find? (fun s => serviceKey s = key) = some svc := by
    rw [List.find?_filter, ← found]
    congr 1
    funext a
    by_cases here : serviceKey a = key
    · simp [here, offered]
    · simp [here]
  rw [mergeAdvertisedServices, eq, List.find?_append, kept]
  rfl

variable {checks later : List (ℕ × AdChance)} {state : ServiceHealthState}

/-- While the service is withdrawn, a failure changes nothing. -/
theorem rounds_withdrawn (failing : ∀ check ∈ checks, check.2.healthy = false) (withdrawn : state.withdrawn = true) (s : Advertiser) :
    ∃ state', state'.withdrawn = true ∧ setup.rounds (checks ++ later) state s = setup.rounds later state' s := by
  induction checks generalizing state with
  | nil => exact ⟨state, withdrawn, rfl⟩
  | cons check rest ih =>
    obtain ⟨i, chance⟩ := check
    have fails : chance.healthy = false := failing (i, chance) (List.mem_cons_self ..)
    have observed : state.observe chance.healthy (serviceHealthFailureThreshold setup.healthFailures) =
        (.noop, { state with failures := state.failures + 1 }) := by
      simp [ServiceHealthState.observe, fails, withdrawn]
    obtain ⟨state', still, same⟩ := @ih { state with failures := state.failures + 1 }
      (fun c member => failing c (List.mem_cons_of_mem _ member)) withdrawn
    refine ⟨state', still, ?_⟩
    rw [List.cons_append, AdSetup.rounds, revalidate_run, observed]
    exact same

/-- Enough failures in a row withdraw the service. -/
theorem rounds_withdraw (some : checks ≠ []) (failing : ∀ check ∈ checks, check.2.healthy = false) (offered : state.withdrawn = false)
    (enough : serviceHealthFailureThreshold setup.healthFailures ≤ state.failures + checks.length) (s : Advertiser) :
    ∃ state' t, state'.withdrawn = true ∧ t.localServices = removeLocalService (serviceKey setup.service) s.localServices ∧
      setup.rounds (checks ++ later) state s = setup.rounds later state' t := by
  induction checks generalizing state with
  | nil => exact absurd rfl some
  | cons check rest ih =>
    obtain ⟨i, chance⟩ := check
    have fails : chance.healthy = false := failing (i, chance) (List.mem_cons_self ..)
    have failing' : ∀ check ∈ rest, check.2.healthy = false := fun c member => failing c (List.mem_cons_of_mem _ member)
    rw [List.length_cons] at enough
    by_cases below : state.failures + 1 < serviceHealthFailureThreshold setup.healthFailures
    · have observed : state.observe chance.healthy (serviceHealthFailureThreshold setup.healthFailures) =
          (.noop, { state with failures := state.failures + 1 }) := by
        simp [ServiceHealthState.observe, fails, below]
      have more : rest ≠ [] := by
        rintro rfl
        simp only [List.length_nil] at enough
        omega
      obtain ⟨state', t, withdrawn, removed, same⟩ := @ih { state with failures := state.failures + 1 } more failing' offered
        (by push_cast at enough ⊢; omega)
      refine ⟨state', t, withdrawn, removed, ?_⟩
      rw [List.cons_append, AdSetup.rounds, revalidate_run, observed]
      exact same
    · have observed : state.observe chance.healthy (serviceHealthFailureThreshold setup.healthFailures) =
          (.withdraw, { failures := state.failures + 1, withdrawn := true }) := by
        simp [ServiceHealthState.observe, fails, offered, below]
      obtain ⟨t, me, existing, ran, removed, _⟩ := @reannounce_run setup i chance
        { s with localServices := removeLocalService (serviceKey setup.service) s.localServices
                 withdrawn := insert (serviceKey setup.service) s.withdrawn }
      obtain ⟨state', withdrawn, same⟩ := @rounds_withdrawn setup rest later { failures := state.failures + 1, withdrawn := true }
        failing' rfl t
      refine ⟨state', t, withdrawn, removed, ?_⟩
      rw [List.cons_append, AdSetup.rounds, revalidate_run, observed]
      dsimp only
      rw [run_bind ran]
      exact same

/-- The next healthy check brings back the configured service, and no other of its key. -/
theorem rounds_restore (withdrawn : state.withdrawn = true) (i : ℕ) {chance : AdChance} (healthy : chance.healthy = true)
    {s : Advertiser} (removed : ∀ t ∈ s.localServices, serviceKey t ≠ serviceKey setup.service) :
    ∃ t, setup.rounds [(i, chance)] state s = some t ∧ t.advertised (serviceKey setup.service) = some setup.service := by
  have observed : state.observe chance.healthy (serviceHealthFailureThreshold setup.healthFailures) =
      (.restore, { failures := 0, withdrawn := false }) := by
    simp [ServiceHealthState.observe, healthy, withdrawn]
  obtain ⟨t, me, existing, ran, locals, unmarked, published, services⟩ := @reannounce_run setup i chance
    { s with localServices := addLocalService setup.service s.localServices
             withdrawn := s.withdrawn.erase (serviceKey setup.service) }
  refine ⟨t, ?_, ?_⟩
  · rw [AdSetup.rounds, revalidate_run, observed]
    dsimp only
    rw [run_bind ran]
    rfl
  · rw [Advertiser.advertised, published, List.getLast?_concat, Option.bind_some, services]
    refine mergeAdvertisedServices_find ?_ (Finset.notMem_erase _ _)
    rw [addLocalService_new removed, List.find?_append]
    have none : s.localServices.find? (fun t => serviceKey t = serviceKey setup.service) = .none := by
      rw [List.find?_eq_none]
      intro t member
      simpa using removed t member
    rw [none]
    simp

end Rounds

/-- Withdrawn after failed checks and restored after the next healthy one, a service is advertised as it
was exactly if it was registered as it is configured. -/
theorem withdraw_restore_iff (setup : AdSetup) (s : Advertiser) (state : ServiceHealthState) (checks : List (ℕ × AdChance)) (i : ℕ)
    (chance : AdChance) (before : Service)
    (registered : s.localServices.find? (fun service => serviceKey service = serviceKey setup.service) = some before)
    (offered : state.withdrawn = false) (some : checks ≠ []) (failing : ∀ check ∈ checks, check.2.healthy = false)
    (enough : serviceHealthFailureThreshold setup.healthFailures ≤ state.failures + checks.length)
    (healthy : chance.healthy = true) :
    ∃ t, setup.rounds (checks ++ [(i, chance)]) state s = .some t ∧
      ((∃ after, t.advertised (serviceKey before) = .some after ∧ SameService after before) ↔ SameService setup.service before) := by
  have key : serviceKey before = serviceKey setup.service := by simpa using List.find?_some registered
  obtain ⟨state', withdrawn, marked, removed, same⟩ := @rounds_withdraw setup checks [(i, chance)] state some failing offered enough s
  have gone : ∀ t ∈ withdrawn.localServices, serviceKey t ≠ serviceKey setup.service := by
    rw [removed]
    exact removeLocalService_find _ _
  obtain ⟨t, ran, advertised⟩ := rounds_restore marked i healthy gone
  refine ⟨t, same.trans ran, ?_⟩
  rw [key, advertised]
  constructor
  · rintro ⟨after, same, as⟩
    cases same
    exact as
  · exact fun as => ⟨_, rfl, as⟩

namespace Restored

/-- A service other than an LLM, and a node that has registered it from its configuration. -/
def voice : AdSetup := { Sick.setup with serviceName := "tts", identityGroup := ["voice=ada"] }

def holder : Advertiser := { localServices := [voice.service] }

/-- The LLM service of a node that serves the model `tiny`, as `registerLLMService` registers it. -/
def tiny : Service := { Sick.setup.service with identityGroup := ["model=tiny"] }

def checks : List (ℕ × AdChance) := [(1, { healthy := false }), (2, { healthy := false }), (3, { healthy := false })]

def recovery : ℕ × AdChance := (4, {})

end Restored

open Restored in
/-- The service of the configuration is advertised again as it was. -/
theorem withdraw_restore_voice : ∃ t, voice.rounds (checks ++ [recovery]) {} holder = some t ∧
    ∃ after, t.advertised "tts|localhost|8080" = some after ∧ SameService after voice.service := by
  obtain ⟨t, ran, restored⟩ := withdraw_restore_iff voice holder {} checks recovery.1 recovery.2 voice.service (by decide) rfl (by decide)
    (by decide) (by decide) rfl
  exact ⟨t, ran, restored.mpr ⟨rfl, rfl, rfl, fun _ => Iff.rfl⟩⟩

open Restored in
/-- The model groups of an LLM service do not come back. -/
theorem withdraw_restore_lost : ∃ t, Sick.setup.rounds (checks ++ [recovery]) {} { localServices := [tiny] } = some t ∧
    ¬ ∃ after, t.advertised (serviceKey tiny) = some after ∧ SameService after tiny := by
  have restored : (Sick.setup.rounds (checks ++ [recovery]) {} { localServices := [tiny] }).bind
      (fun t => t.advertised (serviceKey tiny)) = some Sick.setup.service := by decide +kernel
  obtain ⟨t, ran, advertised⟩ := Option.bind_eq_some_iff.mp restored
  refine ⟨t, ran, ?_⟩
  rintro ⟨after, found, same⟩
  rw [advertised] at found
  cases found
  exact absurd ((same.groups "model=tiny").mpr (by decide)) (by decide)

end OpenTela
