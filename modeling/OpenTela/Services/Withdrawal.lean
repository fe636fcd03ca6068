import OpenTela.NodeTable.Departed
import OpenTela.Services.Advertising

namespace OpenTela

open Prog

/-- None of the services has a withdrawn key. -/
def Unwithdrawn (services : List Service) (withdrawn : Finset String) : Prop :=
  ∀ s ∈ services, serviceKey s ∉ withdrawn

instance (services : List Service) (withdrawn : Finset String) : Decidable (Unwithdrawn services withdrawn) :=
  inferInstanceAs (Decidable (∀ s ∈ services, serviceKey s ∉ withdrawn))

/-- The paths that do not look at the withdrawn services take over lists without them, and a
service is withdrawn only while no record that has it is on its way. -/
def Withholds (setup : AdSetup) (c : AdCrew) (_ : ℕ) (_ : Publication) : (o : AdOp) → o.Res → Prop
  | .self .provide, _ => Unwithdrawn c.state.localServices c.state.withdrawn
  | .self (.bootstrap _), _ | .self (.leave _), _ => Unwithdrawn c.state.myself.service c.state.withdrawn
  | .takeOver peer, _ =>
    Unwithdrawn (takeOver peer (c.state.table.table.lookup (peerKey setup.node.myID))).service c.state.withdrawn
  | .setServiceWithdrawn key true, _ => ∀ j, ∀ s ∈ c.state.pending j, serviceKey s ≠ key
  | _, _ => True

/-- What a thread has made ready. -/
def learnPending (services : List Service) : (o : AdOp) → o.Res → List Service
  | .advertised .., (merged : List Service) => merged
  | .takeOver _, (peer : Peer) => peer.service
  | .self _, (me : Peer) => me.service
  | .put _, _ => []
  | _, _ => services

/-- A thread publishes what it has made ready. -/
def publishesReady (services : List Service) (_ : Publication) : AdOp → Prop
  | .self (.reannounce merged) => merged = services
  | .put p => p.service = services
  | _ => True

section Merge

variable {withdrawn : Finset String}

theorem mergeAdvertisedServices_loop {existing merged : List Service} {seen : List String} (fine : Unwithdrawn merged withdrawn) :
    Unwithdrawn (mergeAdvertisedServices.loop withdrawn existing seen merged) withdrawn := by
  induction existing generalizing seen merged with
  | nil => exact fine
  | cons s rest ih =>
    unfold mergeAdvertisedServices.loop
    split
    · exact ih fine
    · rename_i offered
      split
      · exact ih fine
      · refine ih (fun s' member => ?_)
        rcases List.mem_append.mp member with old | new
        · exact fine s' old
        · rw [List.mem_singleton.mp new]
          exact offered

/-- The merge leaves the withdrawn services out. -/
theorem mergeAdvertisedServices_unwithdrawn (locals existing : List Service) :
    Unwithdrawn (mergeAdvertisedServices locals existing withdrawn) withdrawn :=
  mergeAdvertisedServices_loop (fun _ member => of_decide_eq_true (List.mem_filter.mp member).2)

end Merge

section Threads

variable {setup : AdSetup} {task : Publication}

/-- All that `p` does is in order, and it leaves what is ready to publish as `post` says. -/
abbrev Publishes {α : Type} (task : Publication) (post : List Service → Prop) (services : List Service) (p : AdM α) : Prop :=
  Always (fun _ _ => True) learnPending (fun k o _ _ => publishesReady k task o) (fun k _ => post k) services p

theorem Publishes.bind {α β : Type} {mid post : List Service → Prop} {services : List Service} {p : AdM α} {f : α → AdM β}
    (first : Publishes task mid services p) (errors : ∀ k, mid k → post k) (second : ∀ k a, mid k → Publishes task post k (f a)) :
    Publishes task post services (p.bind f) := by
  refine Always.bind (first.mono (fun _ _ _ _ _ fine => fine) ?_)
  rintro k (e | a) here
  · exact errors k here
  · exact second k a here

theorem table_ready {α : Type} (services : List Service) (p : TableM α) :
    Publishes task (fun k => k = services) services (AdM.table p) := by
  induction p with
  | ret a => exact rfl
  | fail e => exact rfl
  | op o next ih => exact fun r _ => ⟨trivial, ih r⟩

theorem publishSelf_ready (me : Peer) : Publishes task (fun _ => True) me.service (publishSelf setup me) :=
  (table_ready me.service _).bind (fun _ _ => trivial) (fun _ _ same => fun _ _ => ⟨same.symm, trivial⟩)

theorem provideService_ready (services : List Service) (service : Service) :
    Publishes task (fun _ => True) services (provideService setup service) :=
  fun _ _ => ⟨trivial, fun me _ => ⟨trivial, publishSelf_ready me⟩⟩

theorem reannounce_ready (services : List Service) : Publishes task (fun _ => True) services (reannounceLocalServices setup) := by
  refine (table_ready services _).bind (fun _ _ => trivial) (fun k existing _ => ?_)
  exact fun locals _ => ⟨trivial, fun merged _ => ⟨trivial, fun me _ => ⟨rfl, publishSelf_ready me⟩⟩⟩

theorem track_ready (services tracked : List Service) :
    Publishes task (fun k => k = services) services (updateNodeTable.track tracked) := by
  induction tracked with
  | nil => exact rfl
  | cons svc rest ih => exact fun _ _ => ⟨trivial, ih⟩

theorem revalidate_ready (services : List Service) (state : ServiceHealthState) :
    Publishes task (fun _ => True) services (revalidate setup state) := by
  have next : ∀ k state', Publishes task (fun _ => True) k (AdM.go (.revalidate state')) := fun k state' _ _ => ⟨trivial, trivial⟩
  have again : ∀ k state', Publishes task (fun _ => True) k (reannounceLocalServices setup >>= fun _ => AdM.go (.revalidate state')) :=
    fun k state' => (reannounce_ready k).bind (fun _ _ => trivial) (fun k' _ _ => next k' state')
  unfold revalidate
  intro healthy _
  refine ⟨trivial, ?_⟩
  dsimp only [Prog.bind]
  generalize state.observe healthy (serviceHealthFailureThreshold setup.healthFailures) = outcome
  obtain ⟨action, state'⟩ := outcome
  cases action with
  | noop => exact next services state'
  | withdraw => exact fun _ _ => ⟨trivial, fun _ _ => ⟨trivial, again services state'⟩⟩
  | restore => exact fun _ _ => ⟨trivial, fun _ _ => ⟨trivial, again services state'⟩⟩

theorem AdSetup.body_ready (setup : AdSetup) (task : Publication) : Publishes task (fun _ => True) [] (setup.body task) := by
  have adHoc : ∀ k name port identityGroup, Publishes task (fun _ => True) k (registerAdHocService setup name port identityGroup) :=
    fun k _ _ _ => provideService_ready k _
  cases task with
  | startup =>
    have register : Publishes .startup (fun _ => True) [] (registerLocalServices setup) := by
      unfold registerLocalServices
      split
      · trivial
      · rintro (_ | _) _
        · exact ⟨trivial, trivial⟩
        · refine ⟨trivial, ?_⟩
          change Publishes .startup _ [] (if setup.serviceName = "llm" then registerLLMService setup setup.servicePort
            else registerAdHocService setup setup.serviceName setup.servicePort setup.identityGroup)
          split
          · exact fun models _ => ⟨trivial, provideService_ready _ _⟩
          · exact adHoc _ _ _ _
    refine register.bind (fun _ _ => trivial) (fun k _ _ => ?_)
    unfold startServiceHealthRevalidation
    split
    · trivial
    · exact fun _ _ => ⟨trivial, trivial⟩
  | adHoc name port identityGroup => exact adHoc [] name port identityGroup
  | connected =>
    rintro (_ | _) _
    · exact ⟨trivial, trivial⟩
    · exact ⟨trivial, fun _ _ => ⟨trivial, trivial⟩⟩
  | reannounce => exact reannounce_ready []
  | update peer =>
    intro merged _
    refine ⟨trivial, (track_ready _ merged.service).bind (fun _ _ => trivial) (fun k _ same => ?_)⟩
    exact fun _ _ => ⟨same.symm, trivial⟩
  | bootstrap =>
    change Publishes .bootstrap _ [] (markSelfAsBootstrap setup)
    unfold markSelfAsBootstrap
    split
    · exact fun me _ => ⟨trivial, publishSelf_ready me⟩
    · trivial
  | leave => exact fun _ _ => ⟨trivial, fun me _ => ⟨trivial, fun _ _ => ⟨rfl, trivial⟩⟩⟩
  | initMyself p => exact fun me _ => ⟨trivial, fun _ _ => ⟨rfl, trivial⟩⟩
  | revalidate state => exact revalidate_ready [] state
  | refresh job => exact (table_ready [] _).mono (fun _ _ _ _ _ fine => fine) (fun _ _ _ => trivial)

end Threads

/-- What holds of a node that withholds what is withdrawn. -/
structure Advertiser.Withheld (s : Advertiser) : Prop where
  pending : ∀ j, Unwithdrawn (s.pending j) s.withdrawn
  published : ∀ p w, (p, w) ∈ s.published → Unwithdrawn p.service w

section Steps

variable {setup : AdSetup} {i : ℕ} {chance : AdChance} {s s' : Advertiser}

theorem pending_noted {o : AdOp} {r : o.Res} (executed : Advertiser.exec setup i chance o s = some (r, s')) :
    s'.pending i = learnPending (s.pending i) o r ∧ ∀ j, j ≠ i → s'.pending j = s.pending j := by
  cases o with
  | table o =>
    obtain ⟨⟨out, t⟩, _, same⟩ := Option.map_eq_some_iff.mp executed
    obtain ⟨rfl, rfl⟩ := Prod.mk.inj same
    exact ⟨rfl, fun _ _ => rfl⟩
  | advertised locals existing =>
    obtain ⟨rfl, rfl⟩ := Prod.mk.inj (Option.some.inj executed)
    exact ⟨Function.update_self .., fun j other => Function.update_of_ne other ..⟩
  | takeOver peer =>
    obtain ⟨rfl, rfl⟩ := Prod.mk.inj (Option.some.inj executed)
    exact ⟨Function.update_self .., fun j other => Function.update_of_ne other ..⟩
  | self edit =>
    obtain ⟨rfl, rfl⟩ := Prod.mk.inj (Option.some.inj executed)
    exact ⟨Function.update_self .., fun j other => Function.update_of_ne other ..⟩
  | put p =>
    obtain ⟨_, rfl⟩ := Prod.mk.inj (Option.some.inj executed)
    exact ⟨Function.update_self .., fun j other => Function.update_of_ne other ..⟩
  | _ =>
    obtain ⟨_, rfl⟩ := Prod.mk.inj (Option.some.inj executed)
    exact ⟨rfl, fun _ _ => rfl⟩

/-- A thread makes a record ready that has no withdrawn service. -/
theorem Advertiser.Withheld.hold (withheld : s.Withheld) {services : List Service} (fine : Unwithdrawn services s.withdrawn) :
    (s.hold i services).Withheld := by
  refine ⟨fun j => ?_, withheld.published⟩
  by_cases mine : j = i
  · subst mine
    simpa [Advertiser.hold] using fine
  · simpa [Advertiser.hold, Function.update_of_ne mine] using withheld.pending j

theorem Advertiser.Withheld.step {c : AdCrew} (withheld : c.state.Withheld) {task : Publication} {o : AdOp} {r : o.Res}
    (executed : Advertiser.exec setup i chance o c.state = some (r, s')) (withholds : Withholds setup c i task o r)
    (ready : publishesReady (c.state.pending i) task o) : s'.Withheld := by
  cases o with
  | table o =>
    obtain ⟨⟨out, t⟩, _, same⟩ := Option.map_eq_some_iff.mp executed
    obtain ⟨rfl, rfl⟩ := Prod.mk.inj same
    exact ⟨withheld.pending, withheld.published⟩
  | setServiceWithdrawn key withdrawn =>
    obtain ⟨_, rfl⟩ := Prod.mk.inj (Option.some.inj executed)
    refine ⟨fun j s member => ?_, withheld.published⟩
    cases withdrawn with
    | true =>
      intro found
      rcases Finset.mem_insert.mp found with same | before
      · exact withholds j s member same
      · exact withheld.pending j s member before
    | false => exact fun found => withheld.pending j s member (Finset.mem_of_mem_erase found)
  | advertised locals existing =>
    obtain ⟨_, rfl⟩ := Prod.mk.inj (Option.some.inj executed)
    exact withheld.hold (mergeAdvertisedServices_unwithdrawn locals existing)
  | takeOver peer =>
    obtain ⟨_, rfl⟩ := Prod.mk.inj (Option.some.inj executed)
    exact withheld.hold withholds
  | self edit =>
    obtain ⟨_, rfl⟩ := Prod.mk.inj (Option.some.inj executed)
    have fine : Unwithdrawn (edit.apply c.state.localServices c.state.myself).service c.state.withdrawn := by
      cases edit with
      | provide | bootstrap id | leave now => exact withholds
      | reannounce merged =>
        obtain rfl : merged = c.state.pending i := ready
        exact withheld.pending i
      | initMyself p => exact fun _ none => absurd none List.not_mem_nil
    have edited : Advertiser.Withheld { c.state with myself := edit.apply c.state.localServices c.state.myself } :=
      ⟨withheld.pending, withheld.published⟩
    exact edited.hold fine
  | put p =>
    obtain ⟨_, rfl⟩ := Prod.mk.inj (Option.some.inj executed)
    have noted : Advertiser.Withheld { c.state with published := c.state.published ++ [(p, c.state.withdrawn)] } := by
      refine ⟨withheld.pending, fun q w member => ?_⟩
      rcases List.mem_append.mp member with old | new
      · exact withheld.published q w old
      · obtain ⟨rfl, rfl⟩ := Prod.mk.inj (List.mem_singleton.mp new)
        have same : q.service = c.state.pending i := ready
        rw [same]
        exact withheld.pending i
    exact noted.hold (fun _ none => absurd none List.not_mem_nil)
  | _ =>
    obtain ⟨_, rfl⟩ := Prod.mk.inj (Option.some.inj executed)
    exact ⟨withheld.pending, withheld.published⟩

end Steps

/-- In every run in which the unfiltered paths take over no withdrawn service, and nothing is
withdrawn while a record with it is on its way, no record published has a service that is
withdrawn at that moment. -/
theorem withdrawn_unadvertised (setup : AdSetup) (c : AdCrew) (reach : Crew.Reach setup.system (Withholds setup) AdCrew.fresh c) :
    ∀ p withdrawn, (p, withdrawn) ∈ c.state.published → ∀ s ∈ p.service, serviceKey s ∉ withdrawn := by
  have begins : AdCrew.fresh.state.Withheld :=
    ⟨fun _ _ none => absurd none List.not_mem_nil, fun _ _ none => absurd none List.not_mem_nil⟩
  have follows : Crew.Follows (fun _ _ => True) learnPending publishesReady (fun s i => Advertiser.pending s i) [] AdCrew.fresh :=
    ⟨fun _ _ none => (nomatch none), fun _ _ => rfl⟩
  exact (reach.follows publishesReady (fun s i => s.pending i) [] (fun c => c.state.Withheld) begins follows
    (fun task _ => setup.body_ready task) (fun _ _ _ _ _ _ _ _ => trivial) (fun _ _ _ _ _ _ _ executed => pending_noted executed)
    (fun _ _ withheld => withheld)
    (fun _ _ _ _ _ _ _ _ withheld _ executed withholds ready => withheld.step executed withholds ready)).1.published

namespace Sick

def setup : AdSetup where
  node := Reconnected.node
  clock := fun _ => 1700000010
  serviceName := "llm"
  servicePort := "8080"
  identityGroup := []
  healthFailures := 0
  publicAddr := ""
  role := "worker"

abbrev Move := Crew.Move AdChance Publication

def healthy (i n : ℕ) : List Move := List.replicate n (.act i { models := ["tiny"] })

def failing (i : ℕ) : List Move := [.act i { healthy := false }, .act i {}]

/-- Steps on lists that are not taken over as they are. -/
def filtered (_ : Publication) : AdOp → Bool
  | .self (.reannounce _) | .self (.initMyself _) => true
  | .self _ | .takeOver _ | .setServiceWithdrawn _ true => false
  | _ => true

theorem filtered_withholds (c : AdCrew) (i : ℕ) (task : Publication) (o : AdOp) (r : o.Res) (allowed : filtered task o = true) :
    Withholds setup c i task o r := by
  cases o with
  | self edit =>
    cases edit with
    | reannounce _ | initMyself _ => trivial
    | _ => cases allowed
  | takeOver peer => cases allowed
  | setServiceWithdrawn key withdrawn =>
    cases withdrawn with
    | true => cases allowed
    | false => trivial
  | _ => trivial

/-- The service is found healthy. -/
def found : AdCrew := AdCrew.fresh.play setup.system filtered (.enter .startup :: healthy 0 3)

/-- It is registered and published, and fails its next three checks. -/
def sick : AdCrew :=
  (found.play setup.system (fun _ _ => true) (healthy 0 1)).play setup.system filtered
    (healthy 0 3 ++ failing 1 ++ failing 2 ++ [.act 3 { healthy := false }])

/-- It is withdrawn, and the node announces itself again. -/
def withdrawn : AdCrew :=
  (sick.play setup.system (fun _ _ => true) (healthy 3 1)).play setup.system filtered (healthy 3 8)

/-- Its engine's own registration comes in over HTTP. -/
def registered : List Move :=
  .enter (.update { connected := true, service := [{ name := "llm", host := "localhost", port := "8080" }] }) :: healthy 5 3

theorem withdrawn_reach : Crew.Reach setup.system (Withholds setup) AdCrew.fresh withdrawn := by
  have registers : Crew.Reach setup.system (Withholds setup) AdCrew.fresh (found.play setup.system (fun _ _ => true) (healthy 0 1)) := by
    refine Crew.Reach.of_turn 0 _ (fun task o next r present => ?_) (.of_play filtered filtered_withholds _ .start)
    have same : o = .self .provide := by
      cases present
      rfl
    subst same
    exact fun s _ none => absurd none (Finset.notMem_empty _)
  have withdraws : Crew.Reach setup.system (Withholds setup) AdCrew.fresh (sick.play setup.system (fun _ _ => true) (healthy 3 1)) := by
    refine Crew.Reach.of_turn 3 _ (fun task o next r present => ?_) (.of_play filtered filtered_withholds _ registers)
    have same : o = .setServiceWithdrawn "llm|localhost|8080" true := by
      cases present
      rfl
    subst same
    have idle : ∀ j, sick.state.pending j = [] := by
      intro j
      cases j with
      | zero => rfl
      | succ n => rfl
    exact fun j s member => absurd (idle j ▸ member) List.not_mem_nil
  exact .of_play filtered filtered_withholds _ withdraws

end Sick

open Sick in
/-- Withdrawn after three failures, the service is not in the record published then. -/
theorem withdrawn_unadvertised_sick : ∃ p, withdrawn.state.published.getLast? = some (p, {"llm|localhost|8080"}) ∧
    ∀ s ∈ p.service, serviceKey s ≠ "llm|localhost|8080" := by
  have last : (withdrawn.state.published.getLast?.map Prod.snd) = some {"llm|localhost|8080"} := by decide
  obtain ⟨⟨p, w⟩, here, rfl⟩ := Option.map_eq_some_iff.mp last
  refine ⟨p, here, fun s member same => ?_⟩
  have fine := withdrawn_unadvertised setup withdrawn withdrawn_reach p _ (List.mem_of_getLast? here) s member
  exact fine (Finset.mem_singleton.mpr same)

open Sick in
/-- `UpdateNodeTable` publishes the services it is given, withdrawn or not. -/
theorem withdrawn_advertised : ¬ ∀ setup c, Crew.Reach (AdSetup.system setup) Crew.Anyhow AdCrew.fresh c →
    ∀ p withdrawn, (p, withdrawn) ∈ c.state.published → ∀ s ∈ p.service, serviceKey s ∉ withdrawn := by
  intro always
  have reach : Crew.Reach setup.system Crew.Anyhow AdCrew.fresh (withdrawn.play setup.system (fun _ _ => true) Sick.registered) :=
    .of_play (fun _ _ => true) (fun _ _ _ _ _ _ => trivial) Sick.registered (withdrawn_reach.mono (fun _ _ _ _ _ _ => trivial))
  have fine : ∀ entry ∈ (withdrawn.play setup.system (fun _ _ => true) Sick.registered).state.published,
      Unwithdrawn entry.1.service entry.2 := fun entry member => always setup _ reach entry.1 entry.2 member
  exact absurd fine (by decide)

end OpenTela
