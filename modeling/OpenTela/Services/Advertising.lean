import OpenTela.Lib.Crew
import OpenTela.NodeTable.Updates
import Mathlib.Data.Finset.Insert
import Mathlib.Data.Finset.Erase

namespace OpenTela

open Prog

/-- The identity of a service, also that of `addLocalService`. -/
def serviceKey (s : Service) : String := s.name ++ "|" ++ s.host ++ "|" ++ s.port

/-- `addLocalService`: a service that is known has its identity groups extended. -/
def addLocalService (svc : Service) : List Service → List Service
  | [] => [svc]
  | s :: rest =>
    if serviceKey s = serviceKey svc then
      { s with identityGroup := s.identityGroup ++ svc.identityGroup.filter (fun id => id ∉ s.identityGroup) } :: rest
    else s :: addLocalService svc rest

def removeLocalService (key : String) (services : List Service) : List Service :=
  services.filter (fun s => serviceKey s ≠ key)

/-- The second loop of `mergeAdvertisedServices`, over the services of the existing entry. -/
def mergeAdvertisedServices.loop (withdrawn : Finset String) : List Service → List String → List Service → List Service
  | [], _, merged => merged
  | s :: rest, seen, merged =>
    if serviceKey s ∈ withdrawn then loop withdrawn rest seen merged
    else if serviceKey s ∈ seen then loop withdrawn rest seen merged
    else loop withdrawn rest (serviceKey s :: seen) (merged ++ [s])

def mergeAdvertisedServices (locals existing : List Service) (withdrawn : Finset String) : List Service :=
  let merged := locals.filter (fun s => serviceKey s ∉ withdrawn)
  mergeAdvertisedServices.loop withdrawn existing (merged.map serviceKey) merged

inductive ServiceHealthAction where
  | noop
  | withdraw
  | restore

structure ServiceHealthState where
  failures : ℤ := 0
  withdrawn : Bool := false

def ServiceHealthState.observe (s : ServiceHealthState) (healthy : Bool) (threshold : ℤ) : ServiceHealthAction × ServiceHealthState :=
  if healthy then
    if s.withdrawn then (.restore, { failures := 0, withdrawn := false }) else (.noop, { s with failures := 0 })
  else
    let failures := s.failures + 1
    if s.withdrawn || decide (failures < threshold) then (.noop, { s with failures }) else (.withdraw, { failures, withdrawn := true })

/-- `serviceHealthFailureThreshold`. -/
def serviceHealthFailureThreshold (configured : ℤ) : ℤ := if 0 < configured then configured else 3

/-- What is done to `myself` under its lock before it is marshalled. -/
inductive SelfEdit where
  | provide
  | reannounce (merged : List Service)
  | bootstrap (id : String)
  | leave (now : ℤ)
  | initMyself (p : Peer)

def SelfEdit.apply (services : List Service) (myself : Peer) : SelfEdit → Peer
  | .provide => { myself with service := services }
  | .reannounce merged => { myself with service := merged }
  | .bootstrap id => { myself with id := if myself.id = "" then id else myself.id, connected := true }
  | .leave now => { myself with status := LEFT, connected := false, lastSeen := now }
  | .initMyself p => { p with service := [] }

/-- The paths on which the node publishes its own record, and what else touches the lists they
take it from: the start of the services, an ad-hoc registration, a new connection, a
re-announcement, `UpdateNodeTable`, `MarkSelfAsBootstrap`, `AnnounceLeave`, `InitializeMyself`,
one round of the health revalidation, and an update of a row. -/
inductive Publication where
  | startup
  | adHoc (name port : String) (identityGroup : List String)
  | connected
  | reannounce
  | update (peer : Peer)
  | bootstrap
  | leave
  | initMyself (p : Peer)
  | revalidate (state : ServiceHealthState)
  | refresh (job : Job)

/-- The steps on the lists, each under its lock. `advertised` takes the snapshot of the
withdrawn services, `takeOver` reads the own row for `UpdateNodeTable`. -/
inductive AdOp where
  | addLocalService (svc : Service)
  | removeLocalService (key : String)
  | snapshotLocalServices
  | hasLocalServices
  | setServiceWithdrawn (key : String) (withdrawn : Bool)
  | advertised (locals existing : List Service)
  | takeOver (peer : Peer)
  | self (edit : SelfEdit)
  | table (o : TableOp)
  | put (p : Peer)
  | healthCheck (maxTries : ℕ)
  | fetchModels
  | now
  | go (task : Publication)

def AdOp.Res : AdOp → Type
  | .snapshotLocalServices | .advertised .. => List Service
  | .takeOver _ | .self _ => Peer
  | .table o => o.Res
  | .hasLocalServices | .healthCheck _ => Bool
  | .fetchModels => List String
  | .now => ℤ
  | _ => Unit

abbrev AdM := Prog AdOp AdOp.Res String

/-- What a node advertises. Only noted are the services of the record each thread has made and
not yet published, and the records published, with the withdrawn keys of the moment. -/
structure Advertiser where
  localServices : List Service := []
  withdrawn : Finset String := ∅
  myself : Peer := {}
  table : TableWorld Unit := .empty
  pending : ℕ → List Service := fun _ => []
  published : List (Peer × Finset String) := []

structure AdSetup where
  node : Node
  clock : ℕ → ℤ
  serviceName : String
  servicePort : String
  identityGroup : List String
  healthFailures : ℤ
  publicAddr : String
  role : String

/-- The health of the backing engine, the models it serves, and the time. -/
structure AdChance where
  healthy : Bool := true
  models : List String := []
  now : ℤ := 0

/-- `UpdateNodeTable` merges the services of the existing entry, and keeps its owner. -/
def takeOver (peer : Peer) : Option Peer → Peer
  | none => peer
  | some existing =>
    { peer with
      service := peer.service ++ existing.service
      owner := if peer.owner = "" ∧ existing.owner ≠ "" then existing.owner else peer.owner }

def Advertiser.hold (s : Advertiser) (i : ℕ) (services : List Service) : Advertiser :=
  { s with pending := Function.update s.pending i services }

def Advertiser.exec (setup : AdSetup) (i : ℕ) (chance : AdChance) : (o : AdOp) → Advertiser → Option (o.Res × Advertiser)
  | .addLocalService svc, s => some ((), { s with localServices := OpenTela.addLocalService svc s.localServices })
  | .removeLocalService key, s => some ((), { s with localServices := OpenTela.removeLocalService key s.localServices })
  | .snapshotLocalServices, s => some (s.localServices, s)
  | .hasLocalServices, s => some (!s.localServices.isEmpty, s)
  | .setServiceWithdrawn key withdrawn, s =>
    some ((), { s with withdrawn := if withdrawn then insert key s.withdrawn else s.withdrawn.erase key })
  | .advertised locals existing, s =>
    let merged := mergeAdvertisedServices locals existing s.withdrawn
    some (merged, s.hold i merged)
  | .takeOver peer, s =>
    let peer := OpenTela.takeOver peer (s.table.table.lookup (peerKey setup.node.myID))
    some (peer, s.hold i peer.service)
  | .self edit, s =>
    let myself := edit.apply s.localServices s.myself
    some (myself, { s with myself }.hold i myself.service)
  | .table o, s => (execTable setup.clock () o s.table).map (fun out => (out.1, { s with table := out.2 }))
  | .put p, s => some ((), { s with published := s.published ++ [(p, s.withdrawn)] }.hold i [])
  | .healthCheck _, s => some (chance.healthy, s)
  | .fetchModels, s => some (chance.models, s)
  | .now, s => some (chance.now, s)
  | .go _, s => some ((), s)

namespace AdM

def addLocalService (svc : Service) : AdM Unit := Prog.perform (AdOp.addLocalService svc)
def removeLocalService (key : String) : AdM Unit := Prog.perform (AdOp.removeLocalService key)
def snapshotLocalServices : AdM (List Service) := Prog.perform AdOp.snapshotLocalServices
def hasLocalServices : AdM Bool := Prog.perform AdOp.hasLocalServices
def setServiceWithdrawn (key : String) (withdrawn : Bool) : AdM Unit := Prog.perform (AdOp.setServiceWithdrawn key withdrawn)
def advertised (locals existing : List Service) : AdM (List Service) := Prog.perform (AdOp.advertised locals existing)
def takeOver (peer : Peer) : AdM Peer := Prog.perform (AdOp.takeOver peer)
def self (edit : SelfEdit) : AdM Peer := Prog.perform (AdOp.self edit)
def table {α : Type} (p : TableM α) : AdM α := Prog.embed AdOp.table (fun _ r => r) p
def put (p : Peer) : AdM Unit := Prog.perform (AdOp.put p)
def healthCheck (maxTries : ℕ) : AdM Bool := Prog.perform (AdOp.healthCheck maxTries)
def fetchModels : AdM (List String) := Prog.perform AdOp.fetchModels
def now : AdM ℤ := Prog.perform AdOp.now
def go (task : Publication) : AdM Unit := Prog.perform (AdOp.go task)

end AdM

open AdM

section Programs

variable (setup : AdSetup)

/-- `UpdateNodeTableHook` and then `store.Put`, on the node's own key. -/
def publishSelf (me : Peer) : AdM Unit := do
  table (hookRecord setup.node (peerKey setup.node.myID) me.published)
  AdM.put me

def provideService (service : Service) : AdM Unit := do
  AdM.addLocalService service
  let me ← self .provide
  publishSelf setup me

/-- `RegisterAdHocService`. -/
def registerAdHocService (name port : String) (identityGroup : List String) : AdM Unit :=
  provideService setup { name, status := "connected", host := "localhost", port, identityGroup }

def registerLLMService (port : String) : AdM Unit := do
  let models ← fetchModels
  provideService setup
    { name := "llm", status := "connected", host := "localhost", port, identityGroup := models.map (fun id => "model=" ++ id) }

def registerLocalServices : AdM Unit :=
  if setup.serviceName = "" ∨ setup.servicePort = "" then return ()
  else do
    if ← healthCheck 6000 then
      if setup.serviceName = "llm" then registerLLMService setup setup.servicePort
      else registerAdHocService setup setup.serviceName setup.servicePort setup.identityGroup
    else return ()

def reannounceLocalServices : AdM Unit := do
  let existing ← table (TableM.get (peerKey setup.node.myID))
  let locals ← snapshotLocalServices
  let merged ← advertised locals (existing.elim [] Peer.service)
  let me ← self (.reannounce merged)
  publishSelf setup me

def updateNodeTable.track : List Service → AdM Unit
  | [] => return ()
  | svc :: rest => do
    AdM.addLocalService svc
    track rest

def updateNodeTable (peer : Peer) : AdM Unit := do
  let peer ← AdM.takeOver { peer with id := setup.node.myID }
  updateNodeTable.track peer.service
  AdM.put peer

def markSelfAsBootstrap : AdM Unit :=
  if setup.publicAddr ≠ "" ∨ setup.role = "relay" then do
    let me ← self (.bootstrap setup.node.myID)
    publishSelf setup me
  else return ()

def announceLeave : AdM Unit := do
  let t ← AdM.now
  let me ← self (.leave t)
  AdM.put me

def initializeMyself (p : Peer) : AdM Unit := do
  let me ← self (.initMyself p)
  AdM.put me

/-- The service that is revalidated, as a restore registers it. -/
def AdSetup.service : Service :=
  { name := setup.serviceName, status := "connected", host := "localhost", port := setup.servicePort,
    identityGroup := setup.identityGroup }

/-- One round of the loop of `StartServiceHealthRevalidation`. -/
def revalidate (state : ServiceHealthState) : AdM Unit := do
  let healthy ← healthCheck 1
  let (action, state) := state.observe healthy (serviceHealthFailureThreshold setup.healthFailures)
  match action with
  | .withdraw => do
    setServiceWithdrawn (serviceKey setup.service) true
    AdM.removeLocalService (serviceKey setup.service)
    reannounceLocalServices setup
    go (.revalidate state)
  | .restore => do
    setServiceWithdrawn (serviceKey setup.service) false
    AdM.addLocalService setup.service
    reannounceLocalServices setup
    go (.revalidate state)
  | .noop => go (.revalidate state)

def startServiceHealthRevalidation : AdM Unit :=
  if setup.serviceName = "" ∨ setup.servicePort = "" then return () else go (.revalidate {})

end Programs

def AdSetup.body (setup : AdSetup) : Publication → AdM Unit
  | .startup => do
    registerLocalServices setup
    startServiceHealthRevalidation setup
  | .adHoc name port identityGroup => registerAdHocService setup name port identityGroup
  | .connected => do
    if ← hasLocalServices then go .reannounce else return ()
  | .reannounce => reannounceLocalServices setup
  | .update peer => updateNodeTable setup peer
  | .bootstrap => markSelfAsBootstrap setup
  | .leave => announceLeave
  | .initMyself p => initializeMyself p
  | .revalidate state => revalidate setup state
  | .refresh job => table (job.program setup.node)

def AdOp.starts : AdOp → List Publication
  | .go task => [task]
  | _ => []

/-- Rounds of the revalidation come from the startup alone. -/
def Publication.entry : Publication → Bool
  | .revalidate _ => false
  | _ => true

def AdSetup.system (setup : AdSetup) : System AdOp AdOp.Res String Advertiser AdChance Publication where
  exec := Advertiser.exec setup
  starts := AdOp.starts
  body := setup.body
  entry := Publication.entry

abbrev AdCrew := Prog.Crew AdOp AdOp.Res String Advertiser Publication

/-- A new node. -/
def AdCrew.fresh : AdCrew := ⟨{}, []⟩

end OpenTela
