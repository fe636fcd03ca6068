import OpenTela.NodeTable.Peer
import OpenTela.Server.Http

namespace OpenTela.Metrics

structure LabelPair where
  name : String
  value : String
  deriving DecidableEq

structure Bucket where
  upperBound : Float
  cumulativeCount : UInt64

structure Histogram where
  sampleCount : UInt64 := 0
  sampleSum : Float := 0
  bucket : List Bucket := []

structure Quantile where
  quantile : Float
  value : Float

structure Summary where
  sampleCount : UInt64 := 0
  sampleSum : Float := 0
  quantile : List Quantile := []

inductive MetricType where
  | counter
  | gauge
  | summary
  | untyped
  | histogram
  | gaugeHistogram

/-- `dto.Metric`. A field that is not set has the value its getter returns. -/
structure Metric where
  label : List LabelPair := []
  gauge : Option Float := none
  counter : Option Float := none
  summary : Option Summary := none
  untyped : Option Float := none
  histogram : Option Histogram := none
  timestampMs : Option ℤ := none

structure MetricFamily where
  name : String
  help : String := ""
  type : MetricType
  metric : List Metric := []

def Metric.labelNames (m : Metric) : List String := m.label.map LabelPair.name

def Metric.labelValues (m : Metric) : List String := m.label.map LabelPair.value

def metricPrefix : String := "otela_node_"

def sanitizeMetricName (name : String) : String :=
  String.ofList (name.toList.map (fun r =>
    if ('a' ≤ r ∧ r ≤ 'z') ∨ ('A' ≤ r ∧ r ≤ 'Z') ∨ ('0' ≤ r ∧ r ≤ '9') ∨ r = '_' ∨ r = ':' then r else '_'))

/-- The labels of the peer come in the order in which the map is ranged over. -/
def relabel (families : List MetricFamily) (peerLabels : List (String × String)) : List MetricFamily :=
  if families.isEmpty then []
  else
    let extraLabels := peerLabels.map (fun l => LabelPair.mk l.1 l.2)
    families.map (fun mf =>
      { mf with
        name := metricPrefix ++ sanitizeMetricName mf.name
        metric := mf.metric.map (fun m => { m with label := m.label ++ extraLabels }) })

structure ServiceInfo where
  name : String
  model : String := ""

/-- The last group of the form `model=…` counts. -/
def extractServices.model : List String → String → String
  | [], found => found
  | ig :: rest, found =>
    match splitOnce '=' ig with
    | some ("model", value) => model rest value
    | _ => model rest found

def extractServices (services : List Service) : List ServiceInfo :=
  services.map (fun svc => { name := svc.name, model := extractServices.model svc.identityGroup "" })

/-- A map from names to values, as its entries. -/
def buildPeerLabels (peerID providerID : String) (services : List ServiceInfo) : List (String × String) :=
  [("peer_id", peerID), ("provider_id", providerID)] ++
    match services with
    | [] => []
    | first :: _ =>
      (if first.name ≠ "" then [("service", first.name)] else []) ++ (if first.model ≠ "" then [("model", first.model)] else [])

structure PeerInfo where
  id : String
  address : String
  labels : List (String × String)
  deriving DecidableEq

/-- A connected peer, with the field that only the scraper looks at. -/
structure ConnectedPeer where
  peer : Peer
  providerID : String := ""

def getScrapablePeers (myID : String) (table : Option (List ConnectedPeer)) : List PeerInfo :=
  (table.getD []).filterMap (fun row =>
    if row.peer.id = myID then none
    else if row.peer.service.isEmpty then none
    else
      some
        { id := row.peer.id
          address := "libp2p://" ++ row.peer.id
          labels := buildPeerLabels row.peer.id row.providerID (extractServices row.peer.service) })

/-- The names of the labels that a peer is given. -/
def peerLabelNames : List String := ["peer_id", "provider_id", "service", "model"]

theorem buildPeerLabels_sublist (peerID providerID : String) (services : List ServiceInfo) :
    ((buildPeerLabels peerID providerID services).map Prod.fst).Sublist peerLabelNames := by
  have service (name : String) : ((if name ≠ "" then [("service", name)] else []).map Prod.fst).Sublist ["service"] := by
    split <;> simp
  have model (name : String) : ((if name ≠ "" then [("model", name)] else []).map Prod.fst).Sublist ["model"] := by
    split <;> simp
  cases services with
  | nil =>
    show ["peer_id", "provider_id"].Sublist _
    decide
  | cons first rest =>
    rw [buildPeerLabels, List.map_append, List.map_append]
    exact (List.Sublist.refl ["peer_id", "provider_id"]).append ((service first.name).append (model first.model))

theorem getScrapablePeers_labels {myID : String} {table : Option (List ConnectedPeer)} {p : PeerInfo}
    (member : p ∈ getScrapablePeers myID table) : (p.labels.map Prod.fst).Sublist peerLabelNames := by
  obtain ⟨row, _, kept⟩ := List.mem_filterMap.mp member
  split at kept
  · cases kept
  · split at kept
    · cases kept
    · cases kept
      exact buildPeerLabels_sublist ..

theorem mem_relabel {families : List MetricFamily} {peerLabels : List (String × String)} {mf : MetricFamily} :
    mf ∈ relabel families peerLabels ↔
      ∃ scraped ∈ families, mf =
        { scraped with
          name := metricPrefix ++ sanitizeMetricName scraped.name
          metric := scraped.metric.map (fun m => { m with label := m.label ++ peerLabels.map (fun l => LabelPair.mk l.1 l.2) }) } := by
  cases families with
  | nil => simp [relabel]
  | cons first rest => simp only [relabel, List.isEmpty_cons, if_false, Bool.false_eq_true, List.mem_map, eq_comm]

/-- What is said of all metrics after relabelling, said before it. -/
theorem forall_relabel {families : List MetricFamily} {peerLabels : List (String × String)} {P : String → List String → Prop} :
    (∀ mf ∈ relabel families peerLabels, ∀ m ∈ mf.metric, P mf.name m.labelNames) ↔
      ∀ mf ∈ families, ∀ m ∈ mf.metric,
        P (metricPrefix ++ sanitizeMetricName mf.name) (m.labelNames ++ peerLabels.map Prod.fst) := by
  have names (m : Metric) :
      Metric.labelNames { m with label := m.label ++ peerLabels.map (fun l => LabelPair.mk l.1 l.2) } =
        m.labelNames ++ peerLabels.map Prod.fst := by
    simp [Metric.labelNames, Function.comp_def]
  constructor
  · intro all mf member m inside
    have shown := all _ (mem_relabel.mpr ⟨mf, member, rfl⟩) _ (List.mem_map_of_mem inside)
    rwa [names] at shown
  · intro all mf member m inside
    obtain ⟨scraped, there, rfl⟩ := mem_relabel.mp member
    obtain ⟨m, before, rfl⟩ := List.mem_map.mp inside
    rw [names]
    exact all scraped there m before

end OpenTela.Metrics
