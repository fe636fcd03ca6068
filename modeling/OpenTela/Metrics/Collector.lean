import OpenTela.Metrics.Relabeler

namespace OpenTela.Metrics

/-- What the names of labels were made of before they could be any text. -/
def isLegacyChar (c : Char) : Bool := c.isAlphanum || c == '_'

def isLegacyLabelName (name : String) : Bool :=
  match name.toList with
  | [] => false
  | first :: rest => isLegacyChar first && !first.isDigit && rest.all isLegacyChar

def isLegacyMetricName (name : String) : Bool :=
  match name.toList with
  | [] => false
  | first :: rest => (isLegacyChar first || first == ':') && !first.isDigit && rest.all (fun c => isLegacyChar c || c == ':')

/-- A name validation scheme of the client library: it takes the legacy names at least. -/
structure ValidationScheme where
  isValidMetricName : String → Bool
  isValidLabelName : String → Bool
  legacy_metric : ∀ name, isLegacyMetricName name = true → isValidMetricName name = true
  legacy_label : ∀ name, isLegacyLabelName name = true → isValidLabelName name = true

def legacyValidation : ValidationScheme := ⟨isLegacyMetricName, isLegacyLabelName, fun _ => id, fun _ => id⟩

def utf8Validation : ValidationScheme where
  isValidMetricName name := name != ""
  isValidLabelName name := name != ""
  legacy_metric name valid := by
    rw [bne_iff_ne]
    rintro rfl
    cases valid
  legacy_label name valid := by
    rw [bne_iff_ne]
    rintro rfl
    cases valid

def isReserved (name : String) : Bool := "__".toList.isPrefixOf name.toList

def checkLabelName (v : ValidationScheme) (name : String) : Bool := v.isValidLabelName name && !isReserved name

inductive ValueType where
  | counter
  | gauge
  | untyped

/-- What the collector uses of the client library: `prometheus.NewDesc` without constant labels, with
the mark it leaves on a descriptor and the labels it puts in, and the constructors of constant metrics. -/
structure Client where
  Desc : Type
  Built : Type
  Panic : Type
  newDesc : String → String → List String → Desc
  valid : Desc → Bool
  variableLabels : Desc → List String
  mustNewConstMetric : Desc → ValueType → Float → List String → Except Panic Built
  mustNewConstHistogram : Desc → UInt64 → Float → List (Float × UInt64) → List String → Except Panic Built
  mustNewConstSummary : Desc → UInt64 → Float → List (Float × Float) → List String → Except Panic Built

/-- The descriptor is not marked invalid, and there is a value for each of its labels. -/
def Client.Accepts (client : Client) (desc : client.Desc) (values : List String) : Prop :=
  client.valid desc = true ∧ values.length = (client.variableLabels desc).length

/-- What the library says of them: a descriptor is invalid exactly for an invalid name or a label that
comes twice, and a constructor panics exactly on an invalid descriptor or another number of values. -/
structure Client.Documented (client : Client) (v : ValidationScheme) : Prop where
  newDesc_valid : ∀ fqName help names, client.valid (client.newDesc fqName help names) = true ↔
    v.isValidMetricName fqName = true ∧ (∀ name ∈ names, checkLabelName v name = true) ∧ names.Nodup
  newDesc_labels : ∀ fqName help names, client.variableLabels (client.newDesc fqName help names) = names
  metric : ∀ desc type value values,
    (∃ built, client.mustNewConstMetric desc type value values = .ok built) ↔ client.Accepts desc values
  histogram : ∀ desc count sum buckets values,
    (∃ built, client.mustNewConstHistogram desc count sum buckets values = .ok built) ↔ client.Accepts desc values
  summary : ∀ desc count sum quantiles values,
    (∃ built, client.mustNewConstSummary desc count sum quantiles values = .ok built) ↔ client.Accepts desc values

/-- What goes to the registry: a gauge of the collector itself, or a metric made from constants. -/
inductive Sent (Built : Type) where
  | own (name help : String) (value : Float)
  | const (built : Built)

/-- The map that assigning the values one after another makes. A key that is not equal to itself is a new one each time. -/
def assign {β : Type} (entries : List (Float × β)) : List (Float × β) :=
  entries.foldl (fun assigned e =>
    if assigned.any (fun a => a.1 == e.1) then assigned.map (fun a => if a.1 == e.1 then e else a) else assigned ++ [e]) []

structure AggregatedCollector where
  peersConnected : Float := 0
  peersTotal : Float := 0
  scraperTargets : Float := 0

section Code

variable (client : Client)

def metricFromDTO (mf : MetricFamily) (m : Metric) : Except client.Panic (Except String client.Built) := do
  let desc := client.newDesc mf.name mf.help m.labelNames
  match mf.type, m with
  | .counter, { counter := some value, .. } => return .ok (← client.mustNewConstMetric desc .counter value m.labelValues)
  | .gauge, { gauge := some value, .. } => return .ok (← client.mustNewConstMetric desc .gauge value m.labelValues)
  | .untyped, { untyped := some value, .. } => return .ok (← client.mustNewConstMetric desc .untyped value m.labelValues)
  | .histogram, { histogram := some h, .. } =>
    let buckets := assign (h.bucket.map (fun b => (b.upperBound, b.cumulativeCount)))
    return .ok (← client.mustNewConstHistogram desc h.sampleCount h.sampleSum buckets m.labelValues)
  | .summary, { summary := some s, .. } =>
    let quantiles := assign (s.quantile.map (fun q => (q.quantile, q.value)))
    return .ok (← client.mustNewConstSummary desc s.sampleCount s.sampleSum quantiles m.labelValues)
  | _, _ => return .ok (← client.mustNewConstMetric desc .untyped 0 m.labelValues)

/-- The inner loop of `Collect`. A metric that cannot be built is passed over. -/
def collect.metrics (mf : MetricFamily) : List Metric → Except client.Panic (List (Sent client.Built))
  | [] => return []
  | m :: rest => do
    match ← metricFromDTO client mf m with
    | .error _ => metrics mf rest
    | .ok pm => return .const pm :: (← metrics mf rest)

def collect.families : List MetricFamily → Except client.Panic (List (Sent client.Built))
  | [] => return []
  | mf :: rest => do
    let sent ← collect.metrics client mf mf.metric
    return sent ++ (← families rest)

def collect (c : AggregatedCollector) (cached : List MetricFamily) : Except client.Panic (List (Sent client.Built)) := do
  let sent ← collect.families client cached
  return [.own "otela_network_peers_connected" "Number of currently connected peers" c.peersConnected,
    .own "otela_network_peers_total" "Total known peers in the node table" c.peersTotal,
    .own "otela_scraper_targets" "Number of peers being scraped for metrics" c.scraperTargets] ++ sent

end Code

@[simp] theorem labelValues_length (m : Metric) : m.labelValues.length = m.labelNames.length := by
  simp [Metric.labelValues, Metric.labelNames]

/-- The descriptor of the metric is not marked invalid. -/
def Client.Describes (client : Client) (mf : MetricFamily) (m : Metric) : Prop :=
  client.valid (client.newDesc mf.name mf.help m.labelNames) = true

section Panics

variable {client : Client} {v : ValidationScheme} (documented : client.Documented v) {mf : MetricFamily} {m : Metric}

include documented

/-- Every branch ends in a constructor that is given the same descriptor and the same values. -/
theorem metricFromDTO_built (mf : MetricFamily) (m : Metric) :
    ∃ result : Except client.Panic client.Built, metricFromDTO client mf m = result.map .ok ∧
      ((∃ built, result = .ok built) ↔ client.Describes mf m) := by
  have accepts : client.Accepts (client.newDesc mf.name mf.help m.labelNames) m.labelValues ↔ client.Describes mf m := by
    refine and_iff_left ?_
    rw [documented.newDesc_labels, labelValues_length]
  unfold metricFromDTO
  split
  · exact ⟨_, rfl, (documented.metric ..).trans accepts⟩
  · exact ⟨_, rfl, (documented.metric ..).trans accepts⟩
  · exact ⟨_, rfl, (documented.metric ..).trans accepts⟩
  · exact ⟨_, rfl, (documented.histogram ..).trans accepts⟩
  · exact ⟨_, rfl, (documented.summary ..).trans accepts⟩
  · exact ⟨_, rfl, (documented.metric ..).trans accepts⟩

theorem metrics_ok {ms : List Metric} : (∃ sent, collect.metrics client mf ms = .ok sent) ↔ ∀ m ∈ ms, client.Describes mf m := by
  induction ms with
  | nil => exact ⟨fun _ _ none => (List.not_mem_nil none).elim, fun _ => ⟨[], rfl⟩⟩
  | cons m rest ih =>
    rw [List.forall_mem_cons, ← ih]
    obtain ⟨result, same, described⟩ := metricFromDTO_built documented mf m
    rw [← described]
    cases result with
    | error panic =>
      have stops : collect.metrics client mf (m :: rest) = .error panic := by
        rw [collect.metrics, same]
        rfl
      simp [stops]
    | ok built =>
      have goes : collect.metrics client mf (m :: rest) = (collect.metrics client mf rest).map (.const built :: ·) := by
        rw [collect.metrics, same]
        rfl
      rw [goes]
      cases collect.metrics client mf rest <;> simp [Except.map]

theorem families_ok {families : List MetricFamily} :
    (∃ sent, collect.families client families = .ok sent) ↔ ∀ mf ∈ families, ∀ m ∈ mf.metric, client.Describes mf m := by
  induction families with
  | nil => exact ⟨fun _ _ none => (List.not_mem_nil none).elim, fun _ => ⟨[], rfl⟩⟩
  | cons mf rest ih =>
    rw [List.forall_mem_cons, ← ih, ← metrics_ok documented]
    have both : collect.families client (mf :: rest) =
        (collect.metrics client mf mf.metric).bind (fun sent => (collect.families client rest).map (sent ++ ·)) := rfl
    rw [both]
    cases collect.metrics client mf mf.metric with
    | error panic => simp [Except.bind]
    | ok sent => cases collect.families client rest <;> simp [Except.bind, Except.map]

theorem collect_ok {c : AggregatedCollector} {cached : List MetricFamily} :
    (∃ sent, collect client c cached = .ok sent) ↔ ∀ mf ∈ cached, ∀ m ∈ mf.metric, client.Describes mf m := by
  rw [← families_ok documented]
  unfold collect
  cases collect.families client cached with
  | error panic => exact ⟨fun ⟨_, sent⟩ => (by cases sent), fun ⟨_, sent⟩ => (by cases sent)⟩
  | ok sent => exact ⟨fun _ => ⟨sent, rfl⟩, fun _ => ⟨_, rfl⟩⟩

end Panics

end OpenTela.Metrics
