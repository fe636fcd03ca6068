import OpenTela.Lib.Batch
import OpenTela.Metrics.Collector

namespace OpenTela.Metrics

/-- What the text parser says of the labels of a metric that it lets through. -/
structure Admitted (v : ValidationScheme) (m : Metric) : Prop where
  valid : ∀ name ∈ m.labelNames, v.isValidLabelName name = true
  unnamed : "__name__" ∉ m.labelNames
  distinct : m.labelNames.Nodup

/-- What the text parser makes of a response. -/
abbrev Parsed (v : ValidationScheme) : Type :=
  { families : List MetricFamily // ∀ mf ∈ families, ∀ m ∈ mf.metric, Admitted v m }

def evictStale {V : Type} (cache : Store String V) (active : List String) : Store String V :=
  (cache.keys.filter (fun id => id ∉ active)).foldl (fun cache id => cache.erase id) cache

/-- The cache, the peers that the cycle under way has still to scrape, and how far a call of
`GetCachedMetrics` has come. -/
structure Scraper where
  cache : Store String (List MetricFamily) := ∅
  waiting : List PeerInfo := []
  visited : List String := []
  all : List MetricFamily := []

/-- The answer of a peer, and the labels that are attached to it, in the order in which `Relabel` meets them. -/
structure Scrape (v : ValidationScheme) where
  families : Parsed v
  labels : List (String × String)

def Scrape.relabelled {v : ValidationScheme} (s : Scrape v) : List MetricFamily := relabel s.families.1 s.labels

/-- The scrapes whose metrics are in the cache, and those that the call of `GetCachedMetrics` has come across. -/
structure Ledger (v : ValidationScheme) where
  cached : Store String (Scrape v) := ∅
  read : List (Scrape v) := []

/-- The runs of the scraper of a node, with the collections in between. The scrapes of a cycle end in any
order, and the cache is ranged over in any order, while it changes. -/
inductive Runs (v : ValidationScheme) (myID : String) : Scraper → Ledger v → Prop where
  | start : Runs v myID {} {}
  | scrapeAll {s : Scraper} {l : Ledger v} (table : Option (List ConnectedPeer)) (peers : List PeerInfo) : Runs v myID s l →
      s.waiting = [] → peers = getScrapablePeers myID table →
      Runs v myID { s with cache := evictStale s.cache (peers.map PeerInfo.id), waiting := peers }
        { l with cached := evictStale l.cached (peers.map PeerInfo.id) }
  | scrapeFailed {s : Scraper} {l : Ledger v} (before after : List PeerInfo) (p : PeerInfo) : Runs v myID s l →
      s.waiting = before ++ p :: after → Runs v myID { s with waiting := before ++ after } l
  | scrapePeer {s : Scraper} {l : Ledger v} (before after : List PeerInfo) (p : PeerInfo) (families : Parsed v)
      (labels : List (String × String)) : Runs v myID s l → s.waiting = before ++ p :: after → labels.Perm p.labels →
      Runs v myID { s with cache := s.cache.insert p.id (relabel families.1 labels), waiting := before ++ after }
        { l with cached := l.cached.insert p.id ⟨families, labels⟩ }
  | getCachedMetrics {s : Scraper} {l : Ledger v} : Runs v myID s l →
      Runs v myID { s with visited := [], all := [] } { l with read := [] }
  | visit {s : Scraper} {l : Ledger v} (id : String) (families : List MetricFamily) : Runs v myID s l → id ∉ s.visited →
      s.cache.lookup id = some families →
      Runs v myID { s with visited := id :: s.visited, all := s.all ++ families }
        { l with read := l.read ++ (l.cached.lookup id).toList }

/-- No metric of the answer has a label of its own that is reserved or named like one of those attached. -/
def Scrape.Clean {v : ValidationScheme} (s : Scrape v) : Prop :=
  ∀ mf ∈ s.families.1, ∀ m ∈ mf.metric, ∀ name ∈ m.labelNames, isReserved name = false ∧ name ∉ s.labels.map Prod.fst

/-- The labels attached are some of those a peer is given, each of them once. -/
def Scrape.Attached {v : ValidationScheme} (s : Scrape v) : Prop :=
  (s.labels.map Prod.fst).Nodup ∧ s.labels.map Prod.fst ⊆ peerLabelNames

/-- The labels of every metric are well formed, and the collection does not panic. -/
structure Safe (client : Client) (c : AggregatedCollector) (cached : List MetricFamily) : Prop where
  distinct : ∀ mf ∈ cached, ∀ m ∈ mf.metric, m.labelNames.Nodup
  unreserved : ∀ mf ∈ cached, ∀ m ∈ mf.metric, ∀ name ∈ m.labelNames, isReserved name = false
  matched : ∀ mf ∈ cached, ∀ m ∈ mf.metric, m.labelValues.length = m.labelNames.length
  collects : ∃ sent, collect client c cached = .ok sent

section Names

theorem isLegacyChar_kept {r : Char} (kept : ('a' ≤ r ∧ r ≤ 'z') ∨ ('A' ≤ r ∧ r ≤ 'Z') ∨ ('0' ≤ r ∧ r ≤ '9') ∨ r = '_' ∨ r = ':') :
    (isLegacyChar r || r == ':') = true := by
  show (((r.isUpper || r.isLower) || r.isDigit) || r == '_' || r == ':') = true
  simp only [Bool.or_eq_true, beq_iff_eq]
  rcases kept with ⟨low, high⟩ | ⟨low, high⟩ | ⟨low, high⟩ | underscore | colon
  · have lower : r.isLower = true := Bool.and_eq_true_iff.mpr ⟨decide_eq_true low, decide_eq_true high⟩
    exact .inl (.inl (.inl (.inr lower)))
  · have upper : r.isUpper = true := decide_eq_true ⟨low, high⟩
    exact .inl (.inl (.inl (.inl upper)))
  · have digit : r.isDigit = true := Bool.and_eq_true_iff.mpr ⟨decide_eq_true low, decide_eq_true high⟩
    exact .inl (.inl (.inr digit))
  · exact .inl (.inr underscore)
  · exact .inr colon

theorem isLegacyMetricName_prefixed (name : String) : isLegacyMetricName (metricPrefix ++ sanitizeMetricName name) = true := by
  have sanitized : ∀ c ∈ (sanitizeMetricName name).toList, (isLegacyChar c || c == ':') = true := by
    intro c member
    rw [sanitizeMetricName, String.toList_ofList] at member
    obtain ⟨r, _, rfl⟩ := List.mem_map.mp member
    split
    · rename_i kept
      exact isLegacyChar_kept kept
    · decide
  have text : (metricPrefix ++ sanitizeMetricName name).toList = 'o' :: ("tela_node_".toList ++ (sanitizeMetricName name).toList) := by
    rw [String.toList_append]
    rfl
  have start : "tela_node_".toList.all (fun c => isLegacyChar c || c == ':') = true := by decide
  rw [isLegacyMetricName, text]
  simp only [List.all_append, start, List.all_eq_true.mpr sanitized]
  decide

theorem peerLabelNames_nodup : peerLabelNames.Nodup := by decide

theorem checkLabelName_peer (v : ValidationScheme) {name : String} (member : name ∈ peerLabelNames) : checkLabelName v name = true := by
  have plain : ∀ name ∈ peerLabelNames, isLegacyLabelName name = true ∧ isReserved name = false := by decide
  obtain ⟨legacy, unreserved⟩ := plain name member
  rw [checkLabelName, v.legacy_label name legacy, unreserved]
  rfl

end Names

section Cache

theorem lookup_evictStale {V : Type} (cache : Store String V) (active : List String) (id : String) :
    (evictStale cache active).lookup id = if id ∈ active then cache.lookup id else none := by
  rw [evictStale, Store.lookup_foldl_erase]
  by_cases stays : id ∈ active
  · simp [stays]
  · by_cases here : id ∈ cache.keys
    · simp [stays, here]
    · have missing : cache.lookup id = none := AList.lookup_eq_none.mpr here
      simp [stays, missing]

/-- The cache holds what the scrapes of the ledger become by relabelling, and the labels are those of peers. -/
structure Kept {v : ValidationScheme} (s : Scraper) (l : Ledger v) : Prop where
  cache : ∀ id, s.cache.lookup id = (l.cached.lookup id).map Scrape.relabelled
  all : s.all = l.read.flatMap Scrape.relabelled
  waiting : ∀ p ∈ s.waiting, (p.labels.map Prod.fst).Sublist peerLabelNames
  cached : ∀ id scrape, l.cached.lookup id = some scrape → scrape.Attached
  read : ∀ scrape ∈ l.read, scrape.Attached

theorem Runs.kept {v : ValidationScheme} {myID : String} {s : Scraper} {l : Ledger v} (run : Runs v myID s l) : Kept s l := by
  induction run with
  | start => exact ⟨fun _ => rfl, rfl, by simp, by simp, by simp⟩
  | @scrapeAll s l table peers _ _ provided ih =>
    refine { ih with cache := fun id => ?_, waiting := fun p member => ?_, cached := fun id scrape found => ?_ }
    · simp only [lookup_evictStale]
      split
      · exact ih.cache id
      · rfl
    · rw [provided] at member
      exact getScrapablePeers_labels member
    · simp only [lookup_evictStale] at found
      split at found
      · exact ih.cached id scrape found
      · cases found
  | scrapeFailed before after p _ waiting ih =>
    refine { ih with waiting := fun q member => ih.waiting q ?_ }
    rw [waiting]
    exact List.mem_append.mpr ((List.mem_append.mp member).imp_right (List.mem_cons_of_mem p))
  | @scrapePeer s l before after p families labels _ waiting order ih =>
    have given := ih.waiting p (by rw [waiting]; exact List.mem_append_right before List.mem_cons_self)
    refine { ih with cache := fun id => ?_, waiting := fun q member => ih.waiting q ?_, cached := fun id scrape found => ?_ }
    · by_cases same : id = p.id
      · subst same
        simp [Scrape.relabelled]
      · simpa [same] using ih.cache id
    · rw [waiting]
      exact List.mem_append.mpr ((List.mem_append.mp member).imp_right (List.mem_cons_of_mem p))
    · by_cases same : id = p.id
      · subst same
        simp only [AList.lookup_insert, Option.some.injEq] at found
        subst found
        have order := order.map Prod.fst
        exact ⟨order.nodup_iff.mpr (given.nodup peerLabelNames_nodup), fun name member => given.subset (order.subset member)⟩
      · exact ih.cached id scrape (by simpa [same] using found)
  | getCachedMetrics _ ih => exact { ih with all := rfl, read := by simp }
  | @visit s l id families _ _ found ih =>
    rw [ih.cache] at found
    obtain ⟨scrape, there, same⟩ := Option.map_eq_some_iff.mp found
    refine { ih with all := ?_, read := fun scrape' member => ?_ }
    · simp [ih.all, there, same]
    · rw [there, Option.toList_some, List.mem_append, List.mem_singleton] at member
      rcases member with earlier | rfl
      · exact ih.read scrape' earlier
      · exact ih.cached id scrape' there

end Cache

section Safety

variable {v : ValidationScheme}

/-- The labels of one metric, when those of a peer are put behind its own. -/
theorem labels_sound {m : Metric} {attached : List String} (admitted : Admitted v m) (distinct : attached.Nodup)
    (known : attached ⊆ peerLabelNames) :
    ((∀ name ∈ m.labelNames ++ attached, checkLabelName v name = true) ∧ (m.labelNames ++ attached).Nodup) ↔
      ∀ name ∈ m.labelNames, isReserved name = false ∧ name ∉ attached := by
  have checked : ∀ name ∈ attached, checkLabelName v name = true := fun name member => checkLabelName_peer v (known member)
  have own : ∀ name ∈ m.labelNames, (checkLabelName v name = true ↔ isReserved name = false) := by
    intro name member
    simp [checkLabelName, admitted.valid name member]
  rw [List.nodup_append]
  constructor
  · rintro ⟨valid, _, _, apart⟩ name member
    exact ⟨(own name member).mp (valid name (List.mem_append_left attached member)), fun twice => apart name member name twice rfl⟩
  · intro clean
    refine ⟨fun name member => ?_, admitted.distinct, distinct, fun name member name' attached same => ?_⟩
    · rcases List.mem_append.mp member with here | there
      · exact (own name here).mpr (clean name here).1
      · exact checked name there
    · subst same
      exact (clean name member).2 attached

variable {client : Client} (documented : client.Documented v)

include documented

/-- The descriptors of the metrics that an answer becomes. -/
theorem Scrape.clean_iff {s : Scrape v} (attached : s.Attached) :
    (∀ mf ∈ s.relabelled, ∀ m ∈ mf.metric, client.Describes mf m) ↔ s.Clean := by
  let sound (name : String) (names : List String) : Prop :=
    v.isValidMetricName name = true ∧ (∀ name ∈ names, checkLabelName v name = true) ∧ names.Nodup
  have described : (∀ mf ∈ s.relabelled, ∀ m ∈ mf.metric, client.Describes mf m) ↔
      ∀ mf ∈ s.relabelled, ∀ m ∈ mf.metric, sound mf.name m.labelNames :=
    forall₄_congr (fun _ _ _ _ => documented.newDesc_valid ..)
  rw [described, Scrape.relabelled, forall_relabel (P := sound)]
  refine forall₄_congr (fun mf member m inside => ?_)
  rw [← labels_sound (s.families.2 mf member m inside) attached.1 attached.2]
  exact and_iff_right (v.legacy_metric _ (isLegacyMetricName_prefixed mf.name))

/-- What makes the collection succeed makes the labels well formed. -/
theorem safe_iff {c : AggregatedCollector} {cached : List MetricFamily} :
    Safe client c cached ↔ ∀ mf ∈ cached, ∀ m ∈ mf.metric, client.Describes mf m := by
  refine ⟨fun safe => (collect_ok documented).mp safe.collects,
    fun sound => ⟨?_, ?_, fun _ _ m _ => labelValues_length m, (collect_ok documented).mpr sound⟩⟩
  · intro mf member m inside
    exact ((documented.newDesc_valid ..).mp (sound mf member m inside)).2.2
  · intro mf member m inside name here
    have checked := ((documented.newDesc_valid ..).mp (sound mf member m inside)).2.1 name here
    rw [checkLabelName, Bool.and_eq_true, Bool.not_eq_true'] at checked
    exact checked.2

/-- A collection is safe exactly when all the answers it comes across are clean. -/
theorem collection_safe {myID : String} {s : Scraper} {l : Ledger v} (run : Runs v myID s l) (c : AggregatedCollector) :
    Safe client c s.all ↔ ∀ scrape ∈ l.read, scrape.Clean := by
  have kept := run.kept
  rw [safe_iff documented, kept.all]
  constructor
  · intro sound scrape member
    exact (Scrape.clean_iff documented (kept.read scrape member)).mp (fun mf inside => sound mf (List.mem_flatMap_of_mem member inside))
  · intro clean mf member
    obtain ⟨scrape, there, inside⟩ := List.mem_flatMap.mp member
    exact (Scrape.clean_iff documented (kept.read scrape there)).mpr (clean scrape there) mf inside

end Safety

namespace Exposition

inductive DescError where
  | metricName (name : String)
  | labelName (label metric : String)
  | duplicateLabels

structure Desc where
  variableLabels : List String
  err : Option DescError

inductive Panic where
  | desc (err : DescError)
  | inconsistentCardinality

def newDesc (v : ValidationScheme) (fqName _ : String) (variableLabels : List String) : Desc where
  variableLabels := variableLabels
  err :=
    if !v.isValidMetricName fqName then some (.metricName fqName)
    else
      match variableLabels.find? (fun name => !checkLabelName v name) with
      | some name => some (.labelName name fqName)
      | none => if variableLabels.Nodup then none else some .duplicateLabels

def must (desc : Desc) (labelValues : List String) : Except Panic Unit :=
  match desc.err with
  | some err => .error (.desc err)
  | none => if labelValues.length ≠ desc.variableLabels.length then .error .inconsistentCardinality else .ok ()

/-- A client library, of whose metrics nothing is kept. -/
def client (v : ValidationScheme) : Client where
  Desc := Desc
  Built := Unit
  Panic := Panic
  newDesc := newDesc v
  valid desc := desc.err.isNone
  variableLabels := Desc.variableLabels
  mustNewConstMetric desc _ _ labelValues := must desc labelValues
  mustNewConstHistogram desc _ _ _ labelValues := must desc labelValues
  mustNewConstSummary desc _ _ _ labelValues := must desc labelValues

theorem newDesc_valid (v : ValidationScheme) (fqName help : String) (names : List String) :
    (newDesc v fqName help names).err.isNone = true ↔
      v.isValidMetricName fqName = true ∧ (∀ name ∈ names, checkLabelName v name = true) ∧ names.Nodup := by
  have search : names.find? (fun name => !checkLabelName v name) = none ↔ ∀ name ∈ names, checkLabelName v name = true := by
    simp [List.find?_eq_none]
  cases metric : v.isValidMetricName fqName with
  | false => simp [newDesc, metric]
  | true =>
    cases found : names.find? (fun name => !checkLabelName v name) with
    | some name =>
      have bad : ¬ ∀ name ∈ names, checkLabelName v name = true := fun good => by
        rw [search.mpr good] at found
        cases found
      simp [newDesc, metric, found, bad]
    | none =>
      have good := search.mp found
      by_cases distinct : names.Nodup
      · simpa [newDesc, metric, found, distinct] using good
      · simp [newDesc, metric, found, distinct]

theorem must_ok (desc : Desc) (labelValues : List String) : (∃ built, must desc labelValues = .ok built) ↔
    desc.err.isNone = true ∧ labelValues.length = desc.variableLabels.length := by
  unfold must
  cases desc.err with
  | some err => simp
  | none => by_cases matched : labelValues.length = desc.variableLabels.length <;> simp [matched]

theorem client_documented (v : ValidationScheme) : (client v).Documented v where
  newDesc_valid := newDesc_valid v
  newDesc_labels _ _ _ := rfl
  metric desc _ _ := must_ok desc
  histogram desc _ _ _ := must_ok desc
  summary desc _ _ _ := must_ok desc

def worker : ConnectedPeer := { peer := { id := "worker", service := [{ name := "llm" }], connected := true }, providerID := "otela-1" }

def up (name : String) : MetricFamily :=
  { name := "up", type := .untyped, metric := [{ label := [⟨name, "x"⟩], untyped := some 1 }] }

/-- The response `up{name="x"} 1`. -/
def answer (v : ValidationScheme) (name : String) (valid : v.isValidLabelName name = true) (unnamed : name ≠ "__name__") : Parsed v :=
  ⟨[up name], by
    simp only [List.mem_singleton, forall_eq, up]
    exact ⟨by simpa [Metric.labelNames] using valid, by simpa [Metric.labelNames] using unnamed.symm, by simp [Metric.labelNames]⟩⟩

def labels : List (String × String) := [("peer_id", "worker"), ("provider_id", "otela-1"), ("service", "llm")]

/-- The worker is scraped once, and then its metrics are collected. -/
theorem runs (v : ValidationScheme) (families : Parsed v) :
    ∃ s l, Runs v "head" s l ∧ s.all = relabel families.1 labels ∧ l.read = [⟨families, labels⟩] := by
  have scraped := (Runs.start : Runs v "head" {} {}).scrapeAll (some [worker]) [⟨"worker", "libp2p://worker", labels⟩] rfl (by decide)
  have cached := scraped.scrapePeer [] [] _ families labels rfl (List.Perm.refl _)
  have read := cached.getCachedMetrics.visit "worker" _ List.not_mem_nil (AList.lookup_insert _)
  exact ⟨_, _, read, rfl, by simp⟩

end Exposition

/-- An exporter whose metric has a label for the method. -/
theorem collection_safe_method :
    ∃ s l, Runs utf8Validation "head" s l ∧ l.read ≠ [] ∧ Safe (Exposition.client utf8Validation) {} s.all := by
  obtain ⟨s, l, run, _, read⟩ := Exposition.runs utf8Validation (Exposition.answer utf8Validation "method" (by decide) (by decide))
  refine ⟨s, l, run, by simp [read], (collection_safe (Exposition.client_documented utf8Validation) run {}).mpr ?_⟩
  rw [read]
  simp only [List.mem_singleton, forall_eq, Scrape.Clean, Exposition.answer, Exposition.up, Metric.labelNames, List.map_cons, List.map_nil]
  decide

/-- An exporter whose metric has a label `peer_id`, and one whose metric has a label with a reserved name: the text
parser lets both through, and the collection panics. -/
theorem collection_panics :
    (∃ s l, Runs legacyValidation "head" s l ∧ collect (Exposition.client legacyValidation) {} s.all = .error (Exposition.Panic.desc .duplicateLabels)) ∧
      ∃ s l, Runs legacyValidation "head" s l ∧
        collect (Exposition.client legacyValidation) {} s.all = .error (Exposition.Panic.desc (.labelName "__x" "otela_node_up")) := by
  constructor
  · obtain ⟨s, l, run, all, _⟩ := Exposition.runs legacyValidation (Exposition.answer legacyValidation "peer_id" (by decide) (by decide))
    exact ⟨s, l, run, by rw [all]; rfl⟩
  · obtain ⟨s, l, run, all, _⟩ := Exposition.runs legacyValidation (Exposition.answer legacyValidation "__x" (by decide) (by decide))
    exact ⟨s, l, run, by rw [all]; rfl⟩

end OpenTela.Metrics
