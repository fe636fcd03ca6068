import OpenTela.Lib.Totals
import Mathlib.Algebra.Order.Ring.Rat
import Mathlib.Data.List.Sort
import Mathlib.Data.List.Perm.Subperm

namespace OpenTela.Analytics

/-- A bounded sample of observations. -/
structure Reservoir (F : Type) where
  max : ℕ
  samples : List F := []
  count : ℕ := 0

/-- A reservoir has room for one sample at least. -/
def capacity (max : ℤ) : ℕ := if max < 1 then 1 else max.toNat

def newReservoir {F : Type} (max : ℤ) : Reservoir F := { max := capacity max }

section Reservoir

variable {F : Type}

/-- Algorithm R. `draw` is what `Intn` of the count yields. -/
def Reservoir.add (r : Reservoir F) (draw : ℕ) (v : F) : Reservoir F :=
  let count := r.count + 1
  if r.samples.length < r.max then { r with count, samples := r.samples ++ [v] }
  else if draw % count < r.max then { r with count, samples := r.samples.set (draw % count) v }
  else { r with count }

/-- The nearest rank, counted from 0, of the `p`-th percentile of `n` values. For integral `p` the product
that the code rounds up in floating point rounds up to the same. -/
def nearestRank (p n : ℕ) : ℕ := min ((p * n + 99) / 100 - 1) (n - 1)

def percentile [LinearOrder F] [Zero F] (p : ℕ) (values : List F) : F :=
  (values.insertionSort (· ≤ ·)).getD (nearestRank p values.length) 0

def mean [Zero F] [Add F] [Div F] [NatCast F] (values : List F) : F :=
  if values = [] then 0 else values.foldl (· + ·) 0 / (values.length : F)

end Reservoir

/-- One observed request. Durations are in milliseconds. -/
structure Sample (F : Type) where
  service : String
  model : String
  workerPeerID : String
  providerID : String
  gpuModel : String
  gpuCount : ℤ
  status : ℤ
  latencyMs : F
  ttftMs : F
  inputTokens : Int64
  outputTokens : Int64
  cachedTokens : Int64
  totalTokens : Int64
  gpuMs : Int64
  concurrency : ℤ

/-- What is reported of one service, model and worker over a window. -/
structure Rollup (F : Type) where
  service : String
  model : String
  workerPeerID : String
  providerID : String
  gpuModel : String
  gpuCount : ℤ
  windowSeconds : ℤ
  requestCount : ℕ
  errorCount : ℕ
  inputTokensSum : Int64
  outputTokensSum : Int64
  cachedTokensSum : Int64
  totalTokensSum : Int64
  gpuMsSum : Int64
  concurrencyMax : ℤ
  concurrencyAvg : F
  latencyP50 : F
  latencyP95 : F
  latencyAvg : F
  ttftP50 : F
  ttftP95 : F

structure BucketKey where
  service : String
  model : String
  worker : String
  deriving DecidableEq

structure Bucket (F : Type) where
  providerID : String
  gpuModel : String
  gpuCount : ℤ
  requestCount : ℕ := 0
  errorCount : ℕ := 0
  inputTokensSum : Int64 := 0
  outputTokensSum : Int64 := 0
  cachedTokensSum : Int64 := 0
  totalTokensSum : Int64 := 0
  gpuMsSum : Int64 := 0
  concurrencyMax : ℤ := 0
  concurrencySum : ℤ := 0
  latency : Reservoir F
  ttft : Reservoir F

def Sample.key {F : Type} (s : Sample F) : BucketKey := ⟨s.service, s.model, s.workerPeerID⟩

section Code

variable {F : Type} [LinearOrder F] [Zero F]

/-- A new bucket has the provider and the GPU of its first sample. -/
def newBucket (maxSamples : ℤ) (s : Sample F) : Bucket F where
  providerID := s.providerID
  gpuModel := s.gpuModel
  gpuCount := s.gpuCount
  latency := newReservoir maxSamples
  ttft := newReservoir maxSamples

/-- The part of `aggregator.add` that a bucket has in it. -/
def Bucket.add (b : Bucket F) (draws : ℕ × ℕ) (s : Sample F) : Bucket F :=
  { b with
    requestCount := b.requestCount + 1
    errorCount := if 400 ≤ s.status then b.errorCount + 1 else b.errorCount
    inputTokensSum := b.inputTokensSum + s.inputTokens
    outputTokensSum := b.outputTokensSum + s.outputTokens
    cachedTokensSum := b.cachedTokensSum + s.cachedTokens
    totalTokensSum := b.totalTokensSum + s.totalTokens
    gpuMsSum := b.gpuMsSum + s.gpuMs
    concurrencySum := b.concurrencySum + s.concurrency
    concurrencyMax := if b.concurrencyMax < s.concurrency then s.concurrency else b.concurrencyMax
    latency := b.latency.add draws.1 s.latencyMs
    ttft := if 0 < s.ttftMs then b.ttft.add draws.2 s.ttftMs else b.ttft }

/-- `aggregator.add`. -/
def add (maxSamples : ℤ) (draws : ℕ × ℕ) (s : Sample F) (buckets : Store BucketKey (Bucket F)) :
    Store BucketKey (Bucket F) :=
  buckets.insert s.key (((buckets.lookup s.key).getD (newBucket maxSamples s)).add draws s)

variable [Add F] [Div F] [NatCast F] [IntCast F]

def Bucket.rollup (windowSeconds : ℤ) (k : BucketKey) (b : Bucket F) : Rollup F where
  service := k.service
  model := k.model
  workerPeerID := k.worker
  providerID := b.providerID
  gpuModel := b.gpuModel
  gpuCount := b.gpuCount
  windowSeconds := windowSeconds
  requestCount := b.requestCount
  errorCount := b.errorCount
  inputTokensSum := b.inputTokensSum
  outputTokensSum := b.outputTokensSum
  cachedTokensSum := b.cachedTokensSum
  totalTokensSum := b.totalTokensSum
  gpuMsSum := b.gpuMsSum
  concurrencyMax := b.concurrencyMax
  concurrencyAvg := if 0 < b.requestCount then (b.concurrencySum : F) / (b.requestCount : F) else 0
  latencyP50 := percentile 50 b.latency.samples
  latencyP95 := percentile 95 b.latency.samples
  latencyAvg := mean b.latency.samples
  ttftP50 := percentile 50 b.ttft.samples
  ttftP95 := percentile 95 b.ttft.samples

/-- `aggregator.flush`, with the keys in the order in which the map is walked. The buckets are cleared after it. -/
def flush (windowSeconds : ℤ) (keys : List BucketKey) (buckets : Store BucketKey (Bucket F)) : List (Rollup F) :=
  keys.filterMap (fun k => (buckets.lookup k).map (Bucket.rollup windowSeconds k))

end Code

/-- The value of an event's property. -/
inductive Property (F : Type) where
  | text (s : String)
  | int (n : ℤ)
  | float (x : F)

structure Event (F : Type) where
  distinctID : String
  event : String
  groupType : String
  group : String
  properties : List (String × Property F)

section Events

variable {F : Type} [Zero F] [Div F] [IntCast F]

def eventName : String := "node_perf_rollup"

def ratio (num den : Int64) : F := if den = 0 then 0 else (num.toInt : F) / (den.toInt : F)

def perSecond (count windowSeconds : ℤ) : F := if windowSeconds ≤ 0 then 0 else (count : F) / (windowSeconds : F)

def buildEvent (headID groupType : String) (r : Rollup F) : Event F where
  distinctID := headID
  event := eventName
  groupType := groupType
  group := r.model
  properties := [
    ("model", .text r.model),
    ("service", .text r.service),
    ("worker_peer_id", .text r.workerPeerID),
    ("provider_id", .text r.providerID),
    ("gpu_model", .text r.gpuModel),
    ("gpu_count", .int r.gpuCount),
    ("head_peer_id", .text headID),
    ("window_seconds", .int r.windowSeconds),
    ("request_count", .int r.requestCount),
    ("error_count", .int r.errorCount),
    ("requests_per_second", .float (perSecond r.requestCount r.windowSeconds)),
    ("concurrency_avg", .float r.concurrencyAvg),
    ("concurrency_max", .int r.concurrencyMax),
    ("input_tokens_sum", .int r.inputTokensSum.toInt),
    ("output_tokens_sum", .int r.outputTokensSum.toInt),
    ("cached_tokens_sum", .int r.cachedTokensSum.toInt),
    ("total_tokens_sum", .int r.totalTokensSum.toInt),
    ("gpu_ms_sum", .int r.gpuMsSum.toInt),
    ("io_ratio", .float (ratio r.outputTokensSum r.inputTokensSum)),
    ("cache_hit_ratio", .float (ratio r.cachedTokensSum r.inputTokensSum)),
    ("latency_ms_p50", .float r.latencyP50),
    ("latency_ms_p95", .float r.latencyP95),
    ("latency_ms_avg", .float r.latencyAvg),
    ("ttft_ms_p50", .float r.ttftP50),
    ("ttft_ms_p95", .float r.ttftP95)]

end Events

section Selection

variable {F : Type}

/-- The reservoir has taken in these values: it keeps as many as it may, and all of them in their order
as long as they fit. -/
structure Reservoir.Of (max : ℕ) (values : List F) (r : Reservoir F) : Prop where
  bound : r.max = max
  count : r.count = values.length
  length : r.samples.length = min max values.length
  selected : r.samples.Subperm values
  whole : values.length ≤ max → r.samples = values

theorem Reservoir.Of.new (max : ℤ) : (newReservoir max : Reservoir F).Of (capacity max) [] where
  bound := rfl
  count := rfl
  length := by simp [newReservoir]
  selected := .refl _
  whole := fun _ => rfl

theorem set_subperm {values samples : List F} (selected : samples.Subperm values) {j : ℕ} (inside : j < samples.length)
    (v : F) : (samples.set j v).Subperm (values ++ [v]) := by
  have moved : (samples.set j v).Perm (v :: samples.eraseIdx j) := by
    rw [List.set_eq_take_append_cons_drop, if_pos inside, List.eraseIdx_eq_take_drop_succ]
    exact List.perm_middle
  have kept : (samples.eraseIdx j).Subperm values := ((List.eraseIdx_sublist ..).subperm).trans selected
  exact moved.subperm.trans (((List.subperm_cons v).mpr kept).trans (List.perm_append_singleton v values).symm.subperm)

/-- Whatever is drawn, one more value is taken in. -/
theorem Reservoir.Of.add {max : ℕ} {values : List F} {r : Reservoir F} (kept : r.Of max values) (draw : ℕ) (v : F) :
    (r.add draw v).Of max (values ++ [v]) := by
  have length := kept.length
  have bound := kept.bound
  simp only [Reservoir.add]
  split
  · rename_i room
    have fits : values.length ≤ max := by omega
    have same := kept.whole fits
    refine ⟨bound, by simp [kept.count], by simp; omega, ?_, fun _ => by rw [same]⟩
    rw [same]
  · rename_i full
    have beyond : max ≤ values.length := by omega
    have more : ¬ (values ++ [v]).length ≤ max := by simp; omega
    split
    · rename_i hit
      refine ⟨bound, by simp [kept.count], by simp; omega, ?_, fun fits => absurd fits more⟩
      exact set_subperm kept.selected (by omega) v
    · refine ⟨bound, by simp [kept.count], by simp; omega, ?_, fun fits => absurd fits more⟩
      exact kept.selected.trans (List.sublist_append_left ..).subperm

end Selection

section Percentiles

variable {F : Type} [LinearOrder F] {values : List F} {p q : ℕ}

theorem nearestRank_lt {n : ℕ} (some : 0 < n) : nearestRank p n < n := by
  simp only [nearestRank]
  omega

theorem nearestRank_mono {n : ℕ} (less : p ≤ q) : nearestRank p n ≤ nearestRank q n := by
  have product : p * n ≤ q * n := Nat.mul_le_mul_right n less
  simp only [nearestRank]
  omega

theorem nearestRank_within (some : values ≠ []) : nearestRank p values.length < (values.insertionSort (· ≤ ·)).length := by
  rw [List.length_insertionSort]
  exact nearestRank_lt (List.length_pos_iff.mpr some)

variable [Zero F]

theorem percentile_eq (some : values ≠ []) :
    percentile p values = (values.insertionSort (· ≤ ·)).get ⟨nearestRank p values.length, nearestRank_within some⟩ := by
  rw [percentile, List.getD_eq_getElem?_getD, List.getElem?_eq_getElem (nearestRank_within some), Option.getD_some, List.get_eq_getElem]

/-- A percentile is one of the values. -/
theorem percentile_mem (some : values ≠ []) : percentile p values ∈ values := by
  rw [percentile_eq some]
  exact (List.mem_insertionSort (· ≤ ·)).mp (List.getElem_mem _)

theorem percentile_mono (less : p ≤ q) : percentile p values ≤ percentile q values := by
  by_cases none : values = []
  · subst none
    exact le_rfl
  · rw [percentile_eq none, percentile_eq none]
    exact List.sortedLE_insertionSort.getElem_le_getElem_of_le (nearestRank_mono less)

end Percentiles

section Buckets

variable {F : Type} [LinearOrder F] [Zero F]

def total (values : List Int64) : Int64 := values.foldl (· + ·) 0

/-- The figures of the bucket are those of these samples. -/
structure Bucket.Sums (max : ℕ) (group : List (Sample F)) (b : Bucket F) : Prop where
  requestCount : b.requestCount = group.length
  errorCount : b.errorCount = group.countP (400 ≤ ·.status)
  inputTokensSum : b.inputTokensSum = total (group.map Sample.inputTokens)
  outputTokensSum : b.outputTokensSum = total (group.map Sample.outputTokens)
  cachedTokensSum : b.cachedTokensSum = total (group.map Sample.cachedTokens)
  totalTokensSum : b.totalTokensSum = total (group.map Sample.totalTokens)
  gpuMsSum : b.gpuMsSum = total (group.map Sample.gpuMs)
  concurrencyMax : b.concurrencyMax = (group.map Sample.concurrency).foldl Max.max 0
  concurrencySum : b.concurrencySum = (group.map Sample.concurrency).sum
  latency : b.latency.Of max (group.map Sample.latencyMs)
  ttft : b.ttft.Of max ((group.map Sample.ttftMs).filter (0 < ·))

/-- The bucket has taken in these samples, of which there is at least one. -/
structure Bucket.Of (max : ℕ) (group : List (Sample F)) (b : Bucket F) : Prop extends b.Sums max group where
  first : group.head?.map (fun s => (s.providerID, s.gpuModel, s.gpuCount)) = some (b.providerID, b.gpuModel, b.gpuCount)

/-- Each bucket has taken in the samples of the window with its key. -/
def Window (max : ℕ) (buckets : Store BucketKey (Bucket F)) (window : List (Sample F)) : Prop :=
  ∀ k, match buckets.lookup k with
    | none => ∀ s ∈ window, s.key ≠ k
    | some b => b.Of max (window.filter (·.key = k))

variable {max : ℕ} {group : List (Sample F)} {b : Bucket F}

theorem total_concat (values : List Int64) (n : Int64) : total (values ++ [n]) = total values + n := by
  simp only [total, List.foldl_append, List.foldl_cons, List.foldl_nil]

theorem Bucket.Sums.add (taken : b.Sums max group) (draws : ℕ × ℕ) (s : Sample F) :
    (b.add draws s).Sums max (group ++ [s]) where
  requestCount := by simp [Bucket.add, taken.requestCount]
  errorCount := by
    simp only [Bucket.add, taken.errorCount, List.countP_append, List.countP_singleton]
    split <;> simp_all
  inputTokensSum := by simp only [Bucket.add, taken.inputTokensSum, List.map_append, List.map_singleton, total_concat]
  outputTokensSum := by simp only [Bucket.add, taken.outputTokensSum, List.map_append, List.map_singleton, total_concat]
  cachedTokensSum := by simp only [Bucket.add, taken.cachedTokensSum, List.map_append, List.map_singleton, total_concat]
  totalTokensSum := by simp only [Bucket.add, taken.totalTokensSum, List.map_append, List.map_singleton, total_concat]
  gpuMsSum := by simp only [Bucket.add, taken.gpuMsSum, List.map_append, List.map_singleton, total_concat]
  concurrencyMax := by
    simp only [Bucket.add, taken.concurrencyMax, List.map_append, List.map_singleton, List.foldl_append, List.foldl_cons,
      List.foldl_nil]
    split <;> omega
  concurrencySum := by
    simp only [Bucket.add, taken.concurrencySum, List.map_append, List.map_singleton, List.sum_append, List.sum_singleton]
  latency := by
    simp only [Bucket.add, List.map_append, List.map_singleton]
    exact taken.latency.add _ _
  ttft := by
    simp only [Bucket.add, List.map_append, List.map_singleton, List.filter_append]
    by_cases positive : 0 < s.ttftMs
    · rw [if_pos positive, List.filter_singleton, decide_eq_true positive]
      exact taken.ttft.add _ _
    · rw [if_neg positive, List.filter_singleton, decide_eq_false positive]
      simpa using taken.ttft

theorem Bucket.Sums.new (maxSamples : ℤ) (s : Sample F) :
    (newBucket maxSamples s).Sums (capacity maxSamples) [] where
  requestCount := rfl
  errorCount := rfl
  inputTokensSum := rfl
  outputTokensSum := rfl
  cachedTokensSum := rfl
  totalTokensSum := rfl
  gpuMsSum := rfl
  concurrencyMax := rfl
  concurrencySum := rfl
  latency := .new maxSamples
  ttft := .new maxSamples

theorem Bucket.Of.add (taken : b.Of max group) (draws : ℕ × ℕ) (s : Sample F) : (b.add draws s).Of max (group ++ [s]) where
  toSums := taken.toSums.add draws s
  first := by
    have first := taken.first
    cases group with
    | nil => cases first
    | cons head rest => exact first

/-- The first sample of a key makes the bucket. -/
theorem Bucket.Of.new (maxSamples : ℤ) (draws : ℕ × ℕ) (s : Sample F) :
    ((newBucket maxSamples s).add draws s).Of (capacity maxSamples) [s] where
  toSums := (Bucket.Sums.new maxSamples s).add draws s
  first := rfl

variable {maxSamples : ℤ} {buckets : Store BucketKey (Bucket F)} {window : List (Sample F)}

theorem Window.empty : Window max (∅ : Store BucketKey (Bucket F)) [] := by
  intro k
  rw [AList.lookup_empty]
  exact fun s none => absurd none List.not_mem_nil

/-- A sample goes to the bucket of its key, and to no other. -/
theorem Window.add (kept : Window (capacity maxSamples) buckets window) (draws : ℕ × ℕ) (s : Sample F) :
    Window (capacity maxSamples) (add maxSamples draws s buckets) (window ++ [s]) := by
  intro k
  have before := kept k
  by_cases here : s.key = k
  · subst here
    simp only [Analytics.add, AList.lookup_insert, List.filter_append, List.filter_singleton, decide_true, cond_true]
    cases found : buckets.lookup s.key with
    | none =>
      rw [found] at before
      have nothing : window.filter (·.key = s.key) = [] :=
        List.filter_eq_nil_iff.mpr (fun t member same => before t member (of_decide_eq_true same))
      rw [nothing]
      exact Bucket.Of.new maxSamples draws s
    | some b =>
      rw [found] at before
      exact before.add draws s
  · simp only [Analytics.add, AList.lookup_insert_ne (Ne.symm here)]
    cases found : buckets.lookup k with
    | none =>
      rw [found] at before
      intro t member
      rcases List.mem_append.mp member with old | new
      · exact before t old
      · rw [List.mem_singleton.mp new]
        exact here
    | some b =>
      rw [found] at before
      simpa only [List.filter_append, List.filter_singleton, decide_eq_false here, cond_false, List.append_nil] using before

end Buckets

section Reports

variable {F : Type} [LinearOrder F] [Zero F]

/-- What is reported of the distribution of some values: two of them, in order, and the very percentiles where the
reservoir has had room for all. -/
structure Percentiles (max : ℕ) (values : List F) (p50 p95 : F) : Prop where
  ordered : p50 ≤ p95
  inside : values ≠ [] → p50 ∈ values ∧ p95 ∈ values
  whole : values.length ≤ max → p50 = percentile 50 values ∧ p95 = percentile 95 values

theorem Reservoir.Of.percentiles {max : ℕ} {values : List F} {r : Reservoir F} (kept : r.Of max values) (room : 1 ≤ max) :
    Percentiles max values (percentile 50 r.samples) (percentile 95 r.samples) where
  ordered := percentile_mono (by decide)
  inside := by
    intro some
    have length := kept.length
    have positive := List.length_pos_iff.mpr some
    have sampled : r.samples ≠ [] := List.length_pos_iff.mp (by omega)
    exact ⟨kept.selected.subset (percentile_mem sampled), kept.selected.subset (percentile_mem sampled)⟩
  whole := fun fits => by rw [kept.whole fits]; exact ⟨rfl, rfl⟩

variable [Add F] [Div F] [NatCast F] [IntCast F]

/-- The rollup reports these samples. -/
structure Rollup.Reports (maxSamples windowSeconds : ℤ) (group : List (Sample F)) (r : Rollup F) : Prop where
  key : ∀ s ∈ group, s.key = ⟨r.service, r.model, r.workerPeerID⟩
  first : group.head?.map (fun s => (s.providerID, s.gpuModel, s.gpuCount)) = some (r.providerID, r.gpuModel, r.gpuCount)
  windowSeconds : r.windowSeconds = windowSeconds
  requestCount : r.requestCount = group.length
  errorCount : r.errorCount = group.countP (400 ≤ ·.status)
  inputTokensSum : r.inputTokensSum = total (group.map Sample.inputTokens)
  outputTokensSum : r.outputTokensSum = total (group.map Sample.outputTokens)
  cachedTokensSum : r.cachedTokensSum = total (group.map Sample.cachedTokens)
  totalTokensSum : r.totalTokensSum = total (group.map Sample.totalTokens)
  gpuMsSum : r.gpuMsSum = total (group.map Sample.gpuMs)
  concurrencyMax : r.concurrencyMax = (group.map Sample.concurrency).foldl max 0
  concurrencyAvg : r.concurrencyAvg = ((group.map Sample.concurrency).sum : F) / (group.length : F)
  latency : Percentiles (capacity maxSamples) (group.map Sample.latencyMs) r.latencyP50 r.latencyP95
  latencyAvg : group.length ≤ capacity maxSamples → r.latencyAvg = mean (group.map Sample.latencyMs)
  ttft : Percentiles (capacity maxSamples) ((group.map Sample.ttftMs).filter (0 < ·)) r.ttftP50 r.ttftP95

variable {maxSamples windowSeconds : ℤ} {buckets : Store BucketKey (Bucket F)} {window group : List (Sample F)}

theorem one_le_capacity : 1 ≤ capacity maxSamples := by
  simp only [capacity]
  split <;> omega

theorem Bucket.Of.reports {b : Bucket F} (taken : b.Of (capacity maxSamples) group) {k : BucketKey} (keyed : ∀ s ∈ group, s.key = k) :
    (b.rollup windowSeconds k).Reports maxSamples windowSeconds group where
  key := keyed
  first := taken.first
  windowSeconds := rfl
  requestCount := taken.requestCount
  errorCount := taken.errorCount
  inputTokensSum := taken.inputTokensSum
  outputTokensSum := taken.outputTokensSum
  cachedTokensSum := taken.cachedTokensSum
  totalTokensSum := taken.totalTokensSum
  gpuMsSum := taken.gpuMsSum
  concurrencyMax := taken.concurrencyMax
  concurrencyAvg := by
    have first := taken.first
    have positive : 0 < group.length := by
      cases group with
      | nil => cases first
      | cons head rest => exact Nat.succ_pos _
    simp only [Bucket.rollup, taken.requestCount, taken.concurrencySum, if_pos positive]
  latency := taken.latency.percentiles one_le_capacity
  latencyAvg := fun fits => by
    simp only [Bucket.rollup]
    rw [taken.latency.whole (by simpa using fits)]
  ttft := taken.ttft.percentiles one_le_capacity

variable (windowSeconds) in
/-- A flush reports each sample of the window in just one of its rollups. -/
theorem Window.flush (kept : Window (capacity maxSamples) buckets window) {keys : List BucketKey} (walked : keys.Perm buckets.keys) :
    ∃ pairs : List (List (Sample F) × Rollup F), pairs.map Prod.snd = flush windowSeconds keys buckets ∧
      (∀ p ∈ pairs, p.2.Reports maxSamples windowSeconds p.1) ∧ (pairs.flatMap Prod.fst).Perm window := by
  have nodup : keys.Nodup := walked.nodup_iff.mpr buckets.keys_nodup
  have present : ∀ k ∈ keys, ∃ b, buckets.lookup k = some b := fun k member =>
    Option.isSome_iff_exists.mp (AList.lookup_isSome.mpr (AList.mem_keys.mpr (walked.mem_iff.mp member)))
  have covered : ∀ s ∈ window, s.key ∈ keys := by
    intro s member
    have here := kept s.key
    cases found : buckets.lookup s.key with
    | none =>
      rw [found] at here
      exact absurd rfl (here s member)
    | some b => exact walked.mem_iff.mpr (AList.mem_keys.mp (AList.lookup_isSome.mp (by rw [found]; rfl)))
  refine ⟨keys.filterMap (fun k => (buckets.lookup k).map (fun b => (window.filter (·.key = k), b.rollup windowSeconds k))),
    ?_, ?_, ?_⟩
  · simp only [Analytics.flush, List.map_filterMap, Option.map_map]
    rfl
  · intro p member
    obtain ⟨k, _, made⟩ := List.mem_filterMap.mp member
    obtain ⟨b, found, rfl⟩ := Option.map_eq_some_iff.mp made
    have here := kept k
    rw [found] at here
    exact here.reports (fun s inside => of_decide_eq_true (List.mem_filter.mp inside).2)
  · refine List.Perm.trans (.of_eq ?_) (List.groups_perm Sample.key nodup covered)
    clear walked covered
    induction keys with
    | nil => rfl
    | cons k rest ih =>
      obtain ⟨b, found⟩ := present k (List.mem_cons_self ..)
      rw [List.filterMap_cons, found, Option.map_some, List.flatMap_cons, List.flatMap_cons,
        ih (List.nodup_cons.mp nodup).2 (fun k' member => present k' (List.mem_cons_of_mem _ member))]

end Reports

end OpenTela.Analytics
