import OpenTela.Lib.Totals
import Mathlib.Tactic.Ring

namespace OpenTela.Usage

structure AggregatorKey where
  peerID : String
  service : String
  metricName : String
  deriving DecidableEq

structure AggregatorBucket where
  totalValue : Int64
  recordCount : Int64
  windowStart : Int64
  lastUpdate : Int64
  deriving DecidableEq

structure AggregatedUsage where
  peerID : String
  service : String
  metricName : String
  totalValue : Int64
  recordCount : Int64
  windowStart : Int64
  windowEnd : Int64
  deriving DecidableEq

def AggregatedUsage.key (agg : AggregatedUsage) : AggregatorKey := ⟨agg.peerID, agg.service, agg.metricName⟩

abbrev Aggregator := Store AggregatorKey AggregatorBucket

/-- The clock is read for the window, if one is opened, and again for the update. -/
def addRecord (buckets : Aggregator) (key : AggregatorKey) (value start update : Int64) : Aggregator :=
  let bucket := (buckets.lookup key).getD ⟨0, 0, start, 0⟩
  buckets.insert key
    { bucket with totalValue := bucket.totalValue + value, recordCount := bucket.recordCount + 1, lastUpdate := update }

def buildAggregate (buckets : Aggregator) (key : AggregatorKey) (now : Int64) : Option AggregatedUsage × Aggregator :=
  match buckets.lookup key with
  | none => (none, buckets)
  | some bucket =>
    (some ⟨key.peerID, key.service, key.metricName, bucket.totalValue, bucket.recordCount, bucket.windowStart, now⟩, buckets.erase key)

/-- The key under which `SaveAggregate` files an aggregate. -/
def aggregateName (agg : AggregatedUsage) : String :=
  "aggregate/" ++ agg.peerID ++ "/" ++ agg.service ++ "/" ++ agg.metricName ++ "/" ++ toString agg.windowStart.toInt

/-- The key under which `PublishAggregate` files it. `clean` is what the datastore does to paths. -/
def getAggregateKey (clean : String → String) (agg : AggregatedUsage) : String :=
  let childString (k s : String) := clean (k ++ "/" ++ s)
  childString (childString (childString (childString (clean "/usage") agg.peerID) agg.service) agg.metricName) (toString agg.windowStart.toInt)

inductive Op where
  | add (key : AggregatorKey) (value start update : Int64)
  | flush (key : AggregatorKey) (now : Int64)

/-- The open buckets, and what has been filed away. -/
structure Books where
  buckets : Aggregator
  stored : Store String AggregatedUsage

section Filing

variable (name : AggregatedUsage → String)

def Books.flush (b : Books) (key : AggregatorKey) (now : Int64) : Books :=
  match buildAggregate b.buckets key now with
  | (none, buckets) => { b with buckets }
  | (some agg, buckets) => ⟨buckets, b.stored.insert (name agg) agg⟩

def Books.apply (b : Books) : Op → Books
  | .add key value start update => { b with buckets := addRecord b.buckets key value start update }
  | .flush key now => b.flush name key now

def Books.run (b : Books) (ops : List Op) : Books := ops.foldl (Books.apply name) b

/-- What an operation adds under a key. -/
def Op.adds (key : AggregatorKey) : Op → ℤ
  | .add key' value _ _ => if key' = key then value.toInt else 0
  | .flush _ _ => 0

def added (key : AggregatorKey) (ops : List Op) : ℤ := (ops.map (Op.adds key)).sum

/-- What an aggregate counts for a key. -/
def counts (key : AggregatorKey) (agg : AggregatedUsage) : ℤ := if agg.key = key then agg.totalValue.toInt else 0

/-- What is in the open bucket of a key. -/
def Books.pending (b : Books) (key : AggregatorKey) : ℤ := (b.buckets.lookup key).elim 0 (fun bucket => bucket.totalValue.toInt)

/-- What is filed away under a key, and what is still open. -/
def Books.balance (b : Books) (key : AggregatorKey) : ℤ := Store.total (counts key) b.stored + b.pending key

/-- No bucket overflows. -/
def Books.Fits (b : Books) : Op → Prop
  | .add key value _ _ => -2 ^ 63 ≤ b.pending key + value.toInt ∧ b.pending key + value.toInt < 2 ^ 63
  | .flush _ _ => True

/-- A flush does not write over an aggregate that counts for something. -/
def Books.Vacant (b : Books) : Op → Prop
  | .add _ _ _ _ => True
  | .flush key now =>
    (((buildAggregate b.buckets key now).1.bind (fun agg => b.stored.lookup (name agg))).elim 0 (fun old => old.totalValue.toInt)) = 0

/-- Every operation of the run meets a condition where it is applied. -/
def Books.Throughout (holds : Books → Op → Prop) : Books → List Op → Prop
  | _, [] => True
  | b, op :: ops => holds b op ∧ Throughout holds (b.apply name op) ops

instance (b : Books) (op : Op) : Decidable (b.Fits op) :=
  match op with
  | .add _ _ _ _ => inferInstanceAs (Decidable (_ ∧ _))
  | .flush _ _ => .isTrue trivial

instance (b : Books) (op : Op) : Decidable (b.Vacant name op) :=
  match op with
  | .add _ _ _ _ => .isTrue trivial
  | .flush _ _ => inferInstanceAs (Decidable (_ = _))

instance (holds : Books → Op → Prop) [∀ b op, Decidable (holds b op)] : (ops : List Op) → (b : Books) → Decidable (b.Throughout name holds ops)
  | [], _ => .isTrue trivial
  | op :: ops, b =>
    have := instDecidableThroughout holds ops (b.apply name op)
    inferInstanceAs (Decidable (_ ∧ _))

end Filing

section Balance

variable {name : AggregatedUsage → String}

theorem toInt_add_of_fits {a b : Int64} (low : -2 ^ 63 ≤ a.toInt + b.toInt) (high : a.toInt + b.toInt < 2 ^ 63) :
    (a + b).toInt = a.toInt + b.toInt := by
  rw [Int64.toInt_add, Int.bmod_def]
  omega

theorem Books.balance_add (b : Books) {key' : AggregatorKey} {value start update : Int64} (fits : b.Fits (.add key' value start update))
    (key : AggregatorKey) :
    (b.apply name (.add key' value start update)).balance key = b.balance key + if key' = key then value.toInt else 0 := by
  obtain ⟨low, high⟩ := fits
  simp only [Books.apply, Books.balance, addRecord, Books.pending] at low high ⊢
  by_cases mine : key' = key
  · subst mine
    rw [AList.lookup_insert, if_pos rfl, add_assoc]
    congr 1
    cases found : b.buckets.lookup key' with
    | none =>
      rw [found] at low high
      exact toInt_add_of_fits low high
    | some bucket =>
      rw [found] at low high
      exact toInt_add_of_fits low high
  · rw [AList.lookup_insert_ne (Ne.symm mine), if_neg mine, add_zero]

/-- A flush takes from the balance what it writes over. -/
theorem Books.balance_flush (b : Books) (key' : AggregatorKey) (now : Int64) (key : AggregatorKey) :
    (b.flush name key' now).balance key =
      b.balance key - (buildAggregate b.buckets key' now).1.elim 0 (fun agg => Store.weight (counts key) b.stored (name agg)) := by
  unfold Books.flush buildAggregate
  cases found : b.buckets.lookup key' with
  | none => simp
  | some bucket =>
    simp only [Books.balance, Books.pending, Option.elim_some, Store.total_insert]
    by_cases mine : key' = key
    · subst mine
      have fresh : counts key' ⟨key'.peerID, key'.service, key'.metricName, bucket.totalValue, bucket.recordCount, bucket.windowStart, now⟩ =
          bucket.totalValue.toInt := if_pos rfl
      rw [AList.lookup_erase, found, fresh]
      simp only [Option.elim_none, Option.elim_some]
      ring
    · have other : counts key ⟨key'.peerID, key'.service, key'.metricName, bucket.totalValue, bucket.recordCount, bucket.windowStart, now⟩ =
          0 := if_neg mine
      rw [AList.lookup_erase_ne (Ne.symm mine), other]
      ring

/-- A flush keeps all balances exactly when it does not write over anything that counts. -/
theorem Books.flush_keeps_iff (b : Books) (key' : AggregatorKey) (now : Int64) :
    (∀ key, (b.flush name key' now).balance key = b.balance key) ↔ b.Vacant name (.flush key' now) := by
  simp only [Books.balance_flush, Books.Vacant]
  cases (buildAggregate b.buckets key' now).1 with
  | none => simp
  | some agg =>
    simp only [Option.elim_some, Option.bind_some, Store.weight]
    cases b.stored.lookup (name agg) with
    | none => simp
    | some old =>
      simp only [Option.elim_some, sub_eq_self, counts]
      constructor
      · intro kept
        simpa using kept old.key
      · intro vacant key
        simp [vacant]

theorem Books.balance_run {b : Books} {ops : List Op} (fits : b.Throughout name Books.Fits ops)
    (vacant : b.Throughout name (Books.Vacant name) ops) (key : AggregatorKey) :
    (b.run name ops).balance key = b.balance key + added key ops := by
  induction ops generalizing b with
  | nil => simp [Books.run, added]
  | cons op rest ih =>
    obtain ⟨fit, fits⟩ := fits
    obtain ⟨room, vacant⟩ := vacant
    have step : (b.apply name op).balance key = b.balance key + op.adds key := by
      cases op with
      | add key' value start update => exact b.balance_add fit key
      | flush key' now =>
        rw [Op.adds, add_zero]
        exact (b.flush_keeps_iff key' now).mpr room key
    have later := ih fits vacant
    rw [step, add_assoc] at later
    exact later.trans (by simp [added])

end Balance

def Books.start : Books := ⟨∅, ∅⟩

theorem start_balance_run {name : AggregatedUsage → String} {ops : List Op} (fits : Books.start.Throughout name Books.Fits ops)
    (vacant : Books.start.Throughout name (Books.Vacant name) ops) (key : AggregatorKey) :
    (Books.start.run name ops).balance key = added key ops :=
  (Books.balance_run fits vacant key).trans (zero_add _)

/-- In the local store and in the shared one alike: as long as no bucket overflows and no flush
writes over an aggregate that counts for something, all that is added under a key is filed away
under it or still open. -/
theorem usage_conserved (clean : String → String) (ops : List Op) :
    (Books.start.Throughout aggregateName Books.Fits ops → Books.start.Throughout aggregateName (Books.Vacant aggregateName) ops →
      ∀ key, (Books.start.run aggregateName ops).balance key = added key ops) ∧
    (Books.start.Throughout (getAggregateKey clean) Books.Fits ops →
      Books.start.Throughout (getAggregateKey clean) (Books.Vacant (getAggregateKey clean)) ops →
      ∀ key, (Books.start.run (getAggregateKey clean) ops).balance key = added key ops) :=
  ⟨start_balance_run, start_balance_run⟩

def tokens : AggregatorKey := ⟨"peer-1", "llm", "tokens"⟩

/-- Two windows, the second opened at the given time. -/
def windows (second : Int64) : List Op :=
  [.add tokens 5 100 100, .flush tokens 100, .add tokens 7 second second, .flush tokens second]

theorem usage_conserved_windows : (Books.start.run aggregateName (windows 101)).balance tokens = added tokens (windows 101) :=
  (usage_conserved id (windows 101)).1 (by decide +kernel) (by decide +kernel) tokens

/-- The second window opens within the second in which the first did, and takes its place. -/
theorem usage_lost :
    Books.start.Throughout aggregateName Books.Fits (windows 100) ∧
      (Books.start.run aggregateName (windows 100)).balance tokens ≠ added tokens (windows 100) :=
  ⟨by decide +kernel, by decide +kernel⟩

end OpenTela.Usage
