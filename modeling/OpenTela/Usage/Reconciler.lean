import Mathlib.Data.Nat.Notation
import Mathlib.Tactic.SplitIfs

namespace OpenTela.Usage

structure UsageRecord where
  requestID : String
  service : String
  consumerPeer : String
  providerPeer : String
  metricName : String
  metricValue : Int64
  timestamp : Int64
  signature : String
  deriving DecidableEq

structure ResolvedUsage where
  headRecord : Option UsageRecord
  workerRecord : Option UsageRecord
  resolvedValue : Int64
  disputed : Bool
  resolvedAt : Int64

/-- `float64(n)`, rounded to the nearest. -/
def float64 (n : Int64) : Float := .ofModel (.ofInt64 n)

/-- `int64(f)`, cut off towards zero. -/
def int64 (f : Float) : Int64 := f.toModel.toInt64

def resolve (now : Int64) (head worker : UsageRecord) (disputeThresholdPct : Int64) : ResolvedUsage :=
  let diff := (float64 (head.metricValue - worker.metricValue)).abs
  let avg := float64 (head.metricValue + worker.metricValue) / float64 2
  let pctDiff := if float64 0 < avg then diff / avg * float64 100 else float64 0
  let disputed : Bool := float64 disputeThresholdPct < pctDiff
  { headRecord := head
    workerRecord := worker
    resolvedValue :=
      if disputed then int64 avg
      else if head.metricValue = worker.metricValue then head.metricValue
      else int64 avg
    disputed
    resolvedAt := now }

def reconcileRecords (now : Int64) (head worker : Option UsageRecord) (disputeThresholdPct : Int64) : Except String ResolvedUsage :=
  match head, worker with
  | none, _ => .error "head record cannot be nil"
  | some _, none => .error "worker record cannot be nil"
  | some head, some worker =>
    if head.metricValue < 0 then .error "head record has negative metric value"
    else if worker.metricValue < 0 then .error "worker record has negative metric value"
    else if head.requestID ≠ worker.requestID then .error "request IDs do not match"
    else if head.service ≠ worker.service then .error "service names do not match"
    else if head.metricName ≠ worker.metricName then .error "metric names do not match"
    else .ok (resolve now head worker disputeThresholdPct)

/-- A record as it comes out of the reconciliation. -/
def Returned (r : ResolvedUsage) : Prop :=
  ∃ now head worker disputeThresholdPct, reconcileRecords now head worker disputeThresholdPct = .ok r

theorem Returned.both {r : ResolvedUsage} (returned : Returned r) : ∃ head worker, r.headRecord = some head ∧ r.workerRecord = some worker := by
  obtain ⟨now, head, worker, pct, reconciled⟩ := returned
  unfold reconcileRecords at reconciled
  split at reconciled
  · cases reconciled
  · cases reconciled
  · rename_i head worker
    split_ifs at reconciled
    cases reconciled
    exact ⟨head, worker, rfl, rfl⟩

end OpenTela.Usage
