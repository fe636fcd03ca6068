import OpenTela.Usage.Reconciler
import Mathlib.Data.Rat.Floor
import Mathlib.Tactic.FieldSimp
import Mathlib.Tactic.Linarith
import Mathlib.Tactic.Ring

namespace OpenTela.Usage

/-- What the reconciliation asks of its floating point numbers. -/
structure Arithmetic (F : Type) where
  float64 : Int64 → F
  int64 : F → Int64
  abs : F → F
  div : F → F → F
  mul : F → F → F
  lt : F → F → Bool

section Reading

variable {F : Type} (A : Arithmetic F)

/-- `resolve` with the floating point numbers read in some other way. -/
def resolveIn (now : Int64) (head worker : UsageRecord) (disputeThresholdPct : Int64) : ResolvedUsage :=
  let diff := A.abs (A.float64 (head.metricValue - worker.metricValue))
  let avg := A.div (A.float64 (head.metricValue + worker.metricValue)) (A.float64 2)
  let pctDiff := if A.lt (A.float64 0) avg then A.mul (A.div diff avg) (A.float64 100) else A.float64 0
  let disputed := A.lt (A.float64 disputeThresholdPct) pctDiff
  { headRecord := head
    workerRecord := worker
    resolvedValue :=
      if disputed then A.int64 avg
      else if head.metricValue = worker.metricValue then head.metricValue
      else A.int64 avg
    disputed
    resolvedAt := now }

def reconcileRecordsIn (now : Int64) (head worker : Option UsageRecord) (disputeThresholdPct : Int64) : Except String ResolvedUsage :=
  match head, worker with
  | none, _ => .error "head record cannot be nil"
  | some _, none => .error "worker record cannot be nil"
  | some head, some worker =>
    if head.metricValue < 0 then .error "head record has negative metric value"
    else if worker.metricValue < 0 then .error "worker record has negative metric value"
    else if head.requestID ≠ worker.requestID then .error "request IDs do not match"
    else if head.service ≠ worker.service then .error "service names do not match"
    else if head.metricName ≠ worker.metricName then .error "metric names do not match"
    else .ok (resolveIn A now head worker disputeThresholdPct)

end Reading

def double : Arithmetic Float where
  float64 := float64
  int64 := int64
  abs := Float.abs
  div a b := a / b
  mul a b := a * b
  lt a b := a < b

/-- Without rounding. -/
def exact : Arithmetic ℚ where
  float64 n := n.toInt
  int64 q := .ofInt (if 0 ≤ q then ⌊q⌋ else ⌈q⌉)
  abs q := |q|
  div a b := a / b
  mul a b := a * b
  lt a b := a < b

theorem resolveIn_double (now : Int64) (head worker : UsageRecord) (disputeThresholdPct : Int64) :
    resolveIn double now head worker disputeThresholdPct = resolve now head worker disputeThresholdPct := by
  simp only [resolveIn, resolve, double, decide_eq_true_eq]

theorem reconcileRecordsIn_double : reconcileRecordsIn double = reconcileRecords := by
  funext now head worker disputeThresholdPct
  cases head with
  | none => rfl
  | some head =>
    cases worker with
    | none => rfl
    | some worker => simp only [reconcileRecordsIn, reconcileRecords, resolveIn_double]

/-- Two records that the reconciliation accepts. -/
structure Comparable (head worker : UsageRecord) : Prop where
  head_nonneg : 0 ≤ head.metricValue
  worker_nonneg : 0 ≤ worker.metricValue
  request : head.requestID = worker.requestID
  service : head.service = worker.service
  metric : head.metricName = worker.metricName

theorem Comparable.symm {head worker : UsageRecord} (comparable : Comparable head worker) : Comparable worker head where
  head_nonneg := comparable.worker_nonneg
  worker_nonneg := comparable.head_nonneg
  request := comparable.request.symm
  service := comparable.service.symm
  metric := comparable.metric.symm

theorem Comparable.reconciled {F : Type} {A : Arithmetic F} {head worker : UsageRecord} (comparable : Comparable head worker)
    (now disputeThresholdPct : Int64) :
    reconcileRecordsIn A now (some head) (some worker) disputeThresholdPct = .ok (resolveIn A now head worker disputeThresholdPct) := by
  have first : ¬ head.metricValue < 0 := Int64.not_lt.mpr comparable.head_nonneg
  have second : ¬ worker.metricValue < 0 := Int64.not_lt.mpr comparable.worker_nonneg
  simp only [reconcileRecordsIn, if_neg first, if_neg second, comparable.request, comparable.service, comparable.metric, ne_eq,
    not_true_eq_false, if_false]

theorem half_nonneg_iff (n : ℤ) : 0 ≤ (n : ℚ) / ((2 : ℕ) : ℚ) ↔ 0 ≤ n := by
  rw [le_div_iff₀ (by norm_num), zero_mul]
  exact_mod_cast Iff.rfl

/-- The average is cut off to a whole number, towards zero. -/
theorem exact_average (n : Int64) :
    (exact.int64 (exact.div (exact.float64 n) (exact.float64 2))).toInt = if 0 ≤ n.toInt then n.toInt / 2 else -(-n.toInt / 2) := by
  have lower := n.le_toInt
  have upper := n.toInt_lt
  change (Int64.ofInt (if 0 ≤ (n.toInt : ℚ) / ((2 : ℕ) : ℚ) then ⌊(n.toInt : ℚ) / ((2 : ℕ) : ℚ)⌋ else ⌈(n.toInt : ℚ) / ((2 : ℕ) : ℚ)⌉)).toInt = _
  rw [Rat.floor_intCast_div_natCast, Rat.ceil_intCast_div_natCast]
  simp only [half_nonneg_iff]
  split_ifs with nonneg
  · exact Int64.toInt_ofInt_of_le (by omega) (by omega)
  · exact Int64.toInt_ofInt_of_le (by omega) (by omega)

/-- Where the average is positive the percentage is that of the difference in half the sum; elsewhere it is 0. -/
theorem exact_percentage (difference sum threshold : Int64) :
    exact.lt (exact.float64 threshold)
        (if exact.lt (exact.float64 0) (exact.div (exact.float64 sum) (exact.float64 2)) then
          exact.mul (exact.div (exact.abs (exact.float64 difference)) (exact.div (exact.float64 sum) (exact.float64 2))) (exact.float64 100)
        else exact.float64 0) = true ↔
      if 0 < sum.toInt then threshold.toInt * sum.toInt < |difference.toInt| * 200 else threshold.toInt < 0 := by
  have positive : exact.lt (exact.float64 0) (exact.div (exact.float64 sum) (exact.float64 2)) = true ↔ 0 < sum.toInt := by
    change decide (((0 : ℤ) : ℚ) < (sum.toInt : ℚ) / ((2 : ℤ) : ℚ)) = true ↔ _
    rw [decide_eq_true_eq, lt_div_iff₀ (by norm_num)]
    norm_num
  by_cases more : 0 < sum.toInt
  · rw [if_pos (positive.mpr more), if_pos more]
    change decide ((threshold.toInt : ℚ) < |(difference.toInt : ℚ)| / ((sum.toInt : ℚ) / ((2 : ℤ) : ℚ)) * ((100 : ℤ) : ℚ)) = true ↔ _
    have positiveSum : (0 : ℚ) < sum.toInt := by exact_mod_cast more
    have percentage : |(difference.toInt : ℚ)| / ((sum.toInt : ℚ) / ((2 : ℤ) : ℚ)) * ((100 : ℤ) : ℚ) =
        |(difference.toInt : ℚ)| * 200 / sum.toInt := by
      push_cast
      field_simp
      ring
    rw [decide_eq_true_eq, percentage, lt_div_iff₀ positiveSum]
    exact_mod_cast Iff.rfl
  · rw [if_neg (fun some => more (positive.mp some)), if_neg more]
    change decide ((threshold.toInt : ℚ) < ((0 : ℤ) : ℚ)) = true ↔ _
    rw [decide_eq_true_eq]
    exact_mod_cast Iff.rfl

section Pair

variable {head worker : UsageRecord} {now disputeThresholdPct : Int64}

/-- The sum as the code has it, in 64 bits. -/
theorem Comparable.sum (comparable : Comparable head worker) :
    (head.metricValue + worker.metricValue).toInt =
      if head.metricValue.toInt + worker.metricValue.toInt < 2 ^ 63 then head.metricValue.toInt + worker.metricValue.toInt
      else head.metricValue.toInt + worker.metricValue.toInt - 2 ^ 64 := by
  have first := Int64.le_iff_toInt_le.mp comparable.head_nonneg
  have second := Int64.le_iff_toInt_le.mp comparable.worker_nonneg
  have firstBound := head.metricValue.toInt_lt
  have secondBound := worker.metricValue.toInt_lt
  rw [Int64.toInt_zero] at first second
  rw [Int64.toInt_add]
  simp only [Int.bmod_def]
  split_ifs <;> omega

/-- The difference of two values that are not negative always fits. -/
theorem Comparable.difference (comparable : Comparable head worker) :
    (head.metricValue - worker.metricValue).toInt = head.metricValue.toInt - worker.metricValue.toInt := by
  have first := Int64.le_iff_toInt_le.mp comparable.head_nonneg
  have second := Int64.le_iff_toInt_le.mp comparable.worker_nonneg
  have firstBound := head.metricValue.toInt_lt
  have secondBound := worker.metricValue.toInt_lt
  rw [Int64.toInt_zero] at first second
  rw [Int64.toInt_sub]
  simp only [Int.bmod_def]
  split_ifs <;> omega

theorem Comparable.disputed_iff (comparable : Comparable head worker) (now disputeThresholdPct : Int64) :
    (resolveIn exact now head worker disputeThresholdPct).disputed = true ↔
      if 0 < (head.metricValue + worker.metricValue).toInt then
        disputeThresholdPct.toInt * (head.metricValue + worker.metricValue).toInt < |head.metricValue.toInt - worker.metricValue.toInt| * 200
      else disputeThresholdPct.toInt < 0 := by
  have percentage := exact_percentage (head.metricValue - worker.metricValue) (head.metricValue + worker.metricValue) disputeThresholdPct
  rw [comparable.difference] at percentage
  exact percentage

theorem resolvedValue_exact (head worker : UsageRecord) (now disputeThresholdPct : Int64) :
    (resolveIn exact now head worker disputeThresholdPct).resolvedValue.toInt =
      if (resolveIn exact now head worker disputeThresholdPct).disputed = true ∨ head.metricValue.toInt ≠ worker.metricValue.toInt then
        if 0 ≤ (head.metricValue + worker.metricValue).toInt then (head.metricValue + worker.metricValue).toInt / 2
        else -(-(head.metricValue + worker.metricValue).toInt / 2)
      else head.metricValue.toInt := by
  have value : (resolveIn exact now head worker disputeThresholdPct).resolvedValue =
      if (resolveIn exact now head worker disputeThresholdPct).disputed then
        exact.int64 (exact.div (exact.float64 (head.metricValue + worker.metricValue)) (exact.float64 2))
      else if head.metricValue = worker.metricValue then head.metricValue
      else exact.int64 (exact.div (exact.float64 (head.metricValue + worker.metricValue)) (exact.float64 2)) := rfl
  rw [value, ← exact_average]
  by_cases disputed : (resolveIn exact now head worker disputeThresholdPct).disputed = true
  · rw [if_pos disputed, if_pos (Or.inl disputed)]
  · rw [if_neg disputed]
    by_cases same : head.metricValue = worker.metricValue
    · rw [if_pos same, if_neg]
      rintro (yes | different)
      · exact disputed yes
      · exact different (congrArg Int64.toInt same)
    · rw [if_neg same, if_pos (Or.inr (fun alike => same (Int64.toInt_inj.mp alike)))]

/-- The order of the two records makes no difference to the outcome. -/
theorem Comparable.exchange (comparable : Comparable head worker) (later : Int64) :
    (resolveIn exact later worker head disputeThresholdPct).resolvedValue =
      (resolveIn exact now head worker disputeThresholdPct).resolvedValue := by
  have sums : worker.metricValue + head.metricValue = head.metricValue + worker.metricValue := Int64.add_comm _ _
  have disputes : (resolveIn exact later worker head disputeThresholdPct).disputed =
      (resolveIn exact now head worker disputeThresholdPct).disputed := by
    rw [Bool.eq_iff_iff, comparable.symm.disputed_iff, comparable.disputed_iff, sums, abs_sub_comm]
  rw [← Int64.toInt_inj, resolvedValue_exact, resolvedValue_exact, sums, disputes]
  by_cases same : head.metricValue.toInt = worker.metricValue.toInt
  · rw [same]
  · rw [if_pos (Or.inr same), if_pos (Or.inr (Ne.symm same))]

end Pair

section Outcome

variable {h w threshold resolved : ℤ} {disputed : Bool}

/-- What is asked of the outcome, in whole numbers. -/
def Lawful (h w threshold resolved : ℤ) (disputed : Bool) : Prop :=
  min h w ≤ resolved ∧ resolved ≤ max h w ∧ (disputed = true ↔ threshold * (h + w) < |h - w| * 200)

/-- The outcome where the sum is as it should be. -/
theorem lawful_of_fits (h_nonneg : 0 ≤ h) (w_nonneg : 0 ≤ w)
    (dispute : disputed = true ↔ if 0 < h + w then threshold * (h + w) < |h - w| * 200 else threshold < 0)
    (value : resolved = if disputed = true ∨ h ≠ w then (h + w) / 2 else h) :
    Lawful h w threshold resolved disputed ↔ 0 ≤ threshold ∨ 0 < h + w := by
  have between : min h w ≤ resolved ∧ resolved ≤ max h w := by
    rw [value]
    split_ifs with averaged
    · omega
    · have same : h = w := by
        by_contra different
        exact averaged (Or.inr different)
      omega
  by_cases some : 0 < h + w
  · rw [if_pos some] at dispute
    exact ⟨fun _ => Or.inr some, fun _ => ⟨between.1, between.2, dispute⟩⟩
  · rw [if_neg some] at dispute
    obtain rfl : h = 0 := by omega
    obtain rfl : w = 0 := by omega
    constructor
    · rintro ⟨_, _, law⟩
      left
      by_contra negative
      have := law.mp (dispute.mpr (by omega))
      simp at this
    · intro holds
      refine ⟨between.1, between.2, ?_⟩
      rw [dispute]
      constructor
      · intro negative
        omega
      · intro none
        simp at none

/-- The outcome where the sum has become negative. -/
theorem lawful_of_wrapped (h_nonneg : 0 ≤ h) (w_nonneg : 0 ≤ w) (more : 0 < h + w) {average : ℤ} (negative : average < 0)
    (dispute : disputed = true ↔ threshold < 0) (value : resolved = if disputed = true ∨ h ≠ w then average else h) :
    Lawful h w threshold resolved disputed ↔ 0 ≤ threshold ∧ h = w := by
  constructor
  · rintro ⟨lower, _, _⟩
    have kept : ¬ (disputed = true ∨ h ≠ w) := by
      intro averaged
      rw [if_pos averaged] at value
      omega
    refine ⟨?_, ?_⟩
    · by_contra below
      exact kept (Or.inl (dispute.mpr (by omega)))
    · by_contra different
      exact kept (Or.inr different)
  · rintro ⟨nonneg, rfl⟩
    have undisputed : ¬ disputed = true := fun yes => by
      have := dispute.mp yes
      omega
    rw [if_neg (by rintro (yes | different); exacts [undisputed yes, different rfl])] at value
    refine ⟨by omega, by omega, iff_of_false undisputed ?_⟩
    have product := mul_nonneg nonneg more.le
    simp only [sub_self, abs_zero, zero_mul]
    omega

end Outcome

/-- The resolved value lies between the two, whichever comes first, and a dispute is raised by the
law of the percentage. -/
def Fair (head worker : UsageRecord) (disputeThresholdPct : Int64) : Prop :=
  ∀ now later, ∃ r s,
    reconcileRecordsIn exact now (some head) (some worker) disputeThresholdPct = .ok r ∧
    reconcileRecordsIn exact later (some worker) (some head) disputeThresholdPct = .ok s ∧
    min head.metricValue.toInt worker.metricValue.toInt ≤ r.resolvedValue.toInt ∧
    r.resolvedValue.toInt ≤ max head.metricValue.toInt worker.metricValue.toInt ∧
    s.resolvedValue = r.resolvedValue ∧
    (r.disputed = true ↔
      disputeThresholdPct.toInt * (head.metricValue.toInt + worker.metricValue.toInt) <
        |head.metricValue.toInt - worker.metricValue.toInt| * 200)

theorem Comparable.fair_iff {head worker : UsageRecord} (comparable : Comparable head worker) {disputeThresholdPct : Int64} :
    Fair head worker disputeThresholdPct ↔
      ∀ now, Lawful head.metricValue.toInt worker.metricValue.toInt disputeThresholdPct.toInt
        (resolveIn exact now head worker disputeThresholdPct).resolvedValue.toInt
        (resolveIn exact now head worker disputeThresholdPct).disputed := by
  constructor
  · intro fair now
    obtain ⟨r, s, reconciled, _, lower, upper, _, law⟩ := fair now now
    rw [comparable.reconciled] at reconciled
    obtain rfl := Except.ok.inj reconciled
    exact ⟨lower, upper, law⟩
  · intro holds now later
    obtain ⟨lower, upper, law⟩ := holds now
    exact ⟨_, _, comparable.reconciled now _, comparable.symm.reconciled later _, lower, upper, comparable.exchange later, law⟩

theorem Comparable.lawful_iff {head worker : UsageRecord} (comparable : Comparable head worker) {now disputeThresholdPct : Int64} :
    Lawful head.metricValue.toInt worker.metricValue.toInt disputeThresholdPct.toInt
        (resolveIn exact now head worker disputeThresholdPct).resolvedValue.toInt
        (resolveIn exact now head worker disputeThresholdPct).disputed ↔
      if head.metricValue.toInt + worker.metricValue.toInt < 2 ^ 63 then
        0 ≤ disputeThresholdPct.toInt ∨ 0 < head.metricValue.toInt + worker.metricValue.toInt
      else 0 ≤ disputeThresholdPct.toInt ∧ head.metricValue.toInt = worker.metricValue.toInt := by
  have first := Int64.le_iff_toInt_le.mp comparable.head_nonneg
  have second := Int64.le_iff_toInt_le.mp comparable.worker_nonneg
  have firstBound := head.metricValue.toInt_lt
  have secondBound := worker.metricValue.toInt_lt
  rw [Int64.toInt_zero] at first second
  have dispute := comparable.disputed_iff now disputeThresholdPct
  have value := resolvedValue_exact head worker now disputeThresholdPct
  rw [comparable.sum] at dispute value
  split_ifs with fits
  · rw [if_pos fits] at dispute value
    rw [if_pos (add_nonneg first second)] at value
    exact lawful_of_fits first second dispute value
  · rw [if_neg fits] at dispute value
    rw [if_neg (by omega)] at dispute
    refine lawful_of_wrapped first second (by omega) ?_ dispute value
    rw [if_neg (by omega)]
    omega

/-- A sum that does not fit in 64 bits is taken for a negative one; and two zeros are disputed
under a negative threshold. -/
theorem reconcile_fair_iff {head worker : UsageRecord} (comparable : Comparable head worker) (disputeThresholdPct : Int64) :
    Fair head worker disputeThresholdPct ↔
      if head.metricValue.toInt + worker.metricValue.toInt < 2 ^ 63 then
        0 ≤ disputeThresholdPct.toInt ∨ 0 < head.metricValue.toInt + worker.metricValue.toInt
      else 0 ≤ disputeThresholdPct.toInt ∧ head.metricValue = worker.metricValue := by
  rw [comparable.fair_iff, ← Int64.toInt_inj]
  constructor
  · intro lawful
    exact comparable.lawful_iff.mp (lawful 0)
  · intro holds now
    exact comparable.lawful_iff.mpr holds

def metered (metricValue : Int64) : UsageRecord :=
  { requestID := "req-1", service := "llm", consumerPeer := "head-1", providerPeer := "worker-1", metricName := "tokens", metricValue,
    timestamp := 0, signature := "" }

theorem metered_comparable {m n : Int64} (head_nonneg : 0 ≤ m) (worker_nonneg : 0 ≤ n) : Comparable (metered m) (metered n) :=
  { head_nonneg, worker_nonneg, request := rfl, service := rfl, metric := rfl }

theorem reconcile_fair_small : Fair (metered 1000) (metered 1050) 10 :=
  (reconcile_fair_iff (metered_comparable (by decide) (by decide)) 10).mpr (by decide)

/-- The greatest value and 1 are resolved to a value below 0. -/
theorem reconcile_unfair : ¬ ∀ head worker, Comparable head worker → ∀ disputeThresholdPct, Fair head worker disputeThresholdPct := by
  intro always
  have comparable : Comparable (metered 9223372036854775807) (metered 1) := metered_comparable (by decide) (by decide)
  obtain ⟨r, _, reconciled, _, lower, _⟩ := always _ _ comparable 10 0 0
  rw [comparable.reconciled] at reconciled
  obtain rfl := Except.ok.inj reconciled
  rw [resolvedValue_exact, if_pos (Or.inr (by decide))] at lower
  revert lower
  decide

end OpenTela.Usage
