import OpenTela.Lib.Totals
import OpenTela.Solana.Settlement
import Mathlib.Algebra.BigOperators.Ring.List
import Mathlib.Algebra.Order.BigOperators.Group.List
import Mathlib.Data.List.Dedup

namespace OpenTela.Solana

open Usage

/-- A provider, a service and a metric. -/
abbrev Triple := String × String × String

def Triple.key (t : Triple) : String := rateKey t.1 t.2.1 t.2.2

def RateManager.priceOf (rm : RateManager) (t : Triple) : Option ℤ :=
  match rm.getRate t.1 t.2.1 t.2.2 with
  | .ok rate => some rate.pricePerUnit.toInt
  | .error _ => none

def PaymentGroup.triple (g : PaymentGroup) : Triple := (g.providerAddress, g.service, g.metricName)

/-- What a record that is not disputed charges. -/
def charge (r : ResolvedUsage) : Option (Triple × Int64) :=
  if r.disputed then none else r.headRecord.map (fun h => ((h.providerPeer, h.service, h.metricName), r.resolvedValue))

def charges (records : List ResolvedUsage) : List (Triple × Int64) := records.filterMap charge

/-- What some of the charges come to, each at its own price. -/
def worth (price : Triple → ℤ) (cs : List (Triple × Int64)) : ℤ := (cs.map (fun ch => ch.2.toInt * price ch.1)).sum

/-- The exact amount that is owed for one triple. -/
def owed (price : ℤ) (cs : List (Triple × Int64)) (t : Triple) : ℤ := worth (fun u => if u = t then price else 0) cs

/-- What the run pays is what is owed, and it checked for at least as much. -/
structure Honest (rm : RateManager) (records : List ResolvedUsage) (s : Settlement) : Prop where
  exact : ∀ p ∈ s.submitted, ∃ price, rm.priceOf p.1.triple = some price ∧ p.2.toInt = owed price (charges records) p.1.triple
  checked : s.submitted ≠ [] → ∃ amount, s.checked = some amount ∧ (s.submitted.map (fun p => p.2.toInt)).sum ≤ amount.toInt

section Condition

variable (rm : RateManager) (cs : List (Triple × Int64))

/-- The triple that gives its name and its price to a group. -/
def leader (key : String) : Option Triple := (cs.find? (fun ch => ch.1.key = key)).map Prod.fst

/-- The exact amount for the group's own triple. -/
def own (key : String) : ℤ :=
  match leader cs key with
  | none => 0
  | some t => owed ((rm.priceOf t).getD 0) cs t

/-- What the group has in it of other triples with the same key, at the price of the first. -/
def strange (key : String) : ℤ :=
  match leader cs key with
  | none => 0
  | some t => worth (fun u => if u.key = key ∧ u ≠ t then (rm.priceOf t).getD 0 else 0) cs

/-- The group comes to more than nothing. -/
def Payable (key : String) : Prop := 0 < (own rm cs key + strange rm cs key).bmod (2 ^ 64)

instance (key : String) : Decidable (Payable rm cs key) := inferInstanceAs (Decidable (0 < _))

/-- What is owed for the groups that are paid. -/
def due : ℤ := ((cs.map (fun ch => ch.1.key)).dedup.map (fun key => if Payable rm cs key then own rm cs key else 0)).sum

/-- What all the charges come to, each at its own price. -/
def overall : ℤ := worth (fun t => (rm.priceOf t).getD 0) cs

/-- In no group that is paid does the amount wrap around, nor does another triple leave a trace in
it; and what the other charges come to, wrapped, does not lift the estimate out of its range. -/
structure Covered : Prop where
  groups : ∀ key, Payable rm cs key → 0 < own rm cs key ∧ own rm cs key < 2 ^ 63 ∧ (2 ^ 64 : ℤ) ∣ strange rm cs key
  estimate : (∃ key, Payable rm cs key) → due rm cs + (overall rm cs - due rm cs) % 2 ^ 64 < 2 ^ 63

end Condition

section Worth

variable {price price' price'' : Triple → ℤ} {cs : List (Triple × Int64)}

@[simp] theorem worth_nil (price : Triple → ℤ) : worth price [] = 0 := rfl

@[simp] theorem worth_append (price : Triple → ℤ) (cs ds : List (Triple × Int64)) :
    worth price (cs ++ ds) = worth price cs + worth price ds := by
  simp [worth]

theorem worth_add (same : ∀ t, price t = price' t + price'' t) (cs : List (Triple × Int64)) :
    worth price cs = worth price' cs + worth price'' cs := by
  simp only [worth, same, mul_add]
  exact List.sum_map_add

theorem worth_mul (k : ℤ) (price : Triple → ℤ) (cs : List (Triple × Int64)) :
    worth (fun t => price t * k) cs = worth price cs * k := by
  simp only [worth, ← mul_assoc]
  exact List.sum_map_mul_right cs (fun ch : Triple × Int64 => ch.2.toInt * price ch.1) k

theorem own_add_strange (rm : RateManager) {key : String} {t : Triple} (led : leader cs key = some t) :
    own rm cs key + strange rm cs key = worth (fun u => if u.key = key then 1 else 0) cs * (rm.priceOf t).getD 0 := by
  have named : t.key = key := by
    obtain ⟨ch, found, rfl⟩ := Option.map_eq_some_iff.mp led
    simpa using List.find?_some found
  simp only [own, strange, led, owed]
  rw [← worth_mul, ← worth_add]
  intro u
  by_cases same : u = t
  · subst same
    simp [named]
  · simp [same]

end Worth

theorem charges_cons (r : ResolvedUsage) (rest : List ResolvedUsage) :
    charges (r :: rest) = (charge r).toList ++ charges rest := by
  unfold charges
  cases taken : charge r <;> simp [taken]

section Grouping

/-- The groups that the charges make. -/
def Grouped (cs : List (Triple × Int64)) (groups : Store String PaymentGroup) : Prop :=
  ∀ key, match leader cs key with
    | none => groups.lookup key = none ∧ worth (fun u => if u.key = key then 1 else 0) cs = 0
    | some t => ∃ total : Int64, groups.lookup key = some ⟨t.1, t.2.1, t.2.2, total⟩ ∧
        total.toInt = (worth (fun u => if u.key = key then 1 else 0) cs).bmod (2 ^ 64)

theorem Grouped.nil : Grouped [] ∅ := fun key => by simp [leader]

theorem leader_append (cs : List (Triple × Int64)) (ch : Triple × Int64) (key : String) :
    leader (cs ++ [ch]) key = (leader cs key).or (if ch.1.key = key then some ch.1 else none) := by
  simp only [leader, List.find?_append, Option.map_or]
  congr 1
  by_cases same : ch.1.key = key
  · simp [same]
  · simp [same]

theorem Grouped.insert {cs : List (Triple × Int64)} {groups : Store String PaymentGroup} (grouped : Grouped cs groups) (t : Triple)
    (value : Int64) :
    let g := (groups.lookup t.key).getD ⟨t.1, t.2.1, t.2.2, 0⟩
    Grouped (cs ++ [(t, value)]) (AList.insert t.key { g with totalValue := g.totalValue + value } groups) := by
  intro g key
  have known := grouped key
  have single : worth (fun u => if u.key = key then 1 else 0) [(t, value)] = if t.key = key then value.toInt else 0 := by
    simp [worth]
  rw [leader_append, worth_append, single]
  by_cases mine : t.key = key
  · subst mine
    rw [if_pos rfl, if_pos rfl, AList.lookup_insert]
    cases led : leader cs t.key with
    | none =>
      rw [led] at known
      obtain ⟨absent, nothing⟩ := known
      refine ⟨0 + value, by simp [g, absent], ?_⟩
      rw [nothing, Int64.toInt_add]
      rfl
    | some first =>
      rw [led] at known
      obtain ⟨total, there, sum⟩ := known
      refine ⟨total + value, by simp [g, there], ?_⟩
      rw [Int64.toInt_add, sum, Int.bmod_add_bmod]
  · rw [if_neg mine, if_neg mine, AList.lookup_insert_ne (Ne.symm mine), Option.or_none, add_zero]
    exact known

theorem Grouped.add {cs : List (Triple × Int64)} {groups : Store String PaymentGroup} (grouped : Grouped cs groups)
    {r : ResolvedUsage} (returned : Returned r) :
    ∃ groups', addToGroup groups r = some groups' ∧ Grouped (cs ++ (charge r).toList) groups' := by
  obtain ⟨head, worker, hasHead, hasWorker⟩ := returned.both
  unfold addToGroup charge
  cases disputed : r.disputed with
  | true => simpa [hasHead, hasWorker] using grouped
  | false =>
    simp only [hasHead]
    exact ⟨_, rfl, grouped.insert (head.providerPeer, head.service, head.metricName) r.resolvedValue⟩

theorem Grouped.run {cs : List (Triple × Int64)} {groups : Store String PaymentGroup} (grouped : Grouped cs groups)
    {records : List ResolvedUsage} (returned : ∀ r ∈ records, Returned r) :
    ∃ groups', records.foldlM addToGroup groups = some groups' ∧ Grouped (cs ++ charges records) groups' := by
  induction records generalizing cs groups with
  | nil => exact ⟨groups, rfl, by simpa [charges] using grouped⟩
  | cons r rest ih =>
    obtain ⟨between, added, grouped'⟩ := grouped.add (returned r List.mem_cons_self)
    obtain ⟨last, later, grouped''⟩ := ih grouped' (fun r member => returned r (List.mem_cons_of_mem _ member))
    refine ⟨last, by rw [List.foldlM_cons, added]; exact later, ?_⟩
    rw [charges_cons, ← List.append_assoc]
    exact grouped''

theorem addEstimate_toInt (rm : RateManager) (total : Int64) (r : ResolvedUsage) :
    (addEstimate rm total r).toInt = (total.toInt + overall rm (charge r).toList).bmod (2 ^ 64) := by
  unfold addEstimate charge
  cases r.disputed with
  | true => simp [overall]
  | false =>
    cases r.headRecord with
    | none => simp [overall]
    | some h =>
      simp only [Bool.false_eq_true, if_false, Option.map_some, Option.toList_some, overall, worth, List.map_singleton, List.sum_singleton,
        RateManager.priceOf]
      cases rm.getRate h.providerPeer h.service h.metricName with
      | error err => simp
      | ok rate => simp [Int64.toInt_add, Int64.toInt_mul]

theorem estimate_toInt (rm : RateManager) (records : List ResolvedUsage) (total : Int64) :
    (records.foldl (addEstimate rm) total).toInt = (total.toInt + overall rm (charges records)).bmod (2 ^ 64) := by
  induction records generalizing total with
  | nil => simp [charges, overall]
  | cons r rest ih =>
    rw [List.foldl_cons, ih, addEstimate_toInt, Int.bmod_add_bmod, charges_cons, overall, overall, overall, worth_append, add_assoc]

end Grouping

section Paying

variable (site : Site) (rm : RateManager)

/-- What is to be submitted for a group, if anything. -/
def bill (g : PaymentGroup) : Option (PaymentGroup × Int64) :=
  match rm.getRate g.providerAddress g.service g.metricName with
  | .error _ => none
  | .ok rate => if g.totalValue * rate.pricePerUnit ≤ 0 then none else some (g, g.totalValue * rate.pricePerUnit)

/-- Only a panic cuts the payments short. -/
theorem payGroups_submitted (pp : PaymentProcessor) (gs : List PaymentGroup) :
    (payGroups site rm pp gs).2 <+: gs.filterMap (bill rm) ∧
      ((∀ net provider amount, (submitPayment site.crypto pp net provider amount).1 ≠ none) →
        (payGroups site rm pp gs).2 = gs.filterMap (bill rm)) := by
  induction gs with
  | nil => exact ⟨List.prefix_refl _, fun _ => rfl⟩
  | cons g rest ih =>
    unfold payGroups
    rw [List.filterMap_cons, bill]
    cases rm.getRate g.providerAddress g.service g.metricName with
    | error err => exact ih
    | ok rate =>
      dsimp only
      by_cases small : g.totalValue * rate.pricePerUnit ≤ 0
      · rw [if_pos small, if_pos small]
        exact ih
      · rw [if_neg small, if_neg small]
        cases paid : (submitPayment site.crypto pp (site.net g) g.providerAddress (g.totalValue * rate.pricePerUnit)).1 with
        | none => exact ⟨by simp, fun calm => (calm _ _ _ paid).elim⟩
        | some result => exact ⟨(List.prefix_cons_inj _).mpr ih.1, fun calm => congrArg _ (ih.2 calm)⟩

/-- The bill of a group that the charges make. -/
theorem bill_grouped {cs : List (Triple × Int64)} {groups : Store String PaymentGroup} (grouped : Grouped cs groups) {key : String}
    {g : PaymentGroup} (there : groups.lookup key = some g) :
    leader cs key = some g.triple ∧
      match bill rm g with
      | none => ¬ Payable rm cs key
      | some p => Payable rm cs key ∧ p.1 = g ∧ rm.priceOf g.triple ≠ none ∧
          p.2.toInt = (own rm cs key + strange rm cs key).bmod (2 ^ 64) := by
  have known := grouped key
  cases led : leader cs key with
  | none =>
    rw [led, there] at known
    cases known.1
  | some t =>
    rw [led] at known
    obtain ⟨total, there', sum⟩ := known
    rw [there] at there'
    cases there'
    refine ⟨rfl, ?_⟩
    have amount : ∀ price : ℤ, rm.priceOf t = some price → (total.toInt * price).bmod (2 ^ 64) = (own rm cs key + strange rm cs key).bmod (2 ^ 64) := by
      intro price priced
      rw [own_add_strange rm led, priced, sum, Int.bmod_mul_bmod]
      rfl
    unfold bill Payable
    cases rated : rm.getRate t.1 t.2.1 t.2.2 with
    | error err =>
      have unpriced : rm.priceOf t = none := by rw [RateManager.priceOf, rated]
      rw [own_add_strange rm led, unpriced]
      simp
    | ok rate =>
      have priced : rm.priceOf t = some rate.pricePerUnit.toInt := by rw [RateManager.priceOf, rated]
      have exact := amount _ priced
      rw [← Int64.toInt_mul] at exact
      rw [← exact]
      dsimp only
      by_cases small : total * rate.pricePerUnit ≤ 0
      · rw [if_pos small]
        simpa [Int64.le_iff_toInt_le] using small
      · rw [if_neg small]
        refine ⟨?_, rfl, by simp [PaymentGroup.triple, priced], rfl⟩
        simpa [Int64.le_iff_toInt_le] using small

/-- The bills of all groups, in the order in which they are gone through. -/
def bills (groups : Store String PaymentGroup) : List (PaymentGroup × Int64) :=
  ((site.order groups.keys).1.filterMap (fun key => groups.lookup key)).filterMap (bill rm)

theorem mem_bills {cs : List (Triple × Int64)} {groups : Store String PaymentGroup} (grouped : Grouped cs groups)
    {p : PaymentGroup × Int64} (billed : p ∈ bills site rm groups) :
    ∃ key, leader cs key = some p.1.triple ∧ Payable rm cs key ∧ rm.priceOf p.1.triple ≠ none ∧
      p.2.toInt = (own rm cs key + strange rm cs key).bmod (2 ^ 64) := by
  obtain ⟨g, listed, made⟩ := List.mem_filterMap.mp billed
  obtain ⟨key, _, there⟩ := List.mem_filterMap.mp listed
  obtain ⟨led, known⟩ := bill_grouped rm grouped there
  rw [made] at known
  obtain ⟨payable, rfl, priced, amount⟩ := known
  exact ⟨key, led, payable, priced, amount⟩

theorem bills_of_payable {cs : List (Triple × Int64)} {groups : Store String PaymentGroup} (grouped : Grouped cs groups) {key : String}
    (payable : Payable rm cs key) :
    ∃ p ∈ bills site rm groups, leader cs key = some p.1.triple ∧ p.2.toInt = (own rm cs key + strange rm cs key).bmod (2 ^ 64) := by
  have known := grouped key
  cases led : leader cs key with
  | none => simp [Payable, own, strange, led] at payable
  | some t =>
    rw [led] at known
    obtain ⟨total, there, _⟩ := known
    obtain ⟨_, billed⟩ := bill_grouped rm grouped there
    have inside : key ∈ groups.keys := by
      rw [← AList.mem_keys, ← AList.lookup_isSome, there]
      rfl
    cases made : bill rm ⟨t.1, t.2.1, t.2.2, total⟩ with
    | none =>
      rw [made] at billed
      exact (billed payable).elim
    | some p =>
      rw [made] at billed
      obtain ⟨_, group, _, amount⟩ := billed
      exact ⟨p, List.mem_filterMap.mpr ⟨_, List.mem_filterMap.mpr ⟨key, (site.order groups.keys).2.mem_iff.mpr inside, there⟩, made⟩,
        by rw [group]; rfl, amount⟩

theorem mem_keys_iff {cs : List (Triple × Int64)} {groups : Store String PaymentGroup} (grouped : Grouped cs groups) (key : String) :
    key ∈ groups.keys ↔ key ∈ cs.map (fun ch => ch.1.key) := by
  have known := grouped key
  have led : (leader cs key).isSome ↔ key ∈ cs.map (fun ch => ch.1.key) := by
    simp [leader, List.find?_isSome]
  rw [← AList.mem_keys, ← AList.lookup_isSome, ← led]
  cases found : leader cs key with
  | none =>
    rw [found] at known
    simp [known.1]
  | some t =>
    rw [found] at known
    obtain ⟨total, there, _⟩ := known
    simp [there]

theorem sum_bills {cs : List (Triple × Int64)} {groups : Store String PaymentGroup} (grouped : Grouped cs groups) :
    ((bills site rm groups).map (fun p => p.2.toInt)).sum =
      ((cs.map (fun ch => ch.1.key)).dedup.map (fun key =>
        if Payable rm cs key then (own rm cs key + strange rm cs key).bmod (2 ^ 64) else 0)).sum := by
  have value : ∀ key ∈ (site.order groups.keys).1, ((groups.lookup key).bind (bill rm)).elim 0 (fun p => p.2.toInt) =
      if Payable rm cs key then (own rm cs key + strange rm cs key).bmod (2 ^ 64) else 0 := by
    intro key member
    have inside : key ∈ groups := AList.mem_keys.mpr ((site.order groups.keys).2.mem_iff.mp member)
    obtain ⟨g, there⟩ := Option.isSome_iff_exists.mp (AList.lookup_isSome.mpr inside)
    have known := (bill_grouped rm grouped there).2
    rw [there, Option.bind_some]
    cases made : bill rm g with
    | none =>
      rw [made] at known
      rw [if_neg known]
      rfl
    | some p =>
      rw [made] at known
      rw [if_pos known.1]
      exact known.2.2.2
  have same : (site.order groups.keys).1.Perm (cs.map (fun ch => ch.1.key)).dedup := by
    refine (site.order groups.keys).2.trans ((List.perm_ext_iff_of_nodup groups.keys_nodup (List.nodup_dedup _)).mpr fun key => ?_)
    rw [List.mem_dedup, mem_keys_iff grouped]
  unfold bills
  rw [List.filterMap_filterMap, List.sum_filterMap, List.map_congr_left value]
  exact (same.map _).sum_eq

theorem submitSettlement_submitted (records : List ResolvedUsage) :
    (submitSettlement site rm records).submitted = [] ∨
      ∃ pp, (submitSettlement site rm records).submitted = (processUsageRecords site rm pp records).2 ∧
        (submitSettlement site rm records).checked =
          if 0 < records.foldl (addEstimate rm) 0 then some (records.foldl (addEstimate rm) 0) else none := by
  unfold submitSettlement
  split
  · exact .inl rfl
  · split
    · exact .inl rfl
    · dsimp only
      split
      · exact .inl rfl
      · rename_i pp _
        by_cases positive : 0 < records.foldl (addEstimate rm) 0
        · simp only [if_pos positive]
          split
          · exact .inl rfl
          · exact .inl rfl
          · exact .inr ⟨pp, rfl, rfl⟩
        · simp only [if_neg positive]
          exact .inr ⟨pp, rfl, rfl⟩

theorem processUsageRecords_submitted {records : List ResolvedUsage} (returned : ∀ r ∈ records, Returned r) (pp : PaymentProcessor) :
    ∃ groups, Grouped (charges records) groups ∧ (processUsageRecords site rm pp records).2 <+: bills site rm groups ∧
      ((∀ net provider amount, (submitPayment site.crypto pp net provider amount).1 ≠ none) →
        (processUsageRecords site rm pp records).2 = bills site rm groups) := by
  obtain ⟨groups, grouping, grouped⟩ := Grouped.nil.run returned
  refine ⟨groups, by simpa using grouped, ?_⟩
  unfold processUsageRecords
  rw [grouping]
  exact payGroups_submitted site rm pp _

end Paying

section Wrapping

theorem bmod_range (x : ℤ) : -2 ^ 63 ≤ x.bmod (2 ^ 64) ∧ x.bmod (2 ^ 64) < 2 ^ 63 ∧ (2 ^ 64 : ℤ) ∣ x - x.bmod (2 ^ 64) := by
  rw [Int.bmod_def]
  omega

/-- Adding something to a positive number keeps it what it was, after wrapping, exactly when the
number was in range and what was added wraps to nothing. -/
theorem bmod_add_eq_iff {x y : ℤ} (positive : 0 < (x + y).bmod (2 ^ 64)) :
    (x + y).bmod (2 ^ 64) = x ↔ 0 < x ∧ x < 2 ^ 63 ∧ (2 ^ 64 : ℤ) ∣ y := by
  have range := bmod_range (x + y)
  omega

/-- A wrapped sum is no less than a positive part of it exactly when the rest, wrapped upwards,
leaves it in range. -/
theorem le_bmod_iff {a t : ℤ} (positive : 0 < a) : a ≤ t.bmod (2 ^ 64) ↔ a + (t - a) % 2 ^ 64 < 2 ^ 63 := by
  have range := bmod_range t
  omega

end Wrapping

section Covering

variable {rm : RateManager} {records : List ResolvedUsage}

theorem Covered.amount {cs : List (Triple × Int64)} (covered : Covered rm cs) {key : String} (payable : Payable rm cs key) :
    (own rm cs key + strange rm cs key).bmod (2 ^ 64) = own rm cs key :=
  (bmod_add_eq_iff payable).mpr (covered.groups key payable)

theorem due_eq_bills (site : Site) {cs : List (Triple × Int64)} {groups : Store String PaymentGroup} (grouped : Grouped cs groups)
    (amounts : ∀ key, Payable rm cs key → (own rm cs key + strange rm cs key).bmod (2 ^ 64) = own rm cs key) :
    ((bills site rm groups).map (fun p => p.2.toInt)).sum = due rm cs := by
  rw [sum_bills site rm grouped, due]
  refine congrArg List.sum (List.map_congr_left fun key _ => ?_)
  split
  · rename_i payable
    exact amounts key payable
  · rfl

theorem estimate_eq (rm : RateManager) (records : List ResolvedUsage) :
    (records.foldl (addEstimate rm) 0).toInt = (overall rm (charges records)).bmod (2 ^ 64) := by
  rw [estimate_toInt, Int64.toInt_zero, zero_add]

theorem bill_positive {site : Site} {cs : List (Triple × Int64)} {groups : Store String PaymentGroup} (grouped : Grouped cs groups)
    {p : PaymentGroup × Int64} (billed : p ∈ bills site rm groups) : 0 < p.2.toInt := by
  obtain ⟨key, _, payable, _, amount⟩ := mem_bills site rm grouped billed
  rw [amount]
  exact payable

theorem sum_bills_pos {site : Site} {cs : List (Triple × Int64)} {groups : Store String PaymentGroup} (grouped : Grouped cs groups)
    {paid : List (PaymentGroup × Int64)} (cut : paid <+: bills site rm groups) (some_paid : paid ≠ []) :
    0 < (paid.map (fun p => p.2.toInt)).sum := by
  refine List.sum_pos _ (fun amount member => ?_) (by simpa using some_paid)
  obtain ⟨p, left, rfl⟩ := List.mem_map.mp member
  exact bill_positive grouped (cut.subset left)

theorem Covered.honest (covered : Covered rm (charges records)) (returned : ∀ r ∈ records, Returned r) (site : Site) :
    Honest rm records (submitSettlement site rm records) := by
  rcases submitSettlement_submitted site rm records with idle | ⟨pp, submitted, checked⟩
  · exact ⟨by simp [idle], fun some_paid => (some_paid idle).elim⟩
  · obtain ⟨groups, grouped, cut, _⟩ := processUsageRecords_submitted site rm returned pp
    rw [← submitted] at cut
    refine ⟨fun p paid => ?_, fun some_paid => ?_⟩
    · obtain ⟨key, led, payable, priced, amount⟩ := mem_bills site rm grouped (cut.subset paid)
      obtain ⟨price, priced⟩ := Option.ne_none_iff_exists'.mp priced
      refine ⟨price, priced, ?_⟩
      rw [amount, covered.amount payable, own, led]
      dsimp only
      rw [priced]
      rfl
    · obtain ⟨p, paid⟩ := List.exists_mem_of_ne_nil _ some_paid
      obtain ⟨key, _, payable, _⟩ := mem_bills site rm grouped (cut.subset paid)
      have total := due_eq_bills site grouped (fun key payable => covered.amount payable)
      have mine := sum_bills_pos grouped cut some_paid
      obtain ⟨skipped, whole⟩ := cut
      have rest : 0 ≤ (skipped.map (fun p => p.2.toInt)).sum := by
        refine List.sum_nonneg fun amount member => ?_
        obtain ⟨q, left, rfl⟩ := List.mem_map.mp member
        exact (bill_positive grouped (whole ▸ List.mem_append_right _ left)).le
      rw [← whole, List.map_append, List.sum_append] at total
      have least := (le_bmod_iff (by omega)).mpr (covered.estimate ⟨key, payable⟩)
      have estimated := estimate_eq rm records
      have positive : 0 < records.foldl (addEstimate rm) 0 := by
        rw [Int64.lt_iff_toInt_lt, Int64.toInt_zero]
        omega
      exact ⟨_, by rw [checked, if_pos positive], by omega⟩

end Covering

section Ample

/-- A site where the balance is the greatest there can be, and where every payment fails for want of
the private key. -/
def ample : Site where
  crypto := ⟨decodeBase58, fun _ => repeated 0, fun _ _ => ⟨List.replicate 64 0, rfl⟩⟩
  enabled := true
  walletMgr := .ok ⟨.error "decode private key", "4zvwRjXUKGfvwnParsHAS3HuSVzV5cA4McphgmoCtajS"⟩
  mintAddr := ""
  decimals := 0
  balance := .result ["9223372036854775807"]
  order := fun keys => ⟨keys, .refl _⟩
  net := fun _ => ⟨.lost "", ⟨.lost "", ⟨false, .lost ""⟩⟩, fun _ => ⟨.lost "", ⟨false, .lost ""⟩⟩, []⟩

def ampleProcessor : PaymentProcessor where
  walletMgr := ⟨.error "decode private key", "4zvwRjXUKGfvwnParsHAS3HuSVzV5cA4McphgmoCtajS"⟩
  mintAddress := zeroProcessor.mintAddress
  mintBase58 := defaultMintAddress
  decimals := 9

theorem ample_calm (net : Faults) (provider : String) (amount : Int64) :
    (submitPayment ample.crypto ampleProcessor net provider amount).1 ≠ none := by
  have unopened : parties ample.crypto ampleProcessor provider = .error ("get consumer wallet: " ++ "decode private key") := rfl
  rw [submitPayment, unopened]
  simp

theorem ample_processor : newPaymentProcessor ample ampleProcessor.walletMgr defaultMintAddress 9 = .ok ampleProcessor := by
  have mint : decodeBase58 defaultMintAddress = .ok ⟨zeroProcessor.mintAddress.1, []⟩ := zeroProcessor_mint
  simp only [newPaymentProcessor, ample, mint]
  rfl

theorem ample_balance (amount : Int64) :
    verifyBalance ample ampleProcessor ampleProcessor.walletMgr.getPublicKey amount = .ok true := by
  have mint : decodeBase58 defaultMintAddress = .ok ⟨zeroProcessor.mintAddress.1, []⟩ := zeroProcessor_mint
  have scanned : scanInt "9223372036854775807" = .ok 9223372036854775807 := by decide +kernel
  have enough : amount ≤ 9223372036854775807 := by
    have bound := amount.toInt_lt
    rw [Int64.le_iff_toInt_le]
    exact Int.le_of_lt_add_one bound
  have held : getTokenBalance ample.crypto ampleProcessor.walletMgr.getPublicKey ampleProcessor.mintBase58 ample.balance =
      .ok "9223372036854775807" := by
    simp only [getTokenBalance, ample, ampleProcessor, zeroKey_wallet, mint, call, Except.mapError, bind, Except.bind]
    rfl
  simp only [verifyBalance, held, scanned, Except.mapError, bind, Except.bind, enough, decide_true]
  rfl

theorem ample_settlement (rm : RateManager) {records : List ResolvedUsage} (some_records : records ≠ []) :
    submitSettlement ample rm records = processPayments ample rm
      (if 0 < records.foldl (addEstimate rm) 0 then some (records.foldl (addEstimate rm) 0) else none) ampleProcessor records := by
  have wallet : ample.walletMgr = .ok ampleProcessor.walletMgr := rfl
  have processor : newPaymentProcessor ample ampleProcessor.walletMgr (if ample.mintAddr = "" then defaultMintAddress else ample.mintAddr)
      (if ample.decimals = 0 then defaultDecimals else ample.decimals).toUInt64.toUInt8 = .ok ampleProcessor := ample_processor
  unfold submitSettlement
  rw [if_neg (by simp [ample, some_records]), wallet]
  simp only [processor, ample_balance]
  split <;> rfl

/-- When every run pays what is owed, the condition holds: a run that gets to pay everything
shows it. -/
theorem Covered.of_honest {rm : RateManager} {records : List ResolvedUsage} (returned : ∀ r ∈ records, Returned r)
    (honest : Honest rm records (submitSettlement ample rm records)) : Covered rm (charges records) := by
  by_cases none_left : records = []
  · subst none_left
    have nothing : ∀ key, ¬ Payable rm (charges []) key := fun key => by simp [Payable, charges, own, strange, leader]
    exact ⟨fun key payable => (nothing key payable).elim, fun ⟨key, payable⟩ => (nothing key payable).elim⟩
  · obtain ⟨groups, grouped, _, all⟩ := processUsageRecords_submitted ample rm returned ampleProcessor
    rw [ample_settlement rm none_left] at honest
    obtain ⟨exact, checked⟩ := honest
    simp only [processPayments, all ample_calm] at exact checked
    have amounts : ∀ key, Payable rm (charges records) key →
        (own rm (charges records) key + strange rm (charges records) key).bmod (2 ^ 64) = own rm (charges records) key := by
      intro key payable
      obtain ⟨p, billed, led, amount⟩ := bills_of_payable ample rm grouped payable
      obtain ⟨price, priced, same⟩ := exact p billed
      rw [← amount, same, own, led]
      dsimp only
      rw [priced]
      rfl
    refine ⟨fun key payable => (bmod_add_eq_iff payable).mp (amounts key payable), fun ⟨key, payable⟩ => ?_⟩
    obtain ⟨p, billed, _⟩ := bills_of_payable ample rm grouped payable
    obtain ⟨amount, looked, least⟩ := checked (List.ne_nil_of_mem billed)
    have positive := sum_bills_pos grouped (List.prefix_refl (bills ample rm groups)) (List.ne_nil_of_mem billed)
    rw [due_eq_bills ample grouped amounts] at least positive
    split at looked
    · cases looked
      rw [estimate_eq] at least
      exact (le_bmod_iff positive).mp least
    · cases looked

end Ample

/-- A table of rates and a list of records make every settlement pay what is owed, and check for
it before, exactly when they are covered. -/
theorem settlement_covers (rm : RateManager) {records : List ResolvedUsage} (returned : ∀ r ∈ records, Returned r) :
    (∀ site, Honest rm records (submitSettlement site rm records)) ↔ Covered rm (charges records) :=
  ⟨fun honest => .of_honest returned (honest ample), fun covered => covered.honest returned⟩

section Unchecked

def counted (requestID provider : String) (tokens : Int64) : UsageRecord := ⟨requestID, "llm", "head", provider, "tokens", tokens, 0, ""⟩

def near : String := "CktRuQ2mttgRGkXJtyksdKHjUdc2C4TgDzyB98oEzy8"

def far : String := "8qbHbw2BbbTHBW1sbeqakYXVKRQM8Ne7pLK7m6CVfeR"

/-- Two requests to the one provider, and one to the other. -/
def modest : List ResolvedUsage :=
  [resolve 0 (counted "1" near 10) (counted "1" near 10) 10, resolve 0 (counted "2" far 20) (counted "2" far 20) 10,
    resolve 0 (counted "3" near 31) (counted "3" near 33) 10]

/-- Ten tokens by the one provider. Of the other the counts are so high that their sum wraps around. -/
def skewed : List ResolvedUsage :=
  [resolve 0 (counted "1" near 10) (counted "1" near 10) 10,
    resolve 0 (counted "2" far 4611686018427387904) (counted "2" far 4611686018427387905) 10]

def plainRates : RateManager := ⟨∅, 1, 0⟩

theorem counted_returned (requestID provider : String) {head worker : Int64} (low : ¬ head < 0) (low' : ¬ worker < 0) :
    Returned (resolve 0 (counted requestID provider head) (counted requestID provider worker) 10) :=
  ⟨0, some (counted requestID provider head), some (counted requestID provider worker), 10, by simp [reconcileRecords, counted, low, low']⟩

theorem modest_returned : ∀ r ∈ modest, Returned r := by
  simp only [modest, List.forall_mem_cons]
  exact ⟨counted_returned _ _ (by decide) (by decide), counted_returned _ _ (by decide) (by decide),
    counted_returned _ _ (by decide) (by decide), fun _ none => by cases none⟩

theorem skewed_returned : ∀ r ∈ skewed, Returned r := by
  intro r member
  rcases List.mem_pair.mp member with rfl | rfl
  · exact counted_returned _ _ (by decide) (by decide)
  · exact counted_returned _ _ (by decide) (by decide)

theorem modest_charges : charges modest =
    [((near, "llm", "tokens"), 10), ((far, "llm", "tokens"), 20), ((near, "llm", "tokens"), 32)] := by
  decide +kernel

theorem modest_covered : Covered plainRates (charges modest) where
  groups := by
    intro key payable
    by_cases first : key = rateKey near "llm" "tokens"
    · subst first
      decide +kernel
    by_cases second : key = rateKey far "llm" "tokens"
    · subst second
      decide +kernel
    -- Nothing is charged under any other key.
    have unled : leader (charges modest) key = none := by
      simp [leader, modest_charges, Triple.key, Ne.symm first, Ne.symm second]
    simp [Payable, own, strange, unled] at payable
  estimate := fun _ => by decide +kernel

theorem settlement_covers_modest :
    ((submitSettlement ample plainRates modest).submitted.map Prod.snd).Perm [42, 20] ∧
      ∀ site, Honest plainRates modest (submitSettlement site plainRates modest) :=
  ⟨by decide +kernel, (settlement_covers plainRates modest_returned).mpr modest_covered⟩

/-- The estimate is negative, so the ten tokens are paid without any look at the balance. -/
theorem settlement_unchecked : ¬ Honest plainRates skewed (submitSettlement ample plainRates skewed) := by
  intro honest
  have covered := Covered.of_honest skewed_returned honest
  have payable : Payable plainRates (charges skewed) "CktRuQ2mttgRGkXJtyksdKHjUdc2C4TgDzyB98oEzy8:llm:tokens" := by decide +kernel
  have inRange := covered.estimate ⟨_, payable⟩
  revert inRange
  decide +kernel

end Unchecked

end OpenTela.Solana
