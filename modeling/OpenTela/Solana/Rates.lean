import OpenTela.Lib.Overwriting
import OpenTela.Solana.Coverage
import Mathlib.Data.List.Induction
import Mathlib.Algebra.Order.Group.Unbundled.Abs

namespace OpenTela.Solana

open Usage

structure MetricPrice where
  name : String
  pricePer1000 : Int64

structure ServicePrices where
  name : String
  metrics : List MetricPrice

structure ProviderPrices where
  address : String
  services : List ServicePrices

/-- The contents of `rates.yaml`. -/
structure RatesConfig where
  providers : List ProviderPrices

def newRateManager (defaultTokenRate defaultGPUMsRate : Int64) : RateManager := ⟨∅, defaultTokenRate, defaultGPUMsRate⟩

def RateManager.setRate (rm : RateManager) (r : Rate) : RateManager :=
  { rm with rates := rm.rates.insert (rateKey r.providerAddress r.service r.metricName) r }

/-- The price of one unit: a price of less than one base unit becomes one. -/
def pricePerUnit (pricePer1000 : Int64) : Int64 :=
  if 0 < pricePer1000 ∧ pricePer1000 < 1000 then 1 else pricePer1000 / 1000

/-- The prices of the file, in the order in which the three loops of `LoadFromConfig` come to them. -/
def RatesConfig.entries (cfg : RatesConfig) : List (Triple × Int64) :=
  cfg.providers.flatMap (fun p => p.services.flatMap (fun s => s.metrics.map (fun m => ((p.address, s.name, m.name), m.pricePer1000))))

def RateManager.load (rm : RateManager) (entries : List (Triple × Int64)) : RateManager :=
  entries.foldl (fun rm entry => rm.setRate ⟨entry.1.1, entry.1.2.1, entry.1.2.2, pricePerUnit entry.2⟩) rm

/-- What is found under the path of the file. -/
inductive RatesFile where
  | unreadable (err : String)
  | unparsable (err : String)
  | parsed (cfg : RatesConfig)

def RateManager.loadFromConfig (rm : RateManager) : RatesFile → Except String RateManager
  | .unreadable err => .error ("read rates config: " ++ err)
  | .unparsable err => .error ("parse rates config: " ++ err)
  | .parsed cfg => .ok (rm.load cfg.entries)

/-- The settings `rates.default_per_1000_tokens` and `rates.default_per_gpu_ms`, and the file that
`rates.config_path` names, if it names one. -/
structure RateSettings where
  defaultPer1000Tokens : Int64
  defaultPerGPUMs : Int64
  file : Option RatesFile := none

/-- The rates of a settlement, as `SubmitSettlement` makes them up. -/
def RateSettings.rateManager (settings : RateSettings) : RateManager :=
  let rm := newRateManager settings.defaultPer1000Tokens settings.defaultPerGPUMs
  match settings.file with
  | none => rm
  | some file =>
    match rm.loadFromConfig file with
    | .ok loaded => loaded
    | .error _ => rm

/-- The price that the file has last for a key. -/
def lastPrice (entries : List (Triple × Int64)) (key : String) : Option Int64 :=
  ((entries.filter (fun entry => entry.1.key = key)).getLast?).map Prod.snd

/-- The explicit price of the provider's tokens for the service. -/
def RateSettings.explicitPrice (settings : RateSettings) (provider service : String) : Option Int64 :=
  match settings.file with
  | some (.parsed cfg) => lastPrice cfg.entries (rateKey provider service "tokens")
  | _ => none

/-- A record, not in dispute, of tokens that the provider is to be paid for. -/
def OfTokens (provider service : String) (r : ResolvedUsage) : Prop :=
  r.disputed = false ∧ 0 ≤ r.resolvedValue.toInt ∧
    ∃ h, r.headRecord = some h ∧ h.providerPeer = provider ∧ h.service = service ∧ h.metricName = "tokens"

/-- The tokens of some records. -/
def tokensOf (records : List ResolvedUsage) : ℤ := (records.map (fun r => r.resolvedValue.toInt)).sum

/-- What is submitted for payment. -/
def billedFor (site : Site) (rm : RateManager) (pp : PaymentProcessor) (records : List ResolvedUsage) : ℤ :=
  ((processUsageRecords site rm pp records).2.map (fun p => p.2.toInt)).sum

/-- An amount is proportional to usage and price up to less than one base unit. -/
def Proportional (amount usage price : ℤ) : Prop := |1000 * amount - usage * price| < 1000

section Loading

variable {rm : RateManager} {entries : List (Triple × Int64)}

theorem RateManager.load_append (entry : Triple × Int64) :
    rm.load (entries ++ [entry]) = (rm.load entries).setRate ⟨entry.1.1, entry.1.2.1, entry.1.2.2, pricePerUnit entry.2⟩ := by
  rw [RateManager.load, List.foldl_append]
  rfl

theorem RateManager.load_defaults : (rm.load entries).defaultTokenRate = rm.defaultTokenRate := by
  induction entries using List.reverseRecOn with
  | nil => rfl
  | append_singleton entries entry ih => exact (congrArg RateManager.defaultTokenRate (RateManager.load_append entry)).trans ih

theorem RateManager.load_rates : (rm.load entries).rates =
    Store.writeAll rm.rates (entries.map (fun e => (e.1.key, ⟨e.1.1, e.1.2.1, e.1.2.2, pricePerUnit e.2⟩))) := by
  induction entries using List.reverseRecOn with
  | nil => rfl
  | append_singleton entries entry ih =>
    rw [RateManager.load_append, RateManager.setRate, List.map_append, List.map_singleton, Store.writeAll_append, ← ih]
    rfl

/-- The last price of a key is the one that counts. -/
theorem RateManager.load_lookup (key : String) :
    ((rm.load entries).rates.lookup key).map Rate.pricePerUnit =
      match lastPrice entries key with
      | some price => some (pricePerUnit price)
      | none => (rm.rates.lookup key).map Rate.pricePerUnit := by
  rw [RateManager.load_rates, Store.lookup_writeAll, List.filter_map, List.getLast?_map, lastPrice]
  have own : ∀ l : List (Triple × Int64), l.filter ((fun w : String × Rate => decide (w.1 = key)) ∘
      fun e => (e.1.key, ⟨e.1.1, e.1.2.1, e.1.2.2, pricePerUnit e.2⟩)) = l.filter (fun e => e.1.key = key) := fun _ => rfl
  rw [own]
  cases (entries.filter (fun e => e.1.key = key)).getLast? <;> rfl

end Loading

theorem RateManager.getRate_unlisted {rm : RateManager} {provider service : String}
    (none : rm.rates.lookup (rateKey provider service "tokens") = none) :
    rm.getRate provider service "tokens" = .ok ⟨provider, service, "tokens", rm.defaultTokenRate⟩ := by
  rw [RateManager.getRate, none]
  rfl

/-- The price per unit that the settings come to, for tokens. -/
theorem rateManager_tokens (settings : RateSettings) (provider service : String) :
    ∃ rate, settings.rateManager.getRate provider service "tokens" = .ok rate ∧ rate.pricePerUnit =
      match settings.explicitPrice provider service with
      | some price => pricePerUnit price
      | none => settings.defaultPer1000Tokens := by
  let bare := newRateManager settings.defaultPer1000Tokens settings.defaultPerGPUMs
  have unlisted : bare.rates.lookup (rateKey provider service "tokens") = none := rfl
  have unread : settings.rateManager = bare → settings.explicitPrice provider service = none →
      ∃ rate, settings.rateManager.getRate provider service "tokens" = .ok rate ∧ rate.pricePerUnit =
        match settings.explicitPrice provider service with
        | some price => pricePerUnit price
        | none => settings.defaultPer1000Tokens := by
    intro rates prices
    rw [rates, prices]
    exact ⟨_, RateManager.getRate_unlisted unlisted, rfl⟩
  cases file : settings.file with
  | none => exact unread (by rw [RateSettings.rateManager, file]) (by rw [RateSettings.explicitPrice, file])
  | some found =>
    cases found with
    | unreadable err =>
      exact unread (by rw [RateSettings.rateManager, file]; rfl) (by rw [RateSettings.explicitPrice, file])
    | unparsable err =>
      exact unread (by rw [RateSettings.rateManager, file]; rfl) (by rw [RateSettings.explicitPrice, file])
    | parsed cfg =>
      have loaded : settings.rateManager = bare.load cfg.entries := by
        rw [RateSettings.rateManager, file]
        rfl
      have priced := @RateManager.load_lookup bare cfg.entries (rateKey provider service "tokens")
      rw [loaded, RateSettings.explicitPrice, file]
      dsimp only
      cases last : lastPrice cfg.entries (rateKey provider service "tokens") with
      | none =>
        rw [last, unlisted] at priced
        exact ⟨_, RateManager.getRate_unlisted (Option.map_eq_none_iff.mp priced), RateManager.load_defaults⟩
      | some price =>
        rw [last] at priced
        obtain ⟨rate, known, unit⟩ := Option.map_eq_some_iff.mp priced
        exact ⟨rate, by rw [RateManager.getRate, known], unit⟩

section Billing

variable {provider service : String} {records : List ResolvedUsage}

theorem tokensOf_nonneg (ofTokens : ∀ r ∈ records, OfTokens provider service r) : 0 ≤ tokensOf records := by
  refine List.sum_nonneg ?_
  intro n member
  obtain ⟨r, among, rfl⟩ := List.mem_map.mp member
  exact (ofTokens r among).2.1

theorem tokensOf_cons (r : ResolvedUsage) (rest : List ResolvedUsage) :
    tokensOf (r :: rest) = r.resolvedValue.toInt + tokensOf rest := by
  rw [tokensOf, List.map_cons, List.sum_cons]
  rfl

/-- The records of tokens make one group. -/
theorem addToGroup_tokens (ofTokens : ∀ r ∈ records, OfTokens provider service r) {groups : Store String PaymentGroup} {total : Int64}
    (keys : groups.keys = [rateKey provider service "tokens"])
    (known : groups.lookup (rateKey provider service "tokens") = some ⟨provider, service, "tokens", total⟩)
    (least : 0 ≤ total.toInt) (bound : total.toInt + tokensOf records < 2 ^ 63) :
    ∃ groups' total', records.foldlM addToGroup groups = some groups' ∧ groups'.keys = [rateKey provider service "tokens"] ∧
      groups'.lookup (rateKey provider service "tokens") = some ⟨provider, service, "tokens", total'⟩ ∧
      total'.toInt = total.toInt + tokensOf records := by
  induction records generalizing groups total with
  | nil => exact ⟨groups, total, rfl, keys, known, by simp [tokensOf]⟩
  | cons r rest ih =>
    obtain ⟨undisputed, positive, h, head, rfl, rfl, metric⟩ := ofTokens r List.mem_cons_self
    have later : ∀ r ∈ rest, OfTokens h.providerPeer h.service r := fun r member => ofTokens r (List.mem_cons_of_mem _ member)
    have spent := tokensOf_cons r rest
    have rest_least : 0 ≤ tokensOf rest := tokensOf_nonneg later
    have sum : (total + r.resolvedValue).toInt = total.toInt + r.resolvedValue.toInt := by
      rw [Int64.toInt_add]
      exact Int.bmod_eq_of_le (by omega) (by omega)
    have added : addToGroup groups r = some (groups.insert (rateKey h.providerPeer h.service "tokens")
        ⟨h.providerPeer, h.service, "tokens", total + r.resolvedValue⟩) := by
      rw [addToGroup, if_neg (by simp [undisputed]), head]
      dsimp only
      rw [metric, known]
      rfl
    have next_keys : (groups.insert (rateKey h.providerPeer h.service "tokens")
        ⟨h.providerPeer, h.service, "tokens", total + r.resolvedValue⟩).keys = [rateKey h.providerPeer h.service "tokens"] := by
      rw [AList.keys_insert, keys]
      simp
    obtain ⟨groups', total', run, keys', known', total_eq⟩ := ih later next_keys (AList.lookup_insert _) (by rw [sum]; omega)
      (by rw [sum]; omega)
    refine ⟨groups', total', ?_, keys', known', by rw [total_eq, sum, spent, add_assoc]⟩
    rw [List.foldlM_cons, added]
    exact run

theorem groups_tokens (ofTokens : ∀ r ∈ records, OfTokens provider service r) (some_records : records ≠ [])
    (bound : tokensOf records < 2 ^ 63) :
    ∃ groups total, records.foldlM addToGroup ∅ = some groups ∧ groups.keys = [rateKey provider service "tokens"] ∧
      groups.lookup (rateKey provider service "tokens") = some ⟨provider, service, "tokens", total⟩ ∧
      total.toInt = tokensOf records := by
  cases records with
  | nil => exact absurd rfl some_records
  | cons r rest =>
    obtain ⟨undisputed, positive, h, head, rfl, rfl, metric⟩ := ofTokens r List.mem_cons_self
    have spent := tokensOf_cons r rest
    have added : addToGroup ∅ r = some (AList.insert (rateKey h.providerPeer h.service "tokens")
        ⟨h.providerPeer, h.service, "tokens", r.resolvedValue⟩ ∅) := by
      rw [addToGroup, if_neg (by simp [undisputed]), head]
      dsimp only
      rw [metric, AList.lookup_empty]
      simp
    obtain ⟨groups, total, run, keys, known, total_eq⟩ := addToGroup_tokens
      (fun r' member => ofTokens r' (List.mem_cons_of_mem _ member)) (by rw [AList.keys_insert, AList.keys_empty]; simp)
      (AList.lookup_insert ∅) positive (by omega)
    refine ⟨groups, total, ?_, keys, known, by rw [total_eq, spent]⟩
    rw [List.foldlM_cons, added]
    exact run

/-- The tokens are billed at the price of one of them. -/
theorem billed_tokens (site : Site) {rm : RateManager} (pp : PaymentProcessor) {rate : Rate}
    (ofTokens : ∀ r ∈ records, OfTokens provider service r) (bound : tokensOf records < 2 ^ 63)
    (rated : rm.getRate provider service "tokens" = .ok rate) (least : 0 ≤ rate.pricePerUnit.toInt)
    (payable : tokensOf records * rate.pricePerUnit.toInt < 2 ^ 63) :
    billedFor site rm pp records = tokensOf records * rate.pricePerUnit.toInt := by
  by_cases none : records = []
  · subst none
    have listed : (site.order (∅ : Store String PaymentGroup).keys).1 = [] :=
      List.perm_nil.mp (site.order (∅ : Store String PaymentGroup).keys).2
    have nothing : (processUsageRecords site rm pp []).2 = [] := by
      change (payGroups site rm pp ((site.order (∅ : Store String PaymentGroup).keys).1.filterMap _)).2 = []
      rw [listed]
      rfl
    rw [billedFor, nothing]
    simp [tokensOf]
  · obtain ⟨groups, total, run, keys, known, total_eq⟩ := groups_tokens ofTokens none bound
    have listed : (site.order groups.keys).1 = [rateKey provider service "tokens"] :=
      List.perm_singleton.mp (by rw [← keys]; exact (site.order groups.keys).2)
    have product_least : 0 ≤ tokensOf records * rate.pricePerUnit.toInt := Int.mul_nonneg (tokensOf_nonneg ofTokens) least
    have amount : (total * rate.pricePerUnit).toInt = tokensOf records * rate.pricePerUnit.toInt := by
      rw [Int64.toInt_mul, total_eq]
      exact Int.bmod_eq_of_le (by omega) (by omega)
    have paid : (processUsageRecords site rm pp records).2 =
        (payGroups site rm pp [⟨provider, service, "tokens", total⟩]).2 := by
      rw [processUsageRecords, run]
      dsimp only
      rw [listed, List.filterMap_cons, known]
      rfl
    rw [billedFor, paid, payGroups, rated]
    dsimp only
    split
    · rename_i nothing
      have none_due : (total * rate.pricePerUnit).toInt ≤ 0 := Int64.le_iff_toInt_le.mp nothing
      have free : tokensOf records * rate.pricePerUnit.toInt = 0 := by omega
      rw [free]
      rfl
    · split
      · simpa using amount
      · simpa [payGroups] using amount

end Billing

/-- What the clamping and the truncation do to a price. -/
theorem pricePerUnit_toInt {price : Int64} (least : 0 ≤ price.toInt) :
    (pricePerUnit price).toInt = if 0 < price.toInt ∧ price.toInt < 1000 then 1 else price.toInt / 1000 := by
  have cut : (price / 1000).toInt = price.toInt / 1000 := by
    rw [Int64.toInt_div_of_ne_right _ _ (by decide)]
    exact Int.tdiv_eq_ediv_of_nonneg least
  have same : (0 < price ∧ price < 1000) ↔ (0 < price.toInt ∧ price.toInt < 1000) := by
    rw [Int64.lt_iff_toInt_lt, Int64.lt_iff_toInt_lt]
    rfl
  rw [pricePerUnit]
  by_cases small : 0 < price.toInt ∧ price.toInt < 1000
  · rw [if_pos (same.mpr small), if_pos small]
    rfl
  · rw [if_neg (fun low => small (same.mp low)), if_neg small, cut]

section Settings

variable {provider service : String} {records : List ResolvedUsage} {settings : RateSettings} {price : Int64}

theorem billed_default (site : Site) (pp : PaymentProcessor) (ofTokens : ∀ r ∈ records, OfTokens provider service r)
    (bound : tokensOf records < 2 ^ 63) (least : 0 ≤ price.toInt) (payable : tokensOf records * price.toInt < 2 ^ 63)
    (unpriced : settings.explicitPrice provider service = none) (fallback : settings.defaultPer1000Tokens = price) :
    billedFor site settings.rateManager pp records = tokensOf records * price.toInt := by
  obtain ⟨rate, rated, unit⟩ := rateManager_tokens settings provider service
  rw [unpriced] at unit
  have same : rate.pricePerUnit = price := unit.trans fallback
  rw [← same] at least payable ⊢
  exact billed_tokens site pp ofTokens bound rated least payable

theorem billed_explicit (site : Site) (pp : PaymentProcessor) (ofTokens : ∀ r ∈ records, OfTokens provider service r)
    (bound : tokensOf records < 2 ^ 63) (least : 0 ≤ price.toInt) (payable : tokensOf records * price.toInt < 2 ^ 63)
    (priced : settings.explicitPrice provider service = some price) :
    billedFor site settings.rateManager pp records = tokensOf records * (pricePerUnit price).toInt := by
  obtain ⟨rate, rated, unit⟩ := rateManager_tokens settings provider service
  rw [priced] at unit
  have same : rate.pricePerUnit = pricePerUnit price := unit
  have tokens := tokensOf_nonneg ofTokens
  have lower : 0 ≤ (pricePerUnit price).toInt := by
    rw [pricePerUnit_toInt least]
    split <;> omega
  have upper : tokensOf records * (pricePerUnit price).toInt < 2 ^ 63 := by
    rw [pricePerUnit_toInt least]
    split
    · omega
    · have cheaper : tokensOf records * (price.toInt / 1000) ≤ tokensOf records * price.toInt :=
        Int.mul_le_mul_of_nonneg_left (by omega) tokens
      omega
  rw [← same] at lower upper ⊢
  exact billed_tokens site pp ofTokens bound rated lower upper

end Settings

/-- The amounts agree only where there is nothing to bill, or one token at a price of one. -/
theorem prices_agree {usage price : ℤ} (tokens : 0 ≤ usage) (least : 0 ≤ price) :
    (usage * price = usage * (if 0 < price ∧ price < 1000 then 1 else price / 1000) ∧ Proportional (usage * price) usage price ∧
      Proportional (usage * (if 0 < price ∧ price < 1000 then 1 else price / 1000)) usage price) ↔
      usage = 0 ∨ price = 0 ∨ usage = 1 ∧ price = 1 := by
  unfold Proportional
  constructor
  · rintro ⟨agree, close, _⟩
    by_cases unused : usage = 0
    · exact Or.inl unused
    · by_cases free : price = 0
      · exact Or.inr (Or.inl free)
      · have per_unit := Int.eq_of_mul_eq_mul_left unused agree
        by_cases small : price < 1000
        · rw [if_pos ⟨by omega, small⟩] at per_unit
          subst per_unit
          have less := (abs_lt.mp close).2
          exact Or.inr (Or.inr ⟨by omega, rfl⟩)
        · rw [if_neg (fun low => small low.2)] at per_unit
          omega
  · rintro (rfl | rfl | ⟨rfl, rfl⟩)
    · simp
    · simp
    · decide

/-- A price per 1000 tokens comes to the same as a default and as an explicit price, and to its part of the usage, only
where nothing is to be billed and for one token at a price of one: the default is taken for the price of one token. -/
theorem default_explicit_agree_iff (site : Site) (pp : PaymentProcessor) (provider service : String)
    (byDefault explicit : RateSettings) (records : List ResolvedUsage) (price : Int64) (least : 0 ≤ price.toInt)
    (unpriced : byDefault.explicitPrice provider service = none) (fallback : byDefault.defaultPer1000Tokens = price)
    (priced : explicit.explicitPrice provider service = some price) (ofTokens : ∀ r ∈ records, OfTokens provider service r)
    (bound : tokensOf records < 2 ^ 63) (payable : tokensOf records * price.toInt < 2 ^ 63) :
    (billedFor site byDefault.rateManager pp records = billedFor site explicit.rateManager pp records ∧
      Proportional (billedFor site byDefault.rateManager pp records) (tokensOf records) price.toInt ∧
      Proportional (billedFor site explicit.rateManager pp records) (tokensOf records) price.toInt) ↔
    tokensOf records = 0 ∨ price.toInt = 0 ∨ tokensOf records = 1 ∧ price.toInt = 1 := by
  rw [billed_default site pp ofTokens bound least payable unpriced fallback,
    billed_explicit site pp ofTokens bound least payable priced, pricePerUnit_toInt least]
  exact prices_agree (tokensOf_nonneg ofTokens) least

namespace Thousandfold

/-- The price as a default and as an explicit price of the worker. -/
def byDefault (price : Int64) : RateSettings := { defaultPer1000Tokens := price, defaultPerGPUMs := 1 }

def explicit (price : Int64) : RateSettings :=
  { defaultPer1000Tokens := 0, defaultPerGPUMs := 1, file := some (.parsed ⟨[⟨"worker", [⟨"llm", [⟨"tokens", price⟩]⟩]⟩]⟩) }

def used (tokens : Int64) : List ResolvedUsage :=
  [⟨some (counted "1" "worker" tokens), some (counted "1" "worker" tokens), tokens, false, 0⟩]

theorem used_ofTokens {tokens : Int64} (least : 0 ≤ tokens.toInt) : ∀ r ∈ used tokens, OfTokens "worker" "llm" r := by
  intro r member
  obtain rfl := List.mem_singleton.mp member
  exact ⟨rfl, least, _, rfl, rfl, rfl, rfl⟩

theorem explicit_price (price : Int64) : (explicit price).explicitPrice "worker" "llm" = some price := by
  have own : Triple.key ("worker", "llm", "tokens") = rateKey "worker" "llm" "tokens" := rfl
  simp [RateSettings.explicitPrice, explicit, RatesConfig.entries, lastPrice, own]

end Thousandfold

open Thousandfold in
/-- One token at a price of one. -/
theorem default_explicit_agree_one :
    billedFor ample (byDefault 1).rateManager ampleProcessor (used 1) = billedFor ample (explicit 1).rateManager ampleProcessor (used 1) ∧
      Proportional (billedFor ample (byDefault 1).rateManager ampleProcessor (used 1)) (tokensOf (used 1)) 1 ∧
      Proportional (billedFor ample (explicit 1).rateManager ampleProcessor (used 1)) (tokensOf (used 1)) 1 :=
  (default_explicit_agree_iff ample ampleProcessor "worker" "llm" (byDefault 1) (explicit 1) (used 1) 1 (by decide) rfl rfl
    (explicit_price 1) (used_ofTokens (by decide)) (by decide) (by decide)).mpr (Or.inr (Or.inr ⟨by decide, by decide⟩))

open Thousandfold in
/-- A thousand tokens at a price of 1000 come to a million by the default, and to a thousand by the explicit price. -/
theorem default_explicit_differ :
    ¬ (billedFor ample (byDefault 1000).rateManager ampleProcessor (used 1000) =
        billedFor ample (explicit 1000).rateManager ampleProcessor (used 1000) ∧
      Proportional (billedFor ample (byDefault 1000).rateManager ampleProcessor (used 1000)) (tokensOf (used 1000)) 1000 ∧
      Proportional (billedFor ample (explicit 1000).rateManager ampleProcessor (used 1000)) (tokensOf (used 1000)) 1000) := by
  have ofTokens := used_ofTokens (by decide : 0 ≤ (1000 : Int64).toInt)
  have million := billed_default ample ampleProcessor ofTokens (by decide) (by decide) (by decide)
    (rfl : (byDefault 1000).explicitPrice "worker" "llm" = none) rfl
  have thousand := billed_explicit ample ampleProcessor ofTokens (by decide) (by decide) (by decide) (explicit_price 1000)
  rintro ⟨agree, _⟩
  rw [million, thousand] at agree
  exact absurd agree (by decide)

end OpenTela.Solana
