import OpenTela.Lib.Batch
import OpenTela.Solana.Payments
import OpenTela.Usage.Reconciler

namespace OpenTela.Solana

open Usage

def defaultMintAddress : String := "BAYyKYocgUgWHcs25Sar15x9XY9iYdtnKurBoVXJD1bU"

def defaultDecimals : Int64 := 9

structure Rate where
  providerAddress : String
  service : String
  metricName : String
  pricePerUnit : Int64

structure RateManager where
  rates : Store String Rate
  defaultTokenRate : Int64
  defaultGPUMsRate : Int64

def rateKey (provider service metric : String) : String := provider ++ ":" ++ service ++ ":" ++ metric

def RateManager.getRate (rm : RateManager) (provider service metric : String) : Except String Rate :=
  match rm.rates.lookup (rateKey provider service metric) with
  | some r => .ok r
  | none =>
    if metric = "tokens" then .ok ⟨provider, service, metric, rm.defaultTokenRate⟩
    else if metric = "gpu_ms" then .ok ⟨provider, service, metric, rm.defaultGPUMsRate⟩
    else .error s!"no rate found for {provider}/{service}/{metric} and no default for metric \"{metric}\""

/-- The amount that `fmt.Sscanf` reads with `%d`. What follows the digits is not looked at. -/
def scanInt (s : String) : Except String Int64 :=
  let isSpace (ch : Char) : Bool :=
    [0x9, 0xb, 0xc, 0xd, 0x20, 0x85, 0xa0, 0x1680, 0x2028, 0x2029, 0x202f, 0x205f, 0x3000].contains ch.toNat ||
      (0x2000 ≤ ch.toNat && ch.toNat ≤ 0x200a)
  let scanNumber (sign : ℤ) : List Char → Except String Int64
    | [] => .error "unexpected EOF"
    | cs =>
      match cs.takeWhile Char.isDigit with
      | [] => .error "expected integer"
      | digits =>
        let n := sign * (digits.foldl (fun n d => 10 * n + (d.toNat - 48)) 0 : ℕ)
        if -2 ^ 63 ≤ n ∧ n < 2 ^ 63 then .ok (Int64.ofInt n) else .error "value out of range"
  match s.toList.dropWhile isSpace with
  | '\n' :: _ => .error "unexpected newline"
  | '-' :: cs => scanNumber (-1) cs
  | '+' :: cs => scanNumber 1 cs
  | cs => scanNumber 1 cs

structure PaymentGroup where
  providerAddress : String
  service : String
  metricName : String
  totalValue : Int64

/-- What is around a settlement: the settings, the wallet, the order in which Go goes through a map,
and what the network does. -/
structure Site where
  crypto : Crypto
  enabled : Bool
  walletMgr : Except String WalletManager
  mintAddr : String
  decimals : Int64
  balance : Reply (List String)
  order : (keys : List String) → { ks : List String // ks.Perm keys }
  net : PaymentGroup → Faults

variable (site : Site) (rm : RateManager)

/-- `NewPaymentProcessor`. -/
def newPaymentProcessor (walletMgr : WalletManager) (mintAddress : String) (decimals : UInt8) : Except String PaymentProcessor :=
  match site.crypto.base58 mintAddress with
  | .error err => .error ("invalid mint address: " ++ err)
  | .ok mint =>
    if long : mint.bytes.length = 32 then .ok ⟨walletMgr, ⟨mint.bytes, long⟩, mintAddress, decimals⟩
    else .error s!"mint address must be 32 bytes, got {mint.bytes.length}"

def verifyBalance (pp : PaymentProcessor) (address : String) (requiredAmount : Int64) : Except String Bool := do
  let rawAmount ← getTokenBalance site.crypto address pp.mintBase58 site.balance
  let balance ← (scanInt rawAmount).mapError ("parse token balance: " ++ ·)
  return requiredAmount ≤ balance

/-- Puts a record into its group. The log line about a disputed one reads both of its halves. -/
def addToGroup (groups : Store String PaymentGroup) (r : ResolvedUsage) : Option (Store String PaymentGroup) :=
  if r.disputed then
    match r.headRecord, r.workerRecord with
    | some _, some _ => some groups
    | _, _ => none
  else
    match r.headRecord with
    | none => some groups
    | some h =>
      let key := rateKey h.providerPeer h.service h.metricName
      let g := (groups.lookup key).getD ⟨h.providerPeer, h.service, h.metricName, 0⟩
      some (groups.insert key { g with totalValue := g.totalValue + r.resolvedValue })

/-- The results of paying the groups, and what was submitted for each. -/
def payGroups (pp : PaymentProcessor) : List PaymentGroup → Option (List PaymentResult) × List (PaymentGroup × Int64)
  | [] => (some [], [])
  | g :: gs =>
    match rm.getRate g.providerAddress g.service g.metricName with
    | .error err =>
      let rest := payGroups pp gs
      (rest.1.map (⟨"", 0, "", g.providerAddress, false, some ("rate lookup: " ++ err)⟩ :: ·), rest.2)
    | .ok rate =>
      let amount := g.totalValue * rate.pricePerUnit
      if amount ≤ 0 then payGroups pp gs
      else
        match (submitPayment site.crypto pp (site.net g) g.providerAddress amount).1 with
        | none => (none, [(g, amount)])
        | some result =>
          let rest := payGroups pp gs
          (rest.1.map (result :: ·), (g, amount) :: rest.2)

def processUsageRecords (pp : PaymentProcessor) (records : List ResolvedUsage) :
    Option (List PaymentResult) × List (PaymentGroup × Int64) :=
  match records.foldlM addToGroup ∅ with
  | none => (none, [])
  | some groups => payGroups site rm pp ((site.order groups.keys).1.filterMap (fun key => groups.lookup key))

def addEstimate (total : Int64) (r : ResolvedUsage) : Int64 :=
  if r.disputed then total
  else
    match r.headRecord with
    | none => total
    | some h =>
      match rm.getRate h.providerPeer h.service h.metricName with
      | .error _ => total
      | .ok rate => total + r.resolvedValue * rate.pricePerUnit

/-- What a settlement comes to: the amount the balance was checked for, what was submitted, and the
answer, which is missing after a panic. -/
structure Settlement where
  checked : Option Int64
  submitted : List (PaymentGroup × Int64)
  answer : Option (Except String String)

/-- The signatures, or the errors when there are no signatures. -/
def summary (results : List PaymentResult) : Except String String :=
  let signatures := (results.filter (·.success)).map (·.signature)
  let errors := (results.filter (!·.success)).filterMap (·.error)
  if signatures = [] ∧ errors ≠ [] then .error ("all payments failed: " ++ "; ".intercalate errors)
  else .ok (",".intercalate signatures)

def processPayments (checked : Option Int64) (pp : PaymentProcessor) (records : List ResolvedUsage) : Settlement :=
  let out := processUsageRecords site rm pp records
  ⟨checked, out.2, out.1.map summary⟩

def submitSettlement (records : List ResolvedUsage) : Settlement :=
  if !site.enabled ∨ records = [] then ⟨none, [], some (.ok "")⟩
  else
    match site.walletMgr with
    | .error err => ⟨none, [], some (.error ("initialize wallet: " ++ err))⟩
    | .ok walletMgr =>
      let mintAddr := if site.mintAddr = "" then defaultMintAddress else site.mintAddr
      let decimals := if site.decimals = 0 then defaultDecimals else site.decimals
      match newPaymentProcessor site walletMgr mintAddr decimals.toUInt64.toUInt8 with
      | .error err => ⟨none, [], some (.error ("create payment processor: " ++ err))⟩
      | .ok pp =>
        let total := records.foldl (addEstimate rm) 0
        if 0 < total then
          match verifyBalance site pp walletMgr.getPublicKey total with
          | .error err => ⟨some total, [], some (.error ("verify balance: " ++ err))⟩
          | .ok false =>
            ⟨some total, [], some (.error s!"insufficient OTELA balance for settlement (need ~{total} base units)")⟩
          | .ok true => processPayments site rm (some total) pp records
        else processPayments site rm none pp records

end OpenTela.Solana
