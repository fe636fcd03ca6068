import OpenTela.Solana.Client
import Mathlib.Data.List.Nodup
import Mathlib.Data.Set.Subsingleton

namespace OpenTela.Solana

def maxRetries : ℕ := 3

/-- `GetPrivateKeyBytes` and `GetPublicKey`. -/
structure WalletManager where
  getPrivateKeyBytes : Except String PrivateKey
  getPublicKey : String

/-- Made by `NewPaymentProcessor`, which refuses any mint that is not 32 bytes long. -/
structure PaymentProcessor where
  walletMgr : WalletManager
  mintAddress : Key
  mintBase58 : String
  decimals : UInt8

structure PaymentResult where
  signature : String
  amount : Int64
  «from» : String
  «to» : String
  success : Bool
  error : Option String

/-- A look at a transaction before the deadline, and how the context stands after it. -/
structure Poll where
  status : Reply (List StatusEntry)
  done : Option String

/-- What the network does to a payment. -/
structure Faults where
  tokenAccounts : Reply (List String)
  create : Attempt
  attempt : ℕ → Attempt
  polls : List Poll

variable (c : Crypto) (pp : PaymentProcessor)

/-- What a payment needs to know of the two parties. -/
structure Parties where
  consumerKey : PrivateKey
  provider : Slice
  fromATA : Key
  toATA : Key

def parties (providerAddress : String) : Except String Parties := do
  let consumerKey ← pp.walletMgr.getPrivateKeyBytes.mapError ("get consumer wallet: " ++ ·)
  let consumer ← (c.base58 pp.walletMgr.getPublicKey).mapError ("decode consumer pubkey: " ++ ·)
  let provider ← (c.base58 providerAddress).mapError ("decode provider pubkey: " ++ ·)
  let fromATA ← (findATA c consumer.bytes pp.mintAddress.1).mapError ("derive consumer ATA: " ++ ·)
  let toATA ← (findATA c provider.bytes pp.mintAddress.1).mapError ("derive provider ATA: " ++ ·)
  return ⟨consumerKey, provider, fromATA, toATA⟩

theorem parties_eq {providerAddress : String} {key : PrivateKey} {consumer provider : Slice} {fromATA toATA : Key}
    (opened : pp.walletMgr.getPrivateKeyBytes = .ok key) (decoded : c.base58 pp.walletMgr.getPublicKey = .ok consumer)
    (decoded' : c.base58 providerAddress = .ok provider) (derived : findATA c consumer.bytes pp.mintAddress.1 = .ok fromATA)
    (derived' : findATA c provider.bytes pp.mintAddress.1 = .ok toATA) :
    parties c pp providerAddress = .ok ⟨key, provider, fromATA, toATA⟩ := by
  simp only [parties, opened, decoded, decoded', derived, derived', Except.mapError, bind, Except.bind]
  rfl

/-- Makes the provider's token account if there is none. -/
def provideATA (p : Parties) (providerAddress : String) (net : Faults) (ledger : Ledger) : Option (Except String Unit) × Ledger :=
  match hasSPLToken c providerAddress pp.mintBase58 net.tokenAccounts with
  | .error err => (some (.error ("check provider token account: " ++ err)), ledger)
  | .ok true => (some (.ok ()), ledger)
  | .ok false =>
    match createATA c p.consumerKey p.provider.bytes pp.mintAddress.1 net.create ledger with
    | (none, ledger) => (none, ledger)
    | (some (.error err), ledger) => (some (.error ("create provider ATA: " ++ err)), ledger)
    | (some (.ok _), ledger) => (some (.ok ()), ledger)

def Parties.send (p : Parties) (amount : Int64) (net : Attempt) (ledger : Ledger) : Option (Except String String) × Ledger :=
  sendSPLTransfer c p.consumerKey p.fromATA.1 p.toATA.1 pp.mintAddress.1 amount.toUInt64 pp.decimals net ledger

/-- The attempts that are left, the next of them the `attempt`-th. -/
def transferLoop (send : Attempt → Ledger → Option (Except String String) × Ledger) (attempts : ℕ → Attempt) :
    ℕ → ℕ → Except String String → Ledger → Option (Except String String) × Ledger
  | 0, _, last, ledger => (some last, ledger)
  | left + 1, attempt, _, ledger =>
    match send (attempts attempt) ledger with
    | (some (.error err), ledger) => transferLoop send attempts left (attempt + 1) (.error err) ledger
    | out => out

/-- Looks until the deadline. -/
def confirmTransaction (signature : String) : List Poll → Except String Unit
  | [] => .error ("transaction " ++ signature ++ " not confirmed within 1m0s")
  | poll :: polls =>
    match getSignatureStatus poll.status with
    | .error err => .error err
    | .ok true => .ok ()
    | .ok false =>
      match poll.done with
      | some err => .error err
      | none => confirmTransaction signature polls

/-- `none` is a run that panics. -/
def submitPayment (net : Faults) (providerAddress : String) (amount : Int64) : Option PaymentResult × Ledger :=
  let «from» := if pp.walletMgr.getPrivateKeyBytes.isOk then pp.walletMgr.getPublicKey else ""
  let result : PaymentResult := ⟨"", amount, «from», providerAddress, false, none⟩
  match parties c pp providerAddress with
  | .error err => (some { result with error := some err }, [])
  | .ok p =>
    match provideATA c pp p providerAddress net [] with
    | (none, ledger) => (none, ledger)
    | (some (.error err), ledger) => (some { result with error := some err }, ledger)
    | (some (.ok ()), ledger) =>
      match transferLoop (p.send c pp amount) net.attempt maxRetries 1 (.ok "") ledger with
      | (none, ledger) => (none, ledger)
      | (some (.error err), ledger) =>
        (some { result with error := some (s!"transfer failed after {maxRetries} attempts: " ++ err) }, ledger)
      | (some (.ok sig), ledger) =>
        match confirmTransaction sig net.polls with
        | .error err => (some { result with signature := sig, error := some ("confirmation failed: " ++ err) }, ledger)
        | .ok () => (some { result with signature := sig, success := true }, ledger)

section Ledgers

/-- A transaction that moves the amount from one token account to another. -/
def IsTransfer (amount : UInt64) (tx : List UInt8) : Prop :=
  ∃ signer source dest mint decimals blockhash msg sig,
    buildSPLTransferChecked signer source dest mint amount decimals blockhash = some msg ∧ tx = serializeTransaction sig msg

/-- At most one place of the ledger holds a transfer of the amount. -/
def AtMostOneTransfer (amount : UInt64) (ledger : Ledger) : Prop :=
  { i : ℕ | ∃ tx, ledger[i]? = some tx ∧ IsTransfer amount tx }.Subsingleton

/-- Behind `before`, the ledger holds each of these transactions once. -/
def Ledger.Adds (ledger before : Ledger) (txs : Set (List UInt8)) : Prop :=
  ∃ added, ledger = before ++ added ∧ added.Nodup ∧ ∀ tx, tx ∈ added ↔ tx ∈ txs

theorem Ledger.Adds.refl (before : Ledger) : Ledger.Adds before before ∅ := ⟨[], by simp, List.nodup_nil, by simp⟩

theorem Ledger.Adds.execute {ledger before : Ledger} {txs : Set (List UInt8)} {tx : List UInt8} (adds : ledger.Adds before txs)
    (new : tx ∉ before) : (ledger.execute tx).Adds before (insert tx txs) := by
  obtain ⟨added, rfl, nodup, members⟩ := adds
  unfold Ledger.execute
  split
  · rename_i there
    have inside := (List.mem_append.mp there).resolve_left new
    refine ⟨added, rfl, nodup, fun t => ?_⟩
    rw [Set.insert_eq_of_mem ((members tx).mp inside)]
    exact members t
  · rename_i absent
    have outside : tx ∉ added := fun inside => absent (List.mem_append_right _ inside)
    refine ⟨added ++ [tx], List.append_assoc .., ?_, fun t => ?_⟩
    · exact List.nodup_append.mpr ⟨nodup, List.nodup_singleton _, fun a inside b same => by
        rw [List.mem_singleton.mp same]
        exact ne_of_mem_of_not_mem inside outside⟩
    · simp [members, or_comm]

theorem Ledger.Adds.atMostOne_iff {ledger before : Ledger} {txs : Set (List UInt8)} {amount : UInt64} (adds : ledger.Adds before txs)
    (others : ∀ tx ∈ before, ¬ IsTransfer amount tx) (transfers : ∀ tx ∈ txs, IsTransfer amount tx) :
    AtMostOneTransfer amount ledger ↔ txs.Subsingleton := by
  obtain ⟨added, rfl, nodup, members⟩ := adds
  have behind : ∀ i tx, (before ++ added)[i]? = some tx → IsTransfer amount tx → before.length ≤ i ∧ added[i - before.length]? = some tx := by
    intro i tx at_i transfer
    have past : before.length ≤ i := by
      by_contra early
      rw [List.getElem?_append_left (by omega)] at at_i
      exact others tx (List.mem_of_getElem? at_i) transfer
    exact ⟨past, by rwa [List.getElem?_append_right past] at at_i⟩
  constructor
  · intro one tx inside tx' inside'
    obtain ⟨i, at_i⟩ := List.getElem?_of_mem ((members tx).mpr inside)
    obtain ⟨j, at_j⟩ := List.getElem?_of_mem ((members tx').mpr inside')
    have place : ∀ k, (before ++ added)[before.length + k]? = added[k]? := fun k => by
      rw [List.getElem?_append_right (by omega), Nat.add_sub_cancel_left]
    have same := one ⟨tx, (place i).trans at_i, transfers tx inside⟩ ⟨tx', (place j).trans at_j, transfers tx' inside'⟩
    rw [Nat.add_left_cancel same, at_j] at at_i
    exact (Option.some.inj at_i).symm
  · rintro single i ⟨tx, at_i, transfer⟩ j ⟨tx', at_j, transfer'⟩
    obtain ⟨past, at_i⟩ := behind i tx at_i transfer
    obtain ⟨past', at_j⟩ := behind j tx' at_j transfer'
    have same := single ((members tx).mp (List.mem_of_getElem? at_i)) ((members tx').mp (List.mem_of_getElem? at_j))
    obtain ⟨bound, _⟩ := List.getElem?_eq_some_iff.mp at_i
    have place := (List.getElem?_inj bound nodup).mp (by rw [at_i, at_j, same] : added[i - before.length]? = added[j - before.length]?)
    omega

end Ledgers

section Messages

theorem slice32_length {b h : List UInt8} (cut : slice32 b = some h) : h.length = 32 := by
  unfold slice32 at cut
  split at cut
  · cases cut
  · cases cut
    rw [List.length_take]
    omega

theorem serializeTransaction_inj {sig sig' : Signature} {msg msg' : List UInt8}
    (same : serializeTransaction sig msg = serializeTransaction sig' msg') : msg = msg' := by
  have long : ([1] ++ sig.1).length = ([1] ++ sig'.1).length := by simp [sig.2, sig'.2]
  exact (List.append_inj same long).2

theorem transfer_opcode {signer source dest mint blockhash msg : List UInt8} {amount : UInt64} {decimals : UInt8}
    (built : buildSPLTransferChecked signer source dest mint amount decimals blockhash = some msg) : msg[2]? = some 2 := by
  simp only [buildSPLTransferChecked, bind, Option.bind_eq_some_iff] at built
  obtain ⟨_, _, _, _, _, _, _, _, _, _, built⟩ := built
  cases built
  rfl

theorem createATA_opcode {payer owner mint ata blockhash msg : List UInt8}
    (built : buildCreateATAInstruction payer owner mint ata blockhash = some msg) : msg[2]? = some 5 := by
  simp only [buildCreateATAInstruction, bind, Option.bind_eq_some_iff] at built
  obtain ⟨_, _, _, _, _, _, _, _, _, _, built⟩ := built
  cases built
  rfl

theorem createATA_not_transfer {payer owner mint ata blockhash msg : List UInt8} {sig : Signature} {amount : UInt64}
    (built : buildCreateATAInstruction payer owner mint ata blockhash = some msg) :
    ¬ IsTransfer amount (serializeTransaction sig msg) := by
  rintro ⟨_, _, _, _, _, _, _, _, transfer, same⟩
  have opcode := createATA_opcode built
  rw [serializeTransaction_inj same, transfer_opcode transfer] at opcode
  cases opcode

end Messages

section Sending

variable (p : Parties) (amount : Int64)

/-- The hash an attempt works with, once cut to size. Cutting it can fail. -/
def Attempt.hash (a : Attempt) : Except String (Option (List UInt8)) :=
  (getRecentBlockhash c a.blockhash).map (fun blockhash => slice32 blockhash.reach)

/-- The attempt comes back as an error. -/
def Attempt.Fails (a : Attempt) : Prop :=
  (∃ err, a.hash c = .error err) ∨ ∃ h err, a.hash c = .ok (some h) ∧ call a.submission.reply = .error err

/-- The attempt's transaction names this hash, and the chain executes it. -/
def Attempt.Executes (a : Attempt) (h : List UInt8) : Prop := a.hash c = .ok (some h) ∧ a.submission.executed = true

def Parties.message (h : List UInt8) : List UInt8 :=
  [1, 0, 2] ++ (p.fromATA.1 ++ pp.mintAddress.1 ++ p.toATA.1 ++ p.consumerKey.pub ++ splTokenProgramID.1) ++ h ++
    [1, 4, 4, 0, 1, 2, 3, 10] ++ transferCheckedData amount.toUInt64 pp.decimals

/-- The transfer of a payment, under a blockhash. -/
def Parties.transfer (h : List UInt8) : List UInt8 :=
  serializeTransaction (c.sign p.consumerKey (p.message pp amount h)) (p.message pp amount h)

theorem Parties.build_eq (blockhash : List UInt8) :
    buildSPLTransferChecked p.consumerKey.pub p.fromATA.1 p.toATA.1 pp.mintAddress.1 amount.toUInt64 pp.decimals blockhash =
      (slice32 blockhash).map (p.message pp amount) := by
  have signer : slice32 p.consumerKey.pub = some p.consumerKey.pub :=
    slice32_key ⟨p.consumerKey.pub, by simp [PrivateKey.pub, p.consumerKey.2]⟩
  unfold buildSPLTransferChecked
  rw [signer]
  cases cut : slice32 blockhash with
  | none => simp
  | some h => simp [Parties.message]

theorem Parties.transfer_isTransfer {blockhash h : List UInt8} (cut : slice32 blockhash = some h) :
    IsTransfer amount.toUInt64 (p.transfer c pp amount h) :=
  ⟨_, _, _, _, _, blockhash, _, _, by rw [p.build_eq pp amount, cut]; rfl, rfl⟩

theorem Parties.transfer_inj {h h' : List UInt8} (long : h.length = h'.length)
    (same : p.transfer c pp amount h = p.transfer c pp amount h') : h = h' := by
  have messages := serializeTransaction_inj same
  simp only [Parties.message, List.append_assoc] at messages
  simp only [List.append_cancel_left_eq] at messages
  exact (List.append_inj messages long).1

/-- One attempt. -/
theorem Parties.send_eq (net : Attempt) (ledger : Ledger) :
    p.send c pp amount net ledger =
      match net.hash c with
      | .error err => (some (.error ("get blockhash: " ++ err)), ledger)
      | .ok none => (none, ledger)
      | .ok (some h) => (some (call net.submission.reply),
          if net.submission.executed then ledger.execute (p.transfer c pp amount h) else ledger) := by
  unfold Parties.send sendSPLTransfer Attempt.hash
  cases asked : getRecentBlockhash c net.blockhash with
  | error err => rfl
  | ok blockhash =>
    simp only [Except.map, p.build_eq pp amount]
    cases cut : slice32 blockhash.reach <;> rfl

theorem Parties.send_fails (net : Attempt) (ledger : Ledger) :
    (∃ err, (p.send c pp amount net ledger).1 = some (.error err)) ↔ net.Fails c := by
  rw [p.send_eq c pp amount]
  unfold Attempt.Fails
  cases asked : net.hash c with
  | error err => simp
  | ok cut =>
    cases cut with
    | none => simp
    | some h => simp

theorem Attempt.Executes.cut {net : Attempt} {h : List UInt8} (executes : net.Executes c h) :
    ∃ blockhash : Slice, slice32 blockhash.reach = some h := by
  obtain ⟨asked, _⟩ := executes
  unfold Attempt.hash at asked
  cases got : getRecentBlockhash c net.blockhash with
  | error err =>
    rw [got] at asked
    cases asked
  | ok blockhash =>
    rw [got] at asked
    exact ⟨blockhash, Except.ok.inj asked⟩

theorem Parties.send_adds (net : Attempt) {ledger before : Ledger} {txs : Set (List UInt8)} (adds : ledger.Adds before txs)
    (others : ∀ tx ∈ before, ¬ IsTransfer amount.toUInt64 tx) :
    (p.send c pp amount net ledger).2.Adds before (txs ∪ p.transfer c pp amount '' { h | net.Executes c h }) := by
  rw [p.send_eq c pp amount]
  by_cases executes : ∃ h, net.Executes c h
  · obtain ⟨h, executes⟩ := executes
    obtain ⟨blockhash, cut⟩ := executes.cut c
    obtain ⟨asked, accepted⟩ := executes
    have only : { h | net.Executes c h } = {h} := by
      ext h'
      simp [Attempt.Executes, asked, accepted, eq_comm]
    rw [asked, accepted, only, Set.image_singleton, Set.union_singleton]
    exact adds.execute (fun inside => others _ inside (p.transfer_isTransfer c pp amount cut))
  · have none_of : { h | net.Executes c h } = ∅ := Set.eq_empty_of_forall_notMem (fun h member => executes ⟨h, member⟩)
    rw [none_of, Set.image_empty, Set.union_empty]
    cases asked : net.hash c with
    | error err => exact adds
    | ok cut =>
      cases cut with
      | none => exact adds
      | some h =>
        have refused : net.submission.executed = false := by
          by_contra accepted
          exact executes ⟨h, asked, by simpa using accepted⟩
        simpa [refused] using adds

/-- The hashes under which the chain executes one of the next `left` attempts. An attempt is made
when all before it have failed. -/
def executedHashes (attempts : ℕ → Attempt) (left attempt : ℕ) : Set (List UInt8) :=
  { h | ∃ k, attempt ≤ k ∧ k < attempt + left ∧ (∀ j, attempt ≤ j → j < k → (attempts j).Fails c) ∧ (attempts k).Executes c h }

theorem executedHashes_zero (attempts : ℕ → Attempt) (attempt : ℕ) : executedHashes c attempts 0 attempt = ∅ := by
  refine Set.eq_empty_of_forall_notMem ?_
  rintro h ⟨k, past, before, _⟩
  omega

theorem executedHashes_stop {attempts : ℕ → Attempt} {attempt : ℕ} (left : ℕ) (stops : ¬ (attempts attempt).Fails c) :
    executedHashes c attempts (left + 1) attempt = { h | (attempts attempt).Executes c h } := by
  ext h
  constructor
  · rintro ⟨k, past, _, failed, executes⟩
    rcases past.lt_or_eq with later | rfl
    · exact (stops (failed attempt le_rfl later)).elim
    · exact executes
  · intro executes
    exact ⟨attempt, le_rfl, by omega, fun j past before => by omega, executes⟩

theorem executedHashes_next {attempts : ℕ → Attempt} {attempt : ℕ} (left : ℕ) (fails : (attempts attempt).Fails c) :
    executedHashes c attempts (left + 1) attempt =
      { h | (attempts attempt).Executes c h } ∪ executedHashes c attempts left (attempt + 1) := by
  ext h
  constructor
  · rintro ⟨k, past, bound, failed, executes⟩
    rcases past.lt_or_eq with later | rfl
    · exact .inr ⟨k, later, by omega, fun j past => failed j (by omega), executes⟩
    · exact .inl executes
  · rintro (executes | ⟨k, past, bound, failed, executes⟩)
    · exact ⟨attempt, le_rfl, by omega, fun j past before => by omega, executes⟩
    · refine ⟨k, by omega, by omega, fun j past before => ?_, executes⟩
      rcases past.lt_or_eq with later | rfl
      · exact failed j later before
      · exact fails

theorem transferLoop_adds (attempts : ℕ → Attempt) {before : Ledger} (others : ∀ tx ∈ before, ¬ IsTransfer amount.toUInt64 tx)
    (left attempt : ℕ) (last : Except String String) {ledger : Ledger} {txs : Set (List UInt8)} (adds : ledger.Adds before txs) :
    (transferLoop (p.send c pp amount) attempts left attempt last ledger).2.Adds before
      (txs ∪ p.transfer c pp amount '' executedHashes c attempts left attempt) := by
  induction left generalizing attempt last ledger txs with
  | zero =>
    rw [executedHashes_zero, Set.image_empty, Set.union_empty]
    exact adds
  | succ left ih =>
    have adds' := p.send_adds c pp amount (attempts attempt) adds others
    have verdict := p.send_fails c pp amount (attempts attempt) ledger
    unfold transferLoop
    split
    · rename_i err ledger' sent
      rw [sent] at adds' verdict
      rw [executedHashes_next c left (verdict.mp ⟨err, rfl⟩), Set.image_union, ← Set.union_assoc]
      exact ih (attempt + 1) (.error err) adds'
    · rename_i stopped
      have stops : ¬ (attempts attempt).Fails c := fun fails => by
        obtain ⟨err, failed⟩ := verdict.mpr fails
        exact stopped err _ (Prod.ext failed rfl)
      rw [executedHashes_stop c left stops]
      exact adds'

/-- What makes the provider's account is no transfer. -/
theorem provideATA_others (providerAddress : String) (net : Faults) :
    ∀ tx ∈ (provideATA c pp p providerAddress net []).2, ¬ IsTransfer amount.toUInt64 tx := by
  have created : ∀ tx ∈ (createATA c p.consumerKey p.provider.bytes pp.mintAddress.1 net.create []).2, ¬ IsTransfer amount.toUInt64 tx := by
    unfold createATA
    split
    · simp
    · split
      · simp
      · rename_i ata _ _ blockhash _
        cases built : buildCreateATAInstruction p.consumerKey.pub p.provider.bytes pp.mintAddress.1 ata.1 blockhash.reach with
        | none => simp [signAndSend]
        | some msg =>
          intro tx member
          simp only [signAndSend, Ledger.execute, List.not_mem_nil, if_false, List.nil_append] at member
          split at member
          · rw [List.mem_singleton.mp member]
            exact createATA_not_transfer built
          · cases member
  unfold provideATA
  split
  · simp
  · simp
  · split
    all_goals
      rename_i sent
      rw [sent] at created
      exact created

end Sending

/-- The calls before the first transfer go well: the wallet opens, the addresses are addresses, and
the provider has a token account or gets one. -/
def Ready (net : Faults) (providerAddress : String) : Prop :=
  ∃ p, parties c pp providerAddress = .ok p ∧ (provideATA c pp p providerAddress net []).1 = some (.ok ())

theorem submitPayment_ledger (net : Faults) (providerAddress : String) (amount : Int64) :
    (∃ p, parties c pp providerAddress = .ok p ∧ (provideATA c pp p providerAddress net []).1 = some (.ok ()) ∧
      (submitPayment c pp net providerAddress amount).2 =
        (transferLoop (p.send c pp amount) net.attempt maxRetries 1 (.ok "") (provideATA c pp p providerAddress net []).2).2) ∨
    ¬ Ready c pp net providerAddress ∧ ∀ tx ∈ (submitPayment c pp net providerAddress amount).2, ¬ IsTransfer amount.toUInt64 tx := by
  unfold submitPayment Ready
  cases found : parties c pp providerAddress with
  | error err => exact .inr (by simp)
  | ok p =>
    have others := provideATA_others c pp p amount providerAddress net
    dsimp only
    cases provided : provideATA c pp p providerAddress net [] with
    | mk out ledger =>
      rw [provided] at others
      match out with
      | none => exact .inr ⟨by simp [provided], others⟩
      | some (.error err) => exact .inr ⟨by simp [provided], others⟩
      | some (.ok ()) =>
        refine .inl ⟨p, rfl, by rw [provided], ?_⟩
        rw [provided]
        dsimp only
        cases sent : transferLoop (p.send c pp amount) net.attempt maxRetries 1 (.ok "") ledger with
        | mk out ledger =>
          match out with
          | none => rfl
          | some (.error err) => rfl
          | some (.ok sig) =>
            dsimp only
            split <;> rfl

theorem ready_atMostOne_iff {net : Faults} {providerAddress : String} {amount : Int64} (ready : Ready c pp net providerAddress) :
    AtMostOneTransfer amount.toUInt64 (submitPayment c pp net providerAddress amount).2 ↔
      (executedHashes c net.attempt maxRetries 1).Subsingleton := by
  obtain ⟨p, _, _, ledger⟩ := (submitPayment_ledger c pp net providerAddress amount).resolve_right (fun unready => unready.1 ready)
  have others := provideATA_others c pp p amount providerAddress net
  have adds := transferLoop_adds c pp p amount net.attempt others maxRetries 1 (.ok "") (Ledger.Adds.refl _)
  rw [Set.empty_union] at adds
  have cut : ∀ h ∈ executedHashes c net.attempt maxRetries 1, ∃ blockhash : Slice, slice32 blockhash.reach = some h :=
    fun h ⟨_, _, _, _, executes⟩ => executes.cut c
  have transfers : ∀ tx ∈ p.transfer c pp amount '' executedHashes c net.attempt maxRetries 1, IsTransfer amount.toUInt64 tx := by
    rintro _ ⟨h, member, rfl⟩
    obtain ⟨blockhash, cut⟩ := cut h member
    exact p.transfer_isTransfer c pp amount cut
  rw [ledger, adds.atMostOne_iff others transfers]
  constructor
  · intro single h member h' member'
    obtain ⟨_, cut₁⟩ := cut h member
    obtain ⟨_, cut₂⟩ := cut h' member'
    exact p.transfer_inj c pp amount (by rw [slice32_length cut₁, slice32_length cut₂]) (single ⟨h, member, rfl⟩ ⟨h', member', rfl⟩)
  · exact fun single => single.image _

/-- A payment is made at most once if and only if the chain does not execute two of its
attempts, each made after all before it have failed, under different blockhashes. -/
theorem payment_at_most_once (net : Faults) (providerAddress : String) (amount : Int64) :
    AtMostOneTransfer amount.toUInt64 (submitPayment c pp net providerAddress amount).2 ↔
      (Ready c pp net providerAddress → (executedHashes c net.attempt maxRetries 1).Subsingleton) := by
  by_cases ready : Ready c pp net providerAddress
  · rw [ready_atMostOne_iff c pp ready]
    exact ⟨fun single _ => single, fun single => single ready⟩
  · rcases submitPayment_ledger c pp net providerAddress amount with ⟨p, found, provided, _⟩ | ⟨_, others⟩
    · exact (ready ⟨p, found, provided⟩).elim
    · rw [(Ledger.Adds.refl (submitPayment c pp net providerAddress amount).2).atMostOne_iff others (by simp)]
      exact ⟨fun _ held => (ready held).elim, fun _ => Set.subsingleton_empty⟩

section Lost

def decodeBase58 (s : String) : Except String Slice :=
  match base58Decode s with
  | some bs => .ok ⟨bs, []⟩
  | none => .error "invalid base58 digit"

theorem decodeBase58_ok {s : String} {bs : List UInt8} (decoded : base58Decode s = some bs) : decodeBase58 s = .ok ⟨bs, []⟩ := by
  rw [decodeBase58, decoded]

/-- The key pair of the seed of zeros. -/
def zeroKey : PrivateKey :=
  ⟨List.replicate 32 0 ++
    [59, 106, 39, 188, 206, 182, 164, 45, 98, 163, 168, 208, 42, 111, 13, 115, 101, 50, 21, 119, 29, 226, 67, 166, 58, 192, 72, 161,
      139, 89, 218, 41], by decide⟩

def zeroProcessor : PaymentProcessor where
  walletMgr := ⟨.ok zeroKey, "4zvwRjXUKGfvwnParsHAS3HuSVzV5cA4McphgmoCtajS"⟩
  mintAddress := ⟨[151, 7, 63, 13, 219, 211, 122, 229, 124, 199, 231, 228, 159, 69, 49, 215, 204, 220, 106, 147, 136, 126, 1, 80, 141, 123,
    75, 170, 17, 26, 78, 127], rfl⟩
  mintBase58 := "BAYyKYocgUgWHcs25Sar15x9XY9iYdtnKurBoVXJD1bU"
  decimals := 9

theorem zeroKey_wallet : decodeBase58 "4zvwRjXUKGfvwnParsHAS3HuSVzV5cA4McphgmoCtajS" = .ok ⟨zeroKey.pub, []⟩ :=
  decodeBase58_ok (by decide +kernel)

theorem zeroProcessor_mint : decodeBase58 zeroProcessor.mintBase58 = .ok ⟨zeroProcessor.mintAddress.1, []⟩ :=
  decodeBase58_ok (by decide +kernel)

/-- The first transfer is executed, but word of it is lost. -/
def lostReply : Faults where
  tokenAccounts := .result ["5"]
  create := ⟨.lost "", ⟨false, .lost ""⟩⟩
  attempt k :=
    if k = 1 then ⟨.result "4vJ9JU1bJJE96FWSJKvHsmmFADCg4gpZQff4P3bkLKi", true, .lost "context deadline exceeded"⟩
    else ⟨.result "8qbHbw2BbbTHBW1sbeqakYXVKRQM8Ne7pLK7m6CVfeR", true, .result "sent"⟩
  polls := [⟨.result [.status "finalized" none], none⟩]

theorem executes_repeated {c : Crypto} (plain : c.base58 = decodeBase58) {hash : String} {b : UInt8} {reply : Reply String}
    (decoded : base58Decode hash = some (repeated b).1) : Attempt.Executes c ⟨.result hash, true, reply⟩ (repeated b).1 := by
  refine ⟨?_, rfl⟩
  simp [Attempt.hash, getRecentBlockhash, call, plain, decodeBase58, decoded, bind, Except.bind, Except.mapError, Except.map, Slice.reach]

/-- The second attempt has another blockhash, and the chain executes it too. -/
theorem payment_twice :
    ¬ ∃ sha256 sign, AtMostOneTransfer (1000 : Int64).toUInt64
      (submitPayment ⟨decodeBase58, sha256, sign⟩ zeroProcessor lostReply "CktRuQ2mttgRGkXJtyksdKHjUdc2C4TgDzyB98oEzy8" 1000).2 := by
  rintro ⟨sha256, sign, once⟩
  have provider : decodeBase58 "CktRuQ2mttgRGkXJtyksdKHjUdc2C4TgDzyB98oEzy8" = .ok ⟨(repeated 3).1, []⟩ :=
    decodeBase58_ok (by decide +kernel)
  have ready : Ready ⟨decodeBase58, sha256, sign⟩ zeroProcessor lostReply "CktRuQ2mttgRGkXJtyksdKHjUdc2C4TgDzyB98oEzy8" := by
    obtain ⟨fromATA, derived⟩ := findATA_key ⟨decodeBase58, sha256, sign⟩ ⟨zeroKey.pub, by decide⟩ zeroProcessor.mintAddress
    obtain ⟨toATA, derived'⟩ := findATA_key ⟨decodeBase58, sha256, sign⟩ (repeated 3) zeroProcessor.mintAddress
    have held : hasSPLToken ⟨decodeBase58, sha256, sign⟩ "CktRuQ2mttgRGkXJtyksdKHjUdc2C4TgDzyB98oEzy8" zeroProcessor.mintBase58
        lostReply.tokenAccounts = .ok true := by
      have some_left : (["5"].any (fun amount => amount ≠ "" && (setString amount).any (0 < ·))) = true := by decide +kernel
      simp only [hasSPLToken, provider, zeroProcessor_mint, lostReply, call, Except.mapError, bind, Except.bind, some_left]
      rfl
    exact ⟨_, parties_eq _ _ rfl zeroKey_wallet provider derived derived', by rw [provideATA, held]⟩
  have first : Attempt.Executes ⟨decodeBase58, sha256, sign⟩ (lostReply.attempt 1) (repeated 1).1 :=
    executes_repeated rfl (by decide +kernel)
  have second : Attempt.Executes ⟨decodeBase58, sha256, sign⟩ (lostReply.attempt 2) (repeated 2).1 :=
    executes_repeated rfl (by decide +kernel)
  have failed : (lostReply.attempt 1).Fails ⟨decodeBase58, sha256, sign⟩ := .inr ⟨_, _, first.1, rfl⟩
  have same := (ready_atMostOne_iff _ _ ready).mp once ⟨1, le_rfl, by decide, fun j past before => by omega, first⟩
    ⟨2, by omega, by decide, fun j past before => by rwa [show j = 1 by omega], second⟩
  revert same
  decide

end Lost

end OpenTela.Solana
