import OpenTela.Lib.Totals
import OpenTela.Rewards.Effects
import Mathlib.Algebra.BigOperators.Ring.Finset

namespace OpenTela.Rewards

/-- What anybody can do with the token programs. -/
inductive TokenOp where
  | createMint (a : Solana.Key) (m : Mint)
  | createToken (a owner mint : Address) (program : TokenProgram)
  | mintTo (mint dest : Address) (amount : UInt64)
  | transfer (program : TokenProgram) (source mint dest authority : Address) (amount : UInt64) (decimals : UInt8)
  | setOwner (a owner : Address)
  | burn (a : Address) (amount : UInt64)

inductive Call where
  | initializeCampaign (ctx : InitializeCampaign) (rewardPerUnit : UInt64) (headAuthority : Solana.Key)
  | setRewardRate (ctx : UpdateCampaign) (rewardPerUnit : UInt64)
  | setHeadAuthority (ctx : UpdateCampaign) (headAuthority : Solana.Key)
  | setPaused (ctx : UpdateCampaign) (paused : Bool)
  | claimReward (ctx : ClaimReward) (requestId serviceHash : Solana.Key) (units rewardPerUnit : UInt64)
  | withdrawUnclaimed (ctx : WithdrawUnclaimed) (amount : UInt64)
  | tokens (op : TokenOp)

/-- What has happened: a claim, with the campaign as it was before; a withdrawal; tokens that came
to an account from outside. -/
inductive Event where
  | claimed (r : ClaimReceipt) (before : RewardCampaign)
  | withdrew (campaign : Address) (amount : UInt64)
  | deposited (account : Address) (amount : UInt64)

structure World where
  accounts : Accounts
  log : List Event

section Steps

variable (rt : Runtime) (signers : List Solana.Key)

def Address.isKey : Address → Bool
  | .key _ => true
  | _ => false

def tokenOp (w : Accounts) : TokenOp → Except ProgramError (Accounts × List Event)
  | .createMint a m => do
    require (w.lookup (.key a) = none) .accountAlreadyInUse
    return (w.insert (.key a) (.mint m), [])
  | .createToken a owner mint program => do
    require (a.isKey ∨ a = .associated owner mint program) .constraintAssociated
    let w ← createToken w a owner mint program
    return (w, [])
  | .mintTo mint dest amount => do
    let m ← loadMint w mint
    let authority ← okOr .fixedSupply m.authority
    require (Signed signers authority) .accountNotSigner
    let d ← loadToken w dest
    require (d.mint = mint) .constraintTokenMint
    let credited ← okOr .overflow (checkedAdd d.amount amount)
    return (w.insert dest (.token { d with amount := credited }), [.deposited dest amount])
  | .transfer program source mint dest authority amount decimals => do
    require (Signed signers authority) .accountNotSigner
    let w ← transferChecked w program source mint dest authority amount decimals
    return (w, if source = dest then [] else [.deposited dest amount])
  | .setOwner a owner => do
    let t ← loadToken w a
    require (Signed signers t.owner) .accountNotSigner
    return (w.insert a (.token { t with owner }), [])
  | .burn a amount => do
    let t ← loadToken w a
    require (Signed signers t.owner) .accountNotSigner
    require (amount ≤ t.amount) .insufficientFunds
    return (w.insert a (.token { t with amount := t.amount - amount }), [])

/-- A claim that has gone through, read off the accounts before and after it. -/
def claimEvents (ctx : ClaimReward) (w w' : Accounts) : List Event :=
  match w.lookup ctx.campaign, w'.lookup ctx.claim with
  | some (.campaign before), some (.claim r) => [.claimed r before]
  | _, _ => []

def call (w : Accounts) : Call → Except ProgramError (Accounts × List Event)
  | .initializeCampaign ctx rewardPerUnit headAuthority => do
    let w ← initializeCampaign rt signers w ctx rewardPerUnit headAuthority
    return (w, [])
  | .setRewardRate ctx rewardPerUnit => do
    let w ← setRewardRate signers w ctx rewardPerUnit
    return (w, [])
  | .setHeadAuthority ctx headAuthority => do
    let w ← setHeadAuthority signers w ctx headAuthority
    return (w, [])
  | .setPaused ctx paused => do
    let w ← setPaused signers w ctx paused
    return (w, [])
  | .claimReward ctx requestId serviceHash units rewardPerUnit => do
    let w' ← claimReward rt signers w ctx requestId serviceHash units rewardPerUnit
    return (w', claimEvents ctx w w')
  | .withdrawUnclaimed ctx amount => do
    let w ← withdrawUnclaimed rt signers w ctx amount
    return (w, [.withdrew ctx.campaign amount])
  | .tokens op => tokenOp signers w op

end Steps

structure Step where
  now : Int64
  signers : List Solana.Key
  call : Call

/-- A call that fails leaves everything as it was. -/
def World.step (rt : Runtime) (w : World) (s : Step) : World :=
  match call { rt with now := s.now } s.signers w.accounts s.call with
  | .ok (accounts, events) => ⟨accounts, events ++ w.log⟩
  | .error _ => w

def World.empty : World := ⟨∅, []⟩

def World.run (rt : Runtime) (steps : List Step) : World := steps.foldl (World.step rt) .empty

section Tallies

/-- The receipt in an account, if it is one of the campaign. -/
def Account.receiptOf (campaign : Address) : Account → Option ClaimReceipt
  | .claim r => if r.campaign = campaign then some r else none
  | _ => none

def World.receipts (w : World) (campaign : Address) : List ClaimReceipt :=
  w.accounts.entries.filterMap (fun e => e.2.receiptOf campaign)

/-- A sum over the receipts of a campaign. -/
def tally (f : ClaimReceipt → ℤ) (campaign : Address) (w : Accounts) : ℤ :=
  Store.total (fun account => (account.receiptOf campaign).elim 0 f) w

theorem sum_receipts (f : ClaimReceipt → ℤ) (w : World) (campaign : Address) :
    ((w.receipts campaign).map f).sum = tally f campaign w.accounts := by
  rw [World.receipts, List.sum_filterMap]
  rfl

def Event.withdrawnFrom (campaign : Address) : Event → ℕ
  | .withdrew a amount => if a = campaign then amount.toNat else 0
  | _ => 0

def Event.depositedTo (account : Address) : Event → ℕ
  | .deposited a amount => if a = account then amount.toNat else 0
  | _ => 0

def Event.request : Event → Option (Address × Solana.Key)
  | .claimed r _ => some (r.campaign, r.requestId)
  | _ => none

def withdrawn (log : List Event) (campaign : Address) : ℕ := (log.map (Event.withdrawnFrom campaign)).sum

def deposited (log : List Event) (account : Address) : ℕ := (log.map (Event.depositedTo account)).sum

theorem withdrawn_append (log log' : List Event) (a : Address) : withdrawn (log ++ log') a = withdrawn log a + withdrawn log' a := by
  simp [withdrawn]

theorem deposited_append (log log' : List Event) (v : Address) : deposited (log ++ log') v = deposited log v + deposited log' v := by
  simp [deposited]

theorem withdrawn_withdrew (log : List Event) (campaign : Address) (amount : UInt64) (a : Address) :
    withdrawn (.withdrew campaign amount :: log) a = (if campaign = a then amount.toNat else 0) + withdrawn log a := by
  simp [withdrawn, Event.withdrawnFrom]

@[simp] theorem withdrawn_claimed (log : List Event) (r : ClaimReceipt) (before : RewardCampaign) (a : Address) :
    withdrawn (.claimed r before :: log) a = withdrawn log a := by
  simp [withdrawn, Event.withdrawnFrom]

@[simp] theorem deposited_withdrew (log : List Event) (campaign : Address) (amount : UInt64) (v : Address) :
    deposited (.withdrew campaign amount :: log) v = deposited log v := by
  simp [deposited, Event.depositedTo]

@[simp] theorem deposited_claimed (log : List Event) (r : ClaimReceipt) (before : RewardCampaign) (v : Address) :
    deposited (.claimed r before :: log) v = deposited log v := by
  simp [deposited, Event.depositedTo]

end Tallies

/-- The books of a campaign are in order. -/
structure Standing (w : World) (a : Address) (c : RewardCampaign) : Prop where
  signer : ∃ k, c.authority = .key k
  claims : (c.totalClaims.toNat : ℤ) = tally (fun _ => 1) a w.accounts
  paid : (c.totalPaid.toNat : ℤ) = tally (fun r => r.amount.toNat) a w.accounts
  authority : c.vaultAuthority = .vaultAuthority a
  vault : ∃ program t, c.vault = .associated (.vaultAuthority a) c.rewardMint program ∧ w.accounts.lookup c.vault = some (.token t) ∧
    t.owner = .vaultAuthority a ∧ t.amount.toNat + c.totalPaid.toNat + withdrawn w.log a = deposited w.log c.vault

structure Sound (w : World) : Prop where
  standing : ∀ a c, w.accounts.lookup a = some (.campaign c) → Standing w a c
  claim : ∀ x r, w.accounts.lookup x = some (.claim r) → x = .claim r.campaign r.requestId ∧ ∃ before, .claimed r before ∈ w.log
  unopened : ∀ a, (∀ c, w.accounts.lookup a ≠ some (.campaign c)) → (∀ f, tally f a w.accounts = 0) ∧ withdrawn w.log a = 0
  untouched : ∀ v, w.accounts.lookup v = none → deposited w.log v = 0
  logged : ∀ r before, .claimed r before ∈ w.log → r.amount.toNat = r.units.toNat * before.rewardPerUnit.toNat ∧ before.paused = false ∧
    w.accounts.lookup (.claim r.campaign r.requestId) ≠ none
  once : (w.log.filterMap Event.request).Nodup

/-- The books of a campaign stay in order where its receipts, its vault and the log about them are as before. -/
theorem Standing.carry {w w' : World} {a : Address} {c : RewardCampaign} (standing : Standing w a c)
    (sums : ∀ f, tally f a w'.accounts = tally f a w.accounts) (vault : w'.accounts.lookup c.vault = w.accounts.lookup c.vault)
    (drawn : withdrawn w'.log a = withdrawn w.log a) (came : deposited w'.log c.vault = deposited w.log c.vault) : Standing w' a c where
  signer := standing.signer
  claims := by rw [standing.claims, sums]
  paid := by rw [standing.paid, sums]
  authority := standing.authority
  vault := by
    obtain ⟨program, t, placed, lives, owner, balance⟩ := standing.vault
    exact ⟨program, t, placed, vault.trans lives, owner, by rw [drawn, came, balance]⟩

theorem Sound.empty : Sound .empty where
  standing a c found := by simp [World.empty] at found
  claim x r found := by simp [World.empty] at found
  unopened a _ := ⟨fun f => rfl, rfl⟩
  untouched v _ := rfl
  logged r before member := by simp [World.empty] at member
  once := List.nodup_nil

/-- What is not a receipt counts for nothing. -/
theorem tally_insert {accounts : Accounts} {x a : Address} {new : Account} (f : ClaimReceipt → ℤ) (fresh : new.receiptOf a = none)
    (old : ∀ known, accounts.lookup x = some known → known.receiptOf a = none) :
    tally f a (accounts.insert x new) = tally f a accounts := by
  have before : Store.weight (fun account => (account.receiptOf a).elim 0 f) accounts x = 0 := by
    unfold Store.weight
    cases found : accounts.lookup x with
    | none => rfl
    | some known => rw [Option.elim_some, old known found, Option.elim_none]
  rw [tally, Store.total_insert, before, fresh, Option.elim_none, sub_zero, zero_add, tally]

section Quiet

/-- The accounts of the campaigns and of the claims are the same, and no account is gone. -/
structure Quiet (w w' : Accounts) : Prop where
  campaign : ∀ a c, w'.lookup a = some (.campaign c) ↔ w.lookup a = some (.campaign c)
  claim : ∀ x r, w'.lookup x = some (.claim r) ↔ w.lookup x = some (.claim r)
  sums : ∀ f a, tally f a w' = tally f a w
  kept : ∀ a, w'.lookup a = none → w.lookup a = none

theorem Quiet.refl (w : Accounts) : Quiet w w := ⟨fun _ _ => .rfl, fun _ _ => .rfl, fun _ _ => rfl, fun _ => id⟩

theorem Quiet.trans {w w' w'' : Accounts} (first : Quiet w w') (second : Quiet w' w'') : Quiet w w'' where
  campaign a c := (second.campaign a c).trans (first.campaign a c)
  claim x r := (second.claim x r).trans (first.claim x r)
  sums f a := (second.sums f a).trans (first.sums f a)
  kept a gone := first.kept a (second.kept a gone)

/-- Mints and token accounts. -/
def Account.plain : Account → Bool
  | .mint _ => true
  | .token _ => true
  | _ => false

/-- Where a plain account is written over a plain one, the accounts that are not plain are the same. -/
theorem lookup_insert_plain {w : Accounts} {a x : Address} {account other : Account} (new : account.plain = true)
    (old : ∀ known, w.lookup a = some known → known.plain = true) (special : other.plain = false) :
    (w.insert a account).lookup x = some other ↔ w.lookup x = some other := by
  by_cases same : x = a
  · subst same
    rw [AList.lookup_insert]
    refine iff_of_false (fun found => ?_) (fun found => ?_)
    · rw [Option.some.inj found, special] at new
      cases new
    · rw [old _ found] at special
      cases special
  · rw [AList.lookup_insert_ne same]

theorem Quiet.insert {w : Accounts} {a : Address} {account : Account} (new : account.plain = true)
    (old : ∀ known, w.lookup a = some known → known.plain = true) : Quiet w (w.insert a account) where
  campaign _ _ := lookup_insert_plain new old rfl
  claim _ _ := lookup_insert_plain new old rfl
  sums f campaign := by
    have nothing : ∀ known : Account, known.plain = true → known.receiptOf campaign = none := fun known plain => by
      cases known with
      | claim r => cases plain
      | _ => rfl
    exact tally_insert f (nothing account new) (fun known found => nothing known (old known found))
  kept x gone := by
    by_cases same : x = a
    · subst same
      simp at gone
    · rwa [AList.lookup_insert_ne same] at gone

variable {w w' : Accounts} {signers : List Solana.Key}

theorem Quiet.insert_token {a : Address} {t t' : TokenAccount} (there : w.lookup a = some (.token t)) :
    Quiet w (w.insert a (.token t')) :=
  .insert rfl (fun known found => by
    rw [there] at found
    cases found
    rfl)

theorem Quiet.insert_new {a : Address} {account : Account} (plain : account.plain = true) (free : w.lookup a = none) :
    Quiet w (w.insert a account) :=
  .insert plain (fun known found => by
    rw [free] at found
    cases found)

/-- What a program that signs for nobody's address does to an account that no key owns: it may give
to it, and events tell how much. -/
def Gives (w w' : Accounts) (events : List Event) : Prop :=
  ∀ v t, w.lookup v = some (.token t) → (∀ k, t.owner ≠ .key k) →
    ∃ t', w'.lookup v = some (.token t') ∧ t'.owner = t.owner ∧ t'.amount.toNat = t.amount.toNat + deposited events v

theorem Gives.of_same (same : ∀ v t, w.lookup v = some (.token t) → (∀ k, t.owner ≠ .key k) → w'.lookup v = w.lookup v) :
    Gives w w' [] := fun v t there owner => ⟨t, (same v t there owner).trans there, rfl, rfl⟩

theorem Gives.insert_new {a : Address} {account : Account} (free : w.lookup a = none) : Gives w (w.insert a account) [] := by
  refine .of_same fun v t there _ => AList.lookup_insert_ne fun same => ?_
  rw [same, free] at there
  cases there

/-- An account that a key owns can change as it likes. -/
theorem Gives.insert_owned {a : Address} {t : TokenAccount} {account : Account} (there : w.lookup a = some (.token t))
    (owned : ∃ k, t.owner = .key k) : Gives w (w.insert a account) [] := by
  refine .of_same fun v t' there' owner => AList.lookup_insert_ne fun same => ?_
  rw [same, there] at there'
  cases there'
  obtain ⟨k, mine⟩ := owned
  exact owner k mine

theorem Gives.credit {a : Address} {t : TokenAccount} {amount credited : UInt64} (there : w.lookup a = some (.token t))
    (sum : credited.toNat = t.amount.toNat + amount.toNat) :
    Gives w (w.insert a (.token { t with amount := credited })) [.deposited a amount] := by
  intro v t' there' owner
  by_cases same : v = a
  · subst same
    rw [there] at there'
    cases there'
    exact ⟨_, AList.lookup_insert _, rfl, by simpa [deposited, Event.depositedTo] using sum⟩
  · refine ⟨t', (AList.lookup_insert_ne same).trans there', rfl, ?_⟩
    simp [deposited, Event.depositedTo, Ne.symm same]

theorem Gives.trans {w'' : Accounts} {events events' : List Event} (first : Gives w w' events) (second : Gives w' w'' events') :
    Gives w w'' (events ++ events') := by
  intro v t there owner
  obtain ⟨t', there', owner', amount⟩ := first v t there owner
  obtain ⟨t'', there'', owner'', amount'⟩ := second v t' there' (owner' ▸ owner)
  exact ⟨t'', there'', owner''.trans owner', by rw [amount', amount, deposited_append, add_assoc]⟩

theorem tokenOp_ok {op : TokenOp} {events : List Event} (done : tokenOp signers w op = .ok (w', events)) :
    Quiet w w' ∧ Gives w w' events ∧ (∀ e ∈ events, ∃ v amount t, e = .deposited v amount ∧ w.lookup v = some (.token t)) := by
  cases op with
  | createMint a m =>
    simp only [tokenOp, bind_eq_ok, require_eq_ok, pure_eq_ok, Prod.mk.injEq] at done
    obtain ⟨_, free, rfl, rfl⟩ := done
    exact ⟨.insert_new rfl free, .insert_new free, by simp⟩
  | createToken a owner mint program =>
    simp only [tokenOp, bind_eq_ok, require_eq_ok, pure_eq_ok, Prod.mk.injEq] at done
    obtain ⟨_, _, between, created, rfl, rfl⟩ := done
    obtain ⟨free, rfl⟩ := createToken_ok created
    exact ⟨.insert_new rfl free, .insert_new free, by simp⟩
  | mintTo mint dest amount =>
    simp only [tokenOp, bind_eq_ok, require_eq_ok, pure_eq_ok, okOr_eq_ok, loadToken_eq_ok, Prod.mk.injEq] at done
    obtain ⟨_, _, _, _, _, _, d, there, _, _, credited, added, rfl, rfl⟩ := done
    exact ⟨.insert_token there, .credit there (checkedAdd_eq added), by simpa using ⟨d, there⟩⟩
  | transfer program source mint dest authority amount decimals =>
    simp only [tokenOp, bind_eq_ok, require_eq_ok, pure_eq_ok, Prod.mk.injEq] at done
    obtain ⟨_, signed, between, moved, rfl, rfl⟩ := done
    obtain ⟨s, d, hasSource, hasDest, _, rfl, same | ⟨different, credited, sum, rfl⟩⟩ := transferChecked_ok moved
    · obtain ⟨rfl, rfl⟩ := same
      rw [if_pos rfl]
      exact ⟨.refl _, .of_same fun _ _ _ _ => rfl, by simp⟩
    · have hasDest' : (w.insert source (.token { s with amount := s.amount - amount })).lookup dest = some (.token d) := by
        rw [AList.lookup_insert_ne (Ne.symm different), hasDest]
      rw [if_neg different]
      exact ⟨(Quiet.insert_token hasSource).trans (.insert_token hasDest'), (Gives.insert_owned hasSource (Signed.key signed)).trans (.credit hasDest' sum),
        by simpa using ⟨d, hasDest⟩⟩
  | setOwner a owner =>
    simp only [tokenOp, bind_eq_ok, require_eq_ok, pure_eq_ok, loadToken_eq_ok, Prod.mk.injEq] at done
    obtain ⟨t, there, _, signed, rfl, rfl⟩ := done
    exact ⟨.insert_token there, .insert_owned there (Signed.key signed), by simp⟩
  | burn a amount =>
    simp only [tokenOp, bind_eq_ok, require_eq_ok, pure_eq_ok, loadToken_eq_ok, Prod.mk.injEq] at done
    obtain ⟨t, there, _, signed, _, _, rfl, rfl⟩ := done
    exact ⟨.insert_token there, .insert_owned there (Signed.key signed), by simp⟩

end Quiet

section Keeping

variable {w : World} {accounts : Accounts}

/-- Calls of the token programs keep the books in order. -/
theorem Sound.tokens {events : List Event} (sound : Sound w) (quiet : Quiet w.accounts accounts) (gives : Gives w.accounts accounts events)
    (only : ∀ e ∈ events, ∃ v amount t, e = .deposited v amount ∧ w.accounts.lookup v = some (.token t)) :
    Sound ⟨accounts, events ++ w.log⟩ := by
  have noWithdrawal : ∀ a, withdrawn events a = 0 := fun a => by
    refine List.sum_eq_zero fun n member => ?_
    obtain ⟨e, inside, rfl⟩ := List.mem_map.mp member
    obtain ⟨v, amount, t, rfl, _⟩ := only e inside
    rfl
  have noClaim : events.filterMap Event.request = [] := by
    rw [List.filterMap_eq_nil_iff]
    intro e inside
    obtain ⟨v, amount, t, rfl, _⟩ := only e inside
    rfl
  have older : ∀ r before, Event.claimed r before ∈ events ++ w.log → Event.claimed r before ∈ w.log := by
    intro r before member
    rcases List.mem_append.mp member with new | old
    · obtain ⟨v, amount, t, same, _⟩ := only _ new
      cases same
    · exact old
  constructor
  · intro a c found
    obtain ⟨signer, claims, paid, authority, program, t, derived, there, owner, balance⟩ := sound.standing a c ((quiet.campaign a c).mp found)
    obtain ⟨t', there', owner', amount⟩ := gives _ t there (fun k same => by rw [owner] at same; cases same)
    refine ⟨signer, ?_, ?_, authority, program, t', derived, there', owner'.trans owner, ?_⟩
    · rw [claims, quiet.sums]
    · rw [paid, quiet.sums]
    · rw [withdrawn_append, noWithdrawal, deposited_append, amount]
      omega
  · intro x r found
    obtain ⟨derived, before, logged⟩ := sound.claim x r ((quiet.claim x r).mp found)
    exact ⟨derived, before, List.mem_append_right _ logged⟩
  · intro a closed
    obtain ⟨nothing, none_withdrawn⟩ := sound.unopened a (fun c found => closed c ((quiet.campaign a c).mpr found))
    refine ⟨fun f => (quiet.sums f a).trans (nothing f), ?_⟩
    rw [withdrawn_append, noWithdrawal, none_withdrawn]
  · intro v gone
    have gone' := quiet.kept v gone
    have nothing : deposited events v = 0 := by
      refine List.sum_eq_zero fun n member => ?_
      obtain ⟨e, inside, rfl⟩ := List.mem_map.mp member
      obtain ⟨v', amount, t, rfl, there⟩ := only e inside
      exact if_neg fun same => by
        rw [same, gone'] at there
        cases there
    rw [deposited_append, nothing, sound.untouched v gone']
  · intro r before member
    obtain ⟨amount, unpaused, there⟩ := sound.logged r before (older r before member)
    exact ⟨amount, unpaused, fun gone => there (quiet.kept _ gone)⟩
  · rw [List.filterMap_append, noClaim, List.nil_append]
    exact sound.once

theorem tally_insert_campaign {x a : Address} {c : RewardCampaign} (f : ClaimReceipt → ℤ)
    (old : ∀ r, accounts.lookup x ≠ some (.claim r)) : tally f a (accounts.insert x (.campaign c)) = tally f a accounts :=
  tally_insert f rfl (fun known found => by
    cases known with
    | claim r => exact (old r found).elim
    | _ => rfl)

/-- So does a campaign that is written where none or one was, if its own books are in order. -/
theorem Sound.put {a : Address} {c : RewardCampaign} (sound : Sound w)
    (before : ∀ account, w.accounts.lookup a = some account → ∃ old, account = .campaign old)
    (standing : Standing ⟨w.accounts.insert a (.campaign c), w.log⟩ a c) : Sound ⟨w.accounts.insert a (.campaign c), w.log⟩ := by
  have other : ∀ x, x ≠ a → (w.accounts.insert a (.campaign c)).lookup x = w.accounts.lookup x := fun x different =>
    AList.lookup_insert_ne different
  have noClaim : ∀ r, w.accounts.lookup a ≠ some (.claim r) := fun r found => by
    obtain ⟨old, same⟩ := before _ found
    cases same
  constructor
  · intro x d found
    by_cases same : x = a
    · subst same
      rw [AList.lookup_insert] at found
      cases found
      exact standing
    · rw [other x same] at found
      obtain ⟨_, t, _, lives, _⟩ := (sound.standing x d found).vault
      have apart : d.vault ≠ a := fun same => by
        obtain ⟨old, clash⟩ := before _ (same ▸ lives)
        cases clash
      exact (sound.standing x d found).carry (fun f => tally_insert_campaign f noClaim) (other _ apart) rfl rfl
  · intro x r found
    by_cases same : x = a
    · subst same
      rw [AList.lookup_insert] at found
      cases found
    · exact sound.claim x r ((other x same).symm.trans found)
  · intro x closed
    have different : x ≠ a := fun same => closed c (by rw [same, AList.lookup_insert])
    obtain ⟨nothing, none_withdrawn⟩ := sound.unopened x (fun d found => closed d ((other x different).trans found))
    exact ⟨fun f => (tally_insert_campaign f noClaim).trans (nothing f), none_withdrawn⟩
  · intro v gone
    by_cases same : v = a
    · subst same
      simp at gone
    · exact sound.untouched v ((other v same).symm.trans gone)
  · intro r before member
    obtain ⟨amount, unpaused, lives⟩ := sound.logged r before member
    refine ⟨amount, unpaused, fun gone => ?_⟩
    by_cases same : Address.claim r.campaign r.requestId = a
    · rw [same] at gone
      simp at gone
    · exact lives ((other _ same).symm.trans gone)
  · exact sound.once

/-- What the books of a campaign are about. -/
def RewardCampaign.books (c : RewardCampaign) : Address × Address × Address × Address × UInt64 × UInt64 :=
  (c.authority, c.rewardMint, c.vault, c.vaultAuthority, c.totalClaims, c.totalPaid)

theorem Sound.update {a : Address} {c c' : RewardCampaign} (sound : Sound w) (there : w.accounts.lookup a = some (.campaign c))
    (same : c'.books = c.books) : Sound ⟨w.accounts.insert a (.campaign c'), w.log⟩ := by
  simp only [RewardCampaign.books, Prod.mk.injEq] at same
  obtain ⟨authority, mint, vault, vaultAuthority, claims, paid⟩ := same
  have noClaim : ∀ r, w.accounts.lookup a ≠ some (.claim r) := by simp [there]
  refine sound.put (fun account found => ⟨c, by rw [there] at found; exact (Option.some.inj found).symm⟩) ?_
  obtain ⟨signer, counted, summed, derived, program, t, placed, lives, owner, balance⟩ := sound.standing a c there
  have apart : c.vault ≠ a := fun same => by
    rw [same, there] at lives
    cases lives
  refine ⟨authority ▸ signer, ?_, ?_, vaultAuthority.trans derived, program, t, ?_, ?_, owner, ?_⟩
  · rw [claims, counted, tally_insert_campaign _ noClaim]
  · rw [paid, summed, tally_insert_campaign _ noClaim]
  · rw [vault, mint, placed]
  · rw [vault, AList.lookup_insert_ne apart, lives]
  · rw [paid, vault, balance]

/-- A campaign that is opened has an empty vault and has paid nothing. -/
theorem Sound.opened {a : Address} {c : RewardCampaign} {program : TokenProgram} {t : TokenAccount} (sound : Sound w)
    (free : w.accounts.lookup a = none) (signer : ∃ k, c.authority = .key k) (authority : c.vaultAuthority = .vaultAuthority a)
    (placed : c.vault = .associated (.vaultAuthority a) c.rewardMint program) (lives : w.accounts.lookup c.vault = some (.token t))
    (owner : t.owner = .vaultAuthority a) (empty : t.amount = 0) (undeposited : deposited w.log c.vault = 0) (claims : c.totalClaims = 0)
    (paid : c.totalPaid = 0) : Sound ⟨w.accounts.insert a (.campaign c), w.log⟩ := by
  have noClaim : ∀ r, w.accounts.lookup a ≠ some (.claim r) := by simp [free]
  refine sound.put (fun account found => by rw [free] at found; cases found) ?_
  obtain ⟨nothing, none_withdrawn⟩ := sound.unopened a (by simp [free])
  have apart : c.vault ≠ a := fun same => by
    rw [same, free] at lives
    cases lives
  refine ⟨signer, ?_, ?_, authority, program, t, placed, (AList.lookup_insert_ne apart).trans lives, owner, ?_⟩
  · rw [claims, tally_insert_campaign _ noClaim, nothing]
    rfl
  · rw [paid, tally_insert_campaign _ noClaim, nothing]
    rfl
  · rw [empty, paid, none_withdrawn, undeposited]
    rfl

/-- What leaves a vault goes to one account that is not a vault. -/
theorem payout {before after : Accounts} {program : TokenProgram} {vault mint dest authority : Address} {amount : UInt64} {decimals : UInt8}
    {t : TokenAccount} (moved : transferChecked before program vault mint dest authority amount decimals = .ok after)
    (different : vault ≠ dest) (there : before.lookup vault = some (.token t)) :
    Quiet before after ∧ amount.toNat ≤ t.amount.toNat ∧
      (∃ t', after.lookup vault = some (.token t') ∧ t'.owner = t.owner ∧ t'.amount.toNat = t.amount.toNat - amount.toNat) ∧
      ∀ v, v ≠ vault → v ≠ dest → after.lookup v = before.lookup v := by
  obtain ⟨s, d, hasSource, hasDest, enough, _, same | ⟨_, credited, sum, rfl⟩⟩ := transferChecked_ok moved
  · exact (different same.1).elim
  · rw [there] at hasSource
    cases hasSource
    have hasDest' : (before.insert vault (.token { t with amount := t.amount - amount })).lookup dest = some (.token d) := by
      rw [AList.lookup_insert_ne (Ne.symm different), hasDest]
    refine ⟨(Quiet.insert_token there).trans (.insert_token hasDest'), enough,
      ⟨{ t with amount := t.amount - amount }, ?_, rfl, ?_⟩, fun v notVault notDest => ?_⟩
    · rw [AList.lookup_insert_ne different, AList.lookup_insert]
    · exact UInt64.toNat_sub_of_le _ _ (UInt64.le_iff_toNat_le.mpr enough)
    · rw [AList.lookup_insert_ne notDest, AList.lookup_insert_ne notVault]

/-- A payment out of the vault of a campaign, entered as a withdrawal. -/
theorem Sound.withdraw {a dest authority mint : Address} {c : RewardCampaign} {program : TokenProgram} {amount : UInt64} {decimals : UInt8}
    (sound : Sound w) (found : w.accounts.lookup a = some (.campaign c)) (outside : ∃ k m p, dest = .associated (.key k) m p)
    (moved : transferChecked w.accounts program c.vault mint dest authority amount decimals = .ok accounts) :
    Sound ⟨accounts, .withdrew a amount :: w.log⟩ ∧ Quiet w.accounts accounts := by
  obtain ⟨k, m, p, rfl⟩ := outside
  obtain ⟨signer, claims, paid, derived, program', t, placed, lives, owner, balance⟩ := sound.standing a c found
  obtain ⟨quiet, enough, ⟨t', lives', owner', left⟩, others⟩ := payout moved (by simp [placed]) lives
  refine ⟨?_, quiet⟩
  constructor
  · intro x d known
    have known' := (quiet.campaign x d).mp known
    by_cases same : x = a
    · subst same
      rw [found] at known'
      cases known'
      refine ⟨signer, ?_, ?_, derived, program', t', placed, lives', owner'.trans owner, ?_⟩
      · rw [claims, quiet.sums]
      · rw [paid, quiet.sums]
      · rw [deposited_withdrew, withdrawn_withdrew, if_pos rfl, left]
        omega
    · obtain ⟨_, _, placed', _⟩ := (sound.standing x d known').vault
      refine (sound.standing x d known').carry (fun f => quiet.sums f x) ?_ ?_ (deposited_withdrew ..)
      · exact others d.vault (by simp [placed, placed', same]) (by simp [placed'])
      · rw [withdrawn_withdrew, if_neg (Ne.symm same), zero_add]
  · intro x r known
    obtain ⟨derived, before, entered⟩ := sound.claim x r ((quiet.claim x r).mp known)
    exact ⟨derived, before, List.mem_cons_of_mem _ entered⟩
  · intro x closed
    obtain ⟨nothing, none_withdrawn⟩ := sound.unopened x (fun d known => closed d ((quiet.campaign x d).mpr known))
    have different : a ≠ x := fun same => closed c ((quiet.campaign x c).mpr (same ▸ found))
    exact ⟨fun f => (quiet.sums f x).trans (nothing f), by rw [withdrawn_withdrew, if_neg different, none_withdrawn]⟩
  · intro v gone
    rw [deposited_withdrew]
    exact sound.untouched v (quiet.kept v gone)
  · intro r before member
    obtain ⟨amount, unpaused, there⟩ := sound.logged r before (by simpa using member)
    exact ⟨amount, unpaused, fun gone => there (quiet.kept _ gone)⟩
  · exact sound.once

theorem tally_insert_claim {x a : Address} {r : ClaimReceipt} (f : ClaimReceipt → ℤ) (free : accounts.lookup x = none) :
    tally f a (accounts.insert x (.claim r)) = (if r.campaign = a then f r else 0) + tally f a accounts := by
  rw [tally, Store.total_insert, Store.weight, free, Option.elim_none, sub_zero, Account.receiptOf, tally]
  split <;> rfl

section Entering

/-- The accounts after a receipt has been entered and its campaign written anew. -/
def entered (accounts : Accounts) (r : ClaimReceipt) (c : RewardCampaign) : Accounts :=
  (accounts.insert (.claim r.campaign r.requestId) (.claim r)).insert r.campaign (.campaign c)

variable {log : List Event} {r : ClaimReceipt} {c c' : RewardCampaign} {x : Address}

theorem lookup_entered_campaign : (entered accounts r c').lookup r.campaign = some (.campaign c') := AList.lookup_insert _

theorem lookup_entered_other (notClaim : x ≠ .claim r.campaign r.requestId) (notCampaign : x ≠ r.campaign) :
    (entered accounts r c').lookup x = accounts.lookup x := by
  rw [entered, AList.lookup_insert_ne notCampaign, AList.lookup_insert_ne notClaim]

section

variable (found : accounts.lookup r.campaign = some (.campaign c)) (free : accounts.lookup (.claim r.campaign r.requestId) = none)

include found free

theorem claim_ne_campaign : Address.claim r.campaign r.requestId ≠ r.campaign := fun same => by
  rw [same, found] at free
  cases free

theorem lookup_entered_claim : (entered accounts r c').lookup (.claim r.campaign r.requestId) = some (.claim r) := by
  rw [entered, AList.lookup_insert_ne (claim_ne_campaign found free), AList.lookup_insert]

/-- No account goes. -/
theorem entered_kept (gone : (entered accounts r c').lookup x = none) : accounts.lookup x = none := by
  have notClaim : x ≠ .claim r.campaign r.requestId := fun here => by
    rw [here, lookup_entered_claim found free] at gone
    cases gone
  have notCampaign : x ≠ r.campaign := fun same => by
    rw [same, lookup_entered_campaign] at gone
    cases gone
  rwa [lookup_entered_other notClaim notCampaign] at gone

theorem entered_token {t : TokenAccount} (there : accounts.lookup x = some (.token t)) :
    (entered accounts r c').lookup x = accounts.lookup x := by
  refine lookup_entered_other (fun same => ?_) (fun same => ?_)
  · rw [same, free] at there
    cases there
  · rw [same, found] at there
    cases there

theorem entered_campaign_iff {d : RewardCampaign} (different : x ≠ r.campaign) :
    (entered accounts r c').lookup x = some (.campaign d) ↔ accounts.lookup x = some (.campaign d) := by
  by_cases here : x = .claim r.campaign r.requestId
  · rw [here, lookup_entered_claim found free, free]
    simp
  · rw [lookup_entered_other here different]

theorem tally_entered (f : ClaimReceipt → ℤ) (a : Address) :
    tally f a (entered accounts r c') = (if r.campaign = a then f r else 0) + tally f a accounts := by
  have found' : (accounts.insert (.claim r.campaign r.requestId) (.claim r)).lookup r.campaign = some (.campaign c) := by
    rw [AList.lookup_insert_ne (claim_ne_campaign found free).symm, found]
  rw [entered, tally_insert_campaign f (by simp [found']), tally_insert_claim f free]

/-- The campaign of the receipt counts it, and what it was paid. -/
theorem Standing.receipt {totalClaims totalPaid : UInt64} (standing : Standing ⟨accounts, .withdrew r.campaign r.amount :: log⟩ r.campaign c)
    (counted : totalClaims.toNat = c.totalClaims.toNat + 1) (summed : totalPaid.toNat = c.totalPaid.toNat + r.amount.toNat) :
    Standing ⟨entered accounts r { c with totalClaims, totalPaid }, .claimed r c :: log⟩ r.campaign { c with totalClaims, totalPaid } := by
  obtain ⟨signer, claims, paid, derived, program, t, placed, lives, owner, balance⟩ := standing
  refine ⟨signer, ?_, ?_, derived, program, t, placed, (entered_token found free lives).trans lives, owner, ?_⟩
  · rw [tally_entered found free, if_pos rfl, ← claims]
    dsimp only
    omega
  · rw [tally_entered found free, if_pos rfl, ← paid]
    dsimp only
    omega
  · rw [withdrawn_withdrew, if_pos rfl, deposited_withdrew] at balance
    rw [withdrawn_claimed, deposited_claimed]
    dsimp only
    omega

/-- Any other campaign does not notice. -/
theorem Standing.receipt_other {d : RewardCampaign} (standing : Standing ⟨accounts, .withdrew r.campaign r.amount :: log⟩ x d)
    (different : x ≠ r.campaign) : Standing ⟨entered accounts r c', .claimed r c :: log⟩ x d := by
  obtain ⟨_, t, _, lives, _⟩ := standing.vault
  refine standing.carry (fun f => ?_) (entered_token found free lives) ?_ ?_
  · rw [tally_entered found free, if_neg different.symm, zero_add]
  · rw [withdrawn_claimed, withdrawn_withdrew, if_neg different.symm, zero_add]
  · rw [deposited_claimed, deposited_withdrew]

end

/-- A claim is a withdrawal that is entered with a receipt. -/
theorem Sound.receipt {totalClaims totalPaid : UInt64} (sound : Sound ⟨accounts, .withdrew r.campaign r.amount :: log⟩)
    (found : accounts.lookup r.campaign = some (.campaign c)) (free : accounts.lookup (.claim r.campaign r.requestId) = none)
    (unpaused : c.paused = false) (amount : r.amount.toNat = r.units.toNat * c.rewardPerUnit.toNat)
    (counted : totalClaims.toNat = c.totalClaims.toNat + 1) (summed : totalPaid.toNat = c.totalPaid.toNat + r.amount.toNat) :
    Sound ⟨entered accounts r { c with totalClaims, totalPaid }, .claimed r c :: log⟩ := by
  constructor
  · intro x d known
    by_cases same : x = r.campaign
    · subst same
      rw [lookup_entered_campaign] at known
      cases known
      exact (sound.standing _ c found).receipt found free counted summed
    · exact (sound.standing x d ((entered_campaign_iff found free same).mp known)).receipt_other found free same
  · intro x q known
    by_cases here : x = .claim r.campaign r.requestId
    · subst here
      rw [lookup_entered_claim found free] at known
      cases known
      exact ⟨rfl, c, List.mem_cons_self⟩
    · have same : x ≠ r.campaign := fun same => by
        rw [same, lookup_entered_campaign] at known
        cases known
      rw [lookup_entered_other here same] at known
      obtain ⟨derived, before, logged⟩ := sound.claim x q known
      exact ⟨derived, before, List.mem_cons_of_mem _ (by simpa using logged)⟩
  · intro x closed
    have different : x ≠ r.campaign := fun same => closed _ (same ▸ lookup_entered_campaign)
    obtain ⟨nothing, none_withdrawn⟩ := sound.unopened x (fun d known => closed d ((entered_campaign_iff found free different).mpr known))
    rw [withdrawn_withdrew, if_neg different.symm, zero_add] at none_withdrawn
    refine ⟨fun f => ?_, (withdrawn_claimed ..).trans none_withdrawn⟩
    rw [tally_entered found free, if_neg different.symm, zero_add, nothing]
  · intro v gone
    have untouched := sound.untouched v (entered_kept found free gone)
    rw [deposited_withdrew] at untouched
    exact (deposited_claimed ..).trans untouched
  · intro q before member
    rcases List.mem_cons.mp member with same | old
    · cases same
      exact ⟨amount, unpaused, by simp [lookup_entered_claim found free]⟩
    · obtain ⟨amount, unpaused, there⟩ := sound.logged q before (List.mem_cons_of_mem _ old)
      exact ⟨amount, unpaused, fun gone => there (entered_kept found free gone)⟩
  · have older : (log.filterMap Event.request).Nodup := sound.once
    refine List.nodup_cons.mpr ⟨fun again => ?_, older⟩
    obtain ⟨e, inside, asked⟩ := List.mem_filterMap.mp again
    cases e with
    | claimed q before =>
      obtain ⟨_, _, there⟩ := sound.logged q before (List.mem_cons_of_mem _ inside)
      obtain ⟨sameCampaign, sameRequest⟩ := Prod.mk.inj (Option.some.inj asked)
      rw [sameCampaign, sameRequest] at there
      exact there free
    | withdrew x n => cases asked
    | deposited v n => cases asked

end Entering

/-- A token account that is made where it is needed changes nothing else. -/
theorem Sound.prepared {a owner mint : Address} {program : TokenProgram} (sound : Sound w)
    (made : initIfNeeded w.accounts a owner mint program = .ok accounts) :
    Sound ⟨accounts, w.log⟩ ∧ Quiet w.accounts accounts ∧ ∀ x, x ≠ a → accounts.lookup x = w.accounts.lookup x := by
  obtain ⟨_, rfl | ⟨free, rfl⟩⟩ := initIfNeeded_ok made
  · exact ⟨sound, .refl _, fun _ _ => rfl⟩
  · exact ⟨sound.tokens (.insert_new rfl free) (.insert_new free) (by simp), .insert_new rfl free,
      fun x different => AList.lookup_insert_ne different⟩

end Keeping

section Running

variable {w : World} {accounts : Accounts} {rt : Runtime} {signers : List Solana.Key}

theorem Sound.initialized {ctx : InitializeCampaign} {rate : UInt64} {head : Solana.Key} (sound : Sound w)
    (done : initializeCampaign rt signers w.accounts ctx rate head = .ok accounts) : Sound ⟨accounts, w.log⟩ := by
  obtain ⟨c, signed, seeds, free, authority, ⟨program, placed, unused, rfl⟩, claims, paid⟩ := initializeCampaign_ok done
  have vaulted : Sound ⟨w.accounts.insert c.vault (.token ⟨program, c.rewardMint, c.vaultAuthority, 0⟩), w.log⟩ :=
    sound.tokens (.insert_new rfl unused) (.insert_new unused) (by simp)
  rw [authority] at placed
  refine vaulted.opened ?_ (Signed.key signed) authority placed (AList.lookup_insert _) authority rfl (sound.untouched _ unused) claims paid
  rw [AList.lookup_insert_ne (by simp [seeds, placed]), free]

theorem Sound.set {ctx : UpdateCampaign} {change : RewardCampaign → RewardCampaign} (sound : Sound w)
    (done : updateCampaign signers w.accounts ctx change = .ok accounts)
    (keeps : ∀ c, (change c).books = c.books) : Sound ⟨accounts, w.log⟩ := by
  obtain ⟨c, found, _, rfl⟩ := updateCampaign_ok done
  exact sound.update found (keeps c)

/-- The payment of a claim, before the claim itself is entered. -/
theorem Sound.spent {ctx : ClaimReward} {requestId serviceHash : Solana.Key} {units rate : UInt64} (sound : Sound w)
    (done : claimReward rt signers w.accounts ctx requestId serviceHash units rate = .ok accounts) :
    ∃ (c : RewardCampaign) (paid : Accounts) (r : ClaimReceipt) (totalClaims totalPaid : UInt64),
      w.accounts.lookup ctx.campaign = some (.campaign c) ∧ Sound ⟨paid, .withdrew ctx.campaign r.amount :: w.log⟩ ∧
      Quiet w.accounts paid ∧ paid.lookup (.claim ctx.campaign r.requestId) = none ∧ c.paused = false ∧
      r.campaign = ctx.campaign ∧ r.requestId = requestId ∧ r.units = units ∧ r.amount.toNat = r.units.toNat * c.rewardPerUnit.toNat ∧
      totalClaims.toNat = c.totalClaims.toNat + 1 ∧ totalPaid.toNat = c.totalPaid.toNat + r.amount.toNat ∧
      claimEvents ctx w.accounts accounts = [.claimed r c] ∧
      accounts = (paid.insert (.claim ctx.campaign r.requestId) (.claim r)).insert ctx.campaign
        (.campaign { c with totalClaims, totalPaid }) := by
  obtain ⟨c, between, paid, amount, totalClaims, totalPaid, decimals, r, found, unpaused, signed, seeds, free, made, moved, rfl, product,
    counted, summed, sameCampaign, _, rfl, _, rfl, _, rfl, _, rfl⟩ := claimReward_ok done
  obtain ⟨k, provider⟩ := Signed.key signed
  obtain ⟨prepared, quiet, others⟩ := sound.prepared made
  have dest := (initIfNeeded_ok made).1
  rw [provider] at dest
  have found' := (quiet.campaign _ c).mpr found
  obtain ⟨_, _, _, _, _, t, placed, lives, _, _⟩ := prepared.standing _ c found'
  obtain ⟨_, _, _, others'⟩ := payout moved (by simp [placed, dest]) lives
  obtain ⟨spent, quiet'⟩ := prepared.withdraw found' ⟨k, _, _, dest⟩ moved
  have free' : paid.lookup (.claim ctx.campaign r.requestId) = none := by
    rw [others' _ (by simp [placed]) (by simp [dest]), others _ (by simp [dest]), free]
  have apart : Address.claim ctx.campaign r.requestId ≠ ctx.campaign := fun same => by
    rw [same, found] at free
    cases free
  refine ⟨c, paid, r, totalClaims, totalPaid, found, spent, quiet.trans quiet', free', unpaused, sameCampaign, rfl, rfl, product, counted,
    summed, ?_, rfl⟩
  rw [claimEvents, found, seeds, AList.lookup_insert_ne apart, AList.lookup_insert]

theorem Sound.claimed {ctx : ClaimReward} {requestId serviceHash : Solana.Key} {units rate : UInt64} (sound : Sound w)
    (done : claimReward rt signers w.accounts ctx requestId serviceHash units rate = .ok accounts) :
    Sound ⟨accounts, claimEvents ctx w.accounts accounts ++ w.log⟩ := by
  obtain ⟨c, paid, r, totalClaims, totalPaid, found, spent, quiet, free, unpaused, mine, _, _, product, counted, summed, events, rfl⟩ :=
    sound.spent done
  rw [events]
  rw [← mine] at found spent free ⊢
  exact spent.receipt ((quiet.campaign _ c).mpr found) free unpaused product counted summed

theorem Sound.withdrawn {ctx : WithdrawUnclaimed} {amount : UInt64} (sound : Sound w)
    (done : withdrawUnclaimed rt signers w.accounts ctx amount = .ok accounts) :
    Sound ⟨accounts, .withdrew ctx.campaign amount :: w.log⟩ ∧ Quiet w.accounts accounts := by
  obtain ⟨c, between, decimals, found, signed, made, moved⟩ := withdrawUnclaimed_ok done
  obtain ⟨k, authority⟩ := Signed.key signed
  obtain ⟨prepared, quiet, _⟩ := sound.prepared made
  have dest := (initIfNeeded_ok made).1
  rw [authority] at dest
  obtain ⟨spent, quiet'⟩ := prepared.withdraw ((quiet.campaign _ c).mpr found) ⟨k, _, _, dest⟩ moved
  exact ⟨spent, quiet.trans quiet'⟩

/-- What a call can do, and what it says of it in the log. -/
inductive Effect (rt : Runtime) (signers : List Solana.Key) (w : Accounts) : Accounts → List Event → Prop where
  | initialized {ctx : InitializeCampaign} {rate : UInt64} {head : Solana.Key} {accounts : Accounts}
      (done : initializeCampaign rt signers w ctx rate head = .ok accounts) : Effect rt signers w accounts []
  | updated {ctx : UpdateCampaign} {change : RewardCampaign → RewardCampaign} {accounts : Accounts}
      (done : updateCampaign signers w ctx change = .ok accounts) (keeps : ∀ c, (change c).books = c.books) : Effect rt signers w accounts []
  | claimed {ctx : ClaimReward} {requestId serviceHash : Solana.Key} {units rate : UInt64} {accounts : Accounts}
      (done : claimReward rt signers w ctx requestId serviceHash units rate = .ok accounts) :
      Effect rt signers w accounts (claimEvents ctx w accounts)
  | withdrew {ctx : WithdrawUnclaimed} {amount : UInt64} {accounts : Accounts}
      (done : withdrawUnclaimed rt signers w ctx amount = .ok accounts) : Effect rt signers w accounts [.withdrew ctx.campaign amount]
  | tokens {op : TokenOp} {accounts : Accounts} {events : List Event} (done : tokenOp signers w op = .ok (accounts, events)) :
      Effect rt signers w accounts events

theorem call_effect {before : Accounts} {c : Call} {events : List Event} (done : call rt signers before c = .ok (accounts, events)) :
    Effect rt signers before accounts events := by
  cases c with
  | tokens op => exact .tokens done
  | _ =>
    simp only [call, bind_eq_ok, pure_eq_ok, Prod.mk.injEq] at done
    obtain ⟨_, done, rfl, rfl⟩ := done
    first
      | exact .initialized done
      | exact .updated (setRewardRate_ok done) (fun _ => rfl)
      | exact .updated done (fun _ => rfl)
      | exact .claimed done
      | exact .withdrew done

theorem World.step_cases (rt : Runtime) (w : World) (s : Step) :
    w.step rt s = w ∨ ∃ accounts events, Effect { rt with now := s.now } s.signers w.accounts accounts events ∧
      w.step rt s = ⟨accounts, events ++ w.log⟩ := by
  unfold World.step
  split
  · rename_i accounts events done
    exact .inr ⟨accounts, events, call_effect done, rfl⟩
  · exact .inl rfl

theorem Sound.step (sound : Sound w) (s : Step) : Sound (w.step rt s) := by
  rcases w.step_cases rt s with same | ⟨accounts, events, effect, same⟩
  · rwa [same]
  · rw [same]
    cases effect with
    | initialized done => exact sound.initialized done
    | updated done keeps => exact sound.set done keeps
    | claimed done => exact sound.claimed done
    | withdrew done => exact (sound.withdrawn done).1
    | tokens done =>
      obtain ⟨quiet, gives, only⟩ := tokenOp_ok done
      exact sound.tokens quiet gives only

theorem Sound.run (rt : Runtime) (steps : List Step) : Sound (World.run rt steps) := by
  unfold World.run
  suffices kept : ∀ w, Sound w → Sound (steps.foldl (World.step rt) w) from kept _ .empty
  induction steps with
  | nil => exact fun w sound => sound
  | cons s rest ih => exact fun w sound => ih _ (sound.step s)

/-- The settings of a campaign. -/
def RewardCampaign.settings (c : RewardCampaign) : Address × Solana.Key × Address × Address × Address × UInt64 × Bool :=
  (c.authority, c.headAuthority, c.rewardMint, c.vault, c.vaultAuthority, c.rewardPerUnit, c.paused)

/-- A campaign stays, and with the settings it has unless its authority signs. -/
theorem Sound.settings {a : Address} {c : RewardCampaign} (sound : Sound w) (found : w.accounts.lookup a = some (.campaign c)) (s : Step) :
    ∃ c', (w.step rt s).accounts.lookup a = some (.campaign c') ∧ (c'.settings ≠ c.settings → Signed s.signers c.authority = true) := by
  rcases w.step_cases rt s with idle | ⟨accounts, events, effect, moved⟩
  · exact ⟨c, by rw [idle, found], fun differs => (differs rfl).elim⟩
  · rw [moved]
    cases effect with
    | @initialized ctx _ _ _ done =>
      obtain ⟨d, _, _, free, _, ⟨_, _, unused, rfl⟩, _⟩ := initializeCampaign_ok done
      have other : a ≠ ctx.campaign := fun same => by
        rw [← same, found] at free
        cases free
      have notVault : a ≠ d.vault := fun same => by
        rw [← same, found] at unused
        cases unused
      exact ⟨c, by rw [AList.lookup_insert_ne other, AList.lookup_insert_ne notVault, found], fun differs => (differs rfl).elim⟩
    | @updated ctx change _ done _ =>
      obtain ⟨d, known, signed, rfl⟩ := updateCampaign_ok done
      by_cases same : a = ctx.campaign
      · rw [← same, found] at known
        cases known
        exact ⟨change c, by rw [same, AList.lookup_insert], fun _ => signed⟩
      · exact ⟨c, by rw [AList.lookup_insert_ne same, found], fun differs => (differs rfl).elim⟩
    | @claimed ctx _ _ _ _ _ done =>
      obtain ⟨d, paid, r, totalClaims, totalPaid, known, _, quiet, free, _, mine, _, _, _, _, _, _, rfl⟩ := sound.spent done
      rw [← mine] at known free ⊢
      by_cases same : a = r.campaign
      · rw [← same, found] at known
        cases known
        exact ⟨{ c with totalClaims, totalPaid }, by rw [same, AList.lookup_insert], fun differs => (differs rfl).elim⟩
      · have kept : (entered paid r { d with totalClaims, totalPaid }).lookup a = some (.campaign c) :=
          (entered_campaign_iff ((quiet.campaign _ d).mpr known) free same).mpr ((quiet.campaign a c).mpr found)
        exact ⟨c, kept, fun differs => (differs rfl).elim⟩
    | withdrew done => exact ⟨c, ((sound.withdrawn done).2.campaign a c).mpr found, fun differs => (differs rfl).elim⟩
    | tokens done => exact ⟨c, ((tokenOp_ok done).1.campaign a c).mpr found, fun differs => (differs rfl).elim⟩

end Running

/-- In every run, of each campaign: the counters tell the number of its receipts and what was paid
for them; the vault holds what came in less what was paid and withdrawn; and its settings change only
under the signature of its authority. No request is claimed twice. A claim is paid at the rate that
is in force, in full, and only while the campaign is not paused. -/
theorem campaign_accounting (rt : Runtime) (steps : List Step) :
    let w := World.run rt steps
    (∀ a c, w.accounts.lookup a = some (.campaign c) →
      c.totalClaims.toNat = (w.receipts a).length ∧
      c.totalPaid.toNat = ((w.receipts a).map (fun r => r.amount.toNat)).sum ∧
      (∃ t, w.accounts.lookup c.vault = some (.token t) ∧
        t.amount.toNat + c.totalPaid.toNat + withdrawn w.log a = deposited w.log c.vault) ∧
      ∀ s, ∃ c', (w.step rt s).accounts.lookup a = some (.campaign c') ∧ (c'.settings ≠ c.settings → Signed s.signers c.authority = true)) ∧
    (w.log.filterMap Event.request).Nodup ∧
    (∀ x r, w.accounts.lookup x = some (.claim r) → ∃ before, .claimed r before ∈ w.log) ∧
    (∀ r before, .claimed r before ∈ w.log → r.amount.toNat = r.units.toNat * before.rewardPerUnit.toNat ∧ before.paused = false) ∧
    ∀ now signers ctx requestId serviceHash units rate out,
      call { rt with now } signers w.accounts (.claimReward ctx requestId serviceHash units rate) = .ok out →
      ∃ r before, w.accounts.lookup ctx.campaign = some (.campaign before) ∧ out.2 = [.claimed r before] ∧ r.campaign = ctx.campaign ∧
        r.requestId = requestId ∧ r.units = units := by
  intro w
  have sound : Sound w := .run rt steps
  refine ⟨fun a c found => ?_, sound.once, fun x r known => (sound.claim x r known).2, fun r before entered => ?_, ?_⟩
  · obtain ⟨_, claims, paid, _, _, t, _, lives, _, balance⟩ := sound.standing a c found
    refine ⟨?_, ?_, ⟨t, lives, balance⟩, sound.settings found⟩
    · rw [← sum_receipts] at claims
      simpa using claims
    · rw [← sum_receipts] at paid
      have cast : ((((w.receipts a).map (fun r => r.amount.toNat)).sum : ℕ) : ℤ) = ((w.receipts a).map (fun r => (r.amount.toNat : ℤ))).sum := by
        rw [Nat.cast_list_sum, List.map_map]
        rfl
      exact Int.ofNat_inj.mp (paid.trans cast.symm)
  · obtain ⟨amount, unpaused, _⟩ := sound.logged r before entered
    exact ⟨amount, unpaused⟩
  · intro now signers ctx requestId serviceHash units rate out done
    simp only [call, bind_eq_ok, pure_eq_ok] at done
    obtain ⟨accounts, done, rfl⟩ := done
    obtain ⟨c, _, r, _, _, found, _, _, _, _, mine, request, amount, _, _, _, events, _⟩ := sound.spent done
    exact ⟨r, c, found, events, mine, request, amount⟩

end OpenTela.Rewards
