import OpenTela.Lib.Batch
import OpenTela.Rewards.Receipts

namespace OpenTela.Rewards

inductive TokenProgram where
  | token
  | token2022
  deriving DecidableEq

/-- Addresses. A derived one belongs to no private key, and no two derivations give the same. -/
inductive Address where
  | key (k : Solana.Key)
  | campaign (authority mint : Address)
  | vaultAuthority (campaign : Address)
  | claim (campaign : Address) (requestId : Solana.Key)
  | associated (owner mint : Address) (program : TokenProgram)
  deriving DecidableEq

structure RewardCampaign where
  authority : Address
  headAuthority : Solana.Key
  rewardMint : Address
  vault : Address
  vaultAuthority : Address
  rewardPerUnit : UInt64
  paused : Bool
  campaignBump : UInt8
  vaultAuthorityBump : UInt8
  totalClaims : UInt64
  totalPaid : UInt64
  createdAt : Int64

structure ClaimReceipt where
  campaign : Address
  provider : Address
  headAuthority : Solana.Key
  requestId : Solana.Key
  serviceHash : Solana.Key
  units : UInt64
  rewardPerUnit : UInt64
  amount : UInt64
  claimedAt : Int64
  bump : UInt8

structure Mint where
  program : TokenProgram
  decimals : UInt8
  authority : Option Address

structure TokenAccount where
  program : TokenProgram
  mint : Address
  owner : Address
  amount : UInt64

inductive Account where
  | campaign (c : RewardCampaign)
  | claim (r : ClaimReceipt)
  | mint (m : Mint)
  | token (t : TokenAccount)

abbrev Accounts := Store Address Account

inductive ProgramError where
  | reward (e : RewardError)
  | accountNotSigner
  | accountNotInitialized
  | accountAlreadyInUse
  | constraintHasOne
  | constraintSeeds
  | constraintTokenMint
  | constraintTokenOwner
  | constraintAssociated
  | incorrectProgramId
  | insufficientFunds
  | mintDecimalsMismatch
  | ownerMismatch
  | fixedSupply
  | overflow
  | panicked
  deriving DecidableEq

def require (p : Prop) [Decidable p] (e : ProgramError) : Except ProgramError Unit := if p then .ok () else .error e

def checkedAdd (a b : UInt64) : Option UInt64 := if a.toNat + b.toNat < 2 ^ 64 then some (a + b) else none

def checkedMul (a b : UInt64) : Option UInt64 := if a.toNat * b.toNat < 2 ^ 64 then some (a * b) else none

def okOr {α : Type} (e : ProgramError) : Option α → Except ProgramError α
  | some a => .ok a
  | none => .error e

/-- The bytes of the addresses, the bumps of those that are derived, and the time. -/
structure Runtime where
  pubkey : Address → Solana.Key
  bump : Address → UInt8
  now : Int64

def Signed (signers : List Solana.Key) : Address → Bool
  | .key k => k ∈ signers
  | _ => false

section Loading

variable (w : Accounts)

def loadCampaign (a : Address) : Except ProgramError RewardCampaign :=
  match w.lookup a with
  | some (.campaign c) => .ok c
  | _ => .error .accountNotInitialized

def loadMint (a : Address) : Except ProgramError Mint :=
  match w.lookup a with
  | some (.mint m) => .ok m
  | _ => .error .accountNotInitialized

def loadToken (a : Address) : Except ProgramError TokenAccount :=
  match w.lookup a with
  | some (.token t) => .ok t
  | _ => .error .accountNotInitialized

/-- A new token account. Its mint has to be one of the same program. -/
def createToken (a owner mint : Address) (program : TokenProgram) : Except ProgramError Accounts := do
  require (w.lookup a = none) .accountAlreadyInUse
  let m ← loadMint w mint
  require (m.program = program) .incorrectProgramId
  return w.insert a (.token ⟨program, mint, owner, 0⟩)

/-- `init_if_needed` on an associated token account. -/
def initIfNeeded (a owner mint : Address) (program : TokenProgram) : Except ProgramError Accounts := do
  require (a = .associated owner mint program) .constraintAssociated
  match w.lookup a with
  | none => createToken w a owner mint program
  | some _ => do
    let t ← loadToken w a
    require (t.mint = mint) .constraintTokenMint
    require (t.owner = owner) .constraintTokenOwner
    require (t.program = program) .incorrectProgramId
    return w

/-- `transfer_checked`. The authority is known to have signed. -/
def transferChecked (program : TokenProgram) (source mint dest authority : Address) (amount : UInt64) (decimals : UInt8) :
    Except ProgramError Accounts := do
  let s ← loadToken w source
  let d ← loadToken w dest
  let m ← loadMint w mint
  require (s.program = program ∧ d.program = program ∧ m.program = program) .incorrectProgramId
  require (amount ≤ s.amount) .insufficientFunds
  require (s.mint = mint ∧ d.mint = mint) .constraintTokenMint
  require (m.decimals = decimals) .mintDecimalsMismatch
  require (authority = s.owner) .ownerMismatch
  if source = dest then return w
  else
    let credited ← okOr .overflow (checkedAdd d.amount amount)
    return (w.insert source (.token { s with amount := s.amount - amount })).insert dest (.token { d with amount := credited })

end Loading

structure InitializeCampaign where
  authority : Address
  rewardMint : Address
  campaign : Address
  vaultAuthority : Address
  vault : Address
  tokenProgram : TokenProgram

structure UpdateCampaign where
  authority : Address
  campaign : Address

structure ClaimReward where
  campaign : Address
  provider : Address
  claim : Address
  vault : Address
  vaultAuthority : Address
  rewardMint : Address
  providerTokenAccount : Address
  instructions : Instructions
  tokenProgram : TokenProgram

structure WithdrawUnclaimed where
  authority : Address
  campaign : Address
  vault : Address
  vaultAuthority : Address
  rewardMint : Address
  authorityTokenAccount : Address
  tokenProgram : TokenProgram

section Instructions

variable (rt : Runtime) (signers : List Solana.Key) (w : Accounts)

def initializeCampaign (ctx : InitializeCampaign) (rewardPerUnit : UInt64) (headAuthority : Solana.Key) : Except ProgramError Accounts := do
  require (Signed signers ctx.authority) .accountNotSigner
  let _ ← loadMint w ctx.rewardMint
  require (ctx.campaign = .campaign ctx.authority ctx.rewardMint) .constraintSeeds
  require (w.lookup ctx.campaign = none) .accountAlreadyInUse
  require (ctx.vaultAuthority = .vaultAuthority ctx.campaign) .constraintSeeds
  require (ctx.vault = .associated ctx.vaultAuthority ctx.rewardMint ctx.tokenProgram) .constraintAssociated
  let w ← createToken w ctx.vault ctx.vaultAuthority ctx.rewardMint ctx.tokenProgram
  require (0 < rewardPerUnit) (.reward .invalidRewardRate)
  return w.insert ctx.campaign (.campaign {
    authority := ctx.authority
    headAuthority
    rewardMint := ctx.rewardMint
    vault := ctx.vault
    vaultAuthority := ctx.vaultAuthority
    rewardPerUnit
    paused := false
    campaignBump := rt.bump ctx.campaign
    vaultAuthorityBump := rt.bump ctx.vaultAuthority
    totalClaims := 0
    totalPaid := 0
    createdAt := rt.now })

/-- The checks of `UpdateCampaign`, and what is written back. -/
def updateCampaign (ctx : UpdateCampaign) (change : RewardCampaign → RewardCampaign) : Except ProgramError Accounts := do
  require (Signed signers ctx.authority) .accountNotSigner
  let campaign ← loadCampaign w ctx.campaign
  require (campaign.authority = ctx.authority) .constraintHasOne
  return w.insert ctx.campaign (.campaign (change campaign))

def setRewardRate (ctx : UpdateCampaign) (rewardPerUnit : UInt64) : Except ProgramError Accounts := do
  let w ← updateCampaign signers w ctx (fun campaign => { campaign with rewardPerUnit })
  require (0 < rewardPerUnit) (.reward .invalidRewardRate)
  return w

def setHeadAuthority (ctx : UpdateCampaign) (headAuthority : Solana.Key) : Except ProgramError Accounts :=
  updateCampaign signers w ctx (fun campaign => { campaign with headAuthority })

def setPaused (ctx : UpdateCampaign) (paused : Bool) : Except ProgramError Accounts :=
  updateCampaign signers w ctx (fun campaign => { campaign with paused })

/-- What `ClaimReward` and `WithdrawUnclaimed` both ask of the vault. -/
def checkVault (campaign : RewardCampaign) (campaignKey vault vaultAuthority rewardMint : Address) : Except ProgramError Mint := do
  require (campaign.rewardMint = rewardMint ∧ campaign.vault = vault ∧ campaign.vaultAuthority = vaultAuthority) .constraintHasOne
  let v ← loadToken w vault
  require (v.mint = rewardMint ∧ v.owner = vaultAuthority) (.reward .invalidVault)
  require (vaultAuthority = .vaultAuthority campaignKey ∧ campaign.vaultAuthorityBump = rt.bump vaultAuthority) .constraintSeeds
  loadMint w rewardMint

def claimReward (ctx : ClaimReward) (requestId serviceHash : Solana.Key) (units rewardPerUnit : UInt64) : Except ProgramError Accounts := do
  let campaign ← loadCampaign w ctx.campaign
  require (Signed signers ctx.provider) .accountNotSigner
  require (ctx.claim = .claim ctx.campaign requestId) .constraintSeeds
  require (w.lookup ctx.claim = none) .accountAlreadyInUse
  let mint ← checkVault rt w campaign ctx.campaign ctx.vault ctx.vaultAuthority ctx.rewardMint
  let w ← initIfNeeded w ctx.providerTokenAccount ctx.provider ctx.rewardMint ctx.tokenProgram
  require (campaign.paused = false) (.reward .campaignPaused)
  require (0 < units) (.reward .invalidUsageUnits)
  require (rewardPerUnit = campaign.rewardPerUnit) (.reward .rewardRateMismatch)
  let amount ← okOr (.reward .rewardOverflow) (checkedMul units rewardPerUnit)
  let message := receiptMessage (rt.pubkey ctx.campaign) requestId (rt.pubkey ctx.provider) serviceHash units rewardPerUnit
  let verified ← okOr .panicked (verifyPreviousEd25519Instruction ctx.instructions campaign.headAuthority message)
  let () ← verified.mapError .reward
  let w ← transferChecked w ctx.tokenProgram ctx.vault ctx.rewardMint ctx.providerTokenAccount ctx.vaultAuthority amount mint.decimals
  let totalClaims ← okOr (.reward .counterOverflow) (checkedAdd campaign.totalClaims 1)
  let totalPaid ← okOr (.reward .counterOverflow) (checkedAdd campaign.totalPaid amount)
  let claim : ClaimReceipt := {
    campaign := ctx.campaign
    provider := ctx.provider
    headAuthority := campaign.headAuthority
    requestId
    serviceHash
    units
    rewardPerUnit
    amount
    claimedAt := rt.now
    bump := rt.bump ctx.claim }
  return (w.insert ctx.claim (.claim claim)).insert ctx.campaign (.campaign { campaign with totalClaims, totalPaid })

def withdrawUnclaimed (ctx : WithdrawUnclaimed) (amount : UInt64) : Except ProgramError Accounts := do
  require (Signed signers ctx.authority) .accountNotSigner
  let campaign ← loadCampaign w ctx.campaign
  require (campaign.authority = ctx.authority) .constraintHasOne
  let mint ← checkVault rt w campaign ctx.campaign ctx.vault ctx.vaultAuthority ctx.rewardMint
  let w ← initIfNeeded w ctx.authorityTokenAccount ctx.authority ctx.rewardMint ctx.tokenProgram
  require (0 < amount) (.reward .invalidWithdrawAmount)
  transferChecked w ctx.tokenProgram ctx.vault ctx.rewardMint ctx.authorityTokenAccount ctx.vaultAuthority amount mint.decimals

end Instructions

end OpenTela.Rewards
