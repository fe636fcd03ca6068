import OpenTela.Rewards.Effects

namespace OpenTela.Rewards

/-- The values that a receipt is about. -/
structure ReceiptValues where
  campaign : Solana.Key
  requestId : Solana.Key
  provider : Solana.Key
  serviceHash : Solana.Key
  units : UInt64
  rewardPerUnit : UInt64

def ReceiptValues.message (v : ReceiptValues) : List UInt8 :=
  receiptMessage v.campaign v.requestId v.provider v.serviceHash v.units v.rewardPerUnit

theorem ReceiptValues.message_inj {v v' : ReceiptValues} (same : v.message = v'.message) : v = v' := by
  obtain ⟨campaign, requestId, provider, serviceHash, units, rate⟩ := v
  obtain ⟨campaign', requestId', provider', serviceHash', units', rate'⟩ := v'
  obtain ⟨h₁, h₂, h₃, h₄, h₅, h₆⟩ := receiptMessage_inj same
  subst h₁ h₂ h₃ h₄ h₅ h₆
  rfl

/-- What the precompile has done before the program runs: each entry of its instructions that
stays within them has a signature that is valid. -/
def Precompiled (valid : Solana.Key → List UInt8 → List UInt8 → Prop) (instructions : Instructions) : Prop :=
  ∀ instruction ∈ instructions.all, instruction.programId = ed25519ProgramID →
    ∀ i < (instruction.data.getD 0 0).toNat, ∀ key : Solana.Key, (entryAt instruction.data i).Local →
      (entryAt instruction.data i).publicKey instruction.data = key.1 →
      valid key ((entryAt instruction.data i).message instruction.data) ((entryAt instruction.data i).signature instruction.data)

theorem Attests.signed {valid : Solana.Key → List UInt8 → List UInt8 → Prop} {instructions : Instructions} (checked : Precompiled valid instructions)
    {instruction : Instruction} (member : instruction ∈ instructions.all) {key : Solana.Key} {message : List UInt8}
    (attests : Attests instruction key message) : ∃ signature, valid key message signature := by
  obtain ⟨program, i, few, _, _, _, here, named, said⟩ := attests
  have verified := checked instruction member program i few key here named
  rw [said] at verified
  exact ⟨_, verified⟩

theorem verifyPrevious_ok {instructions : Instructions} {key : Solana.Key} {message : List UInt8}
    (verified : verifyPreviousEd25519Instruction instructions key message = some (.ok ())) :
    ∃ instruction ∈ instructions.all, Attests instruction key message := by
  unfold verifyPreviousEd25519Instruction at verified
  split at verified
  · cases verified
  · have inside : instructions.current - 1 < instructions.all.length := by
      have := instructions.running
      omega
    obtain ⟨answer, found, succeeds⟩ := verifyEd25519Instruction_spec instructions.all[instructions.current - 1] key message
    dsimp only at verified
    rw [found] at verified
    exact ⟨_, List.getElem_mem inside, succeeds.mp (Option.some.inj verified)⟩

/-- The verification does not panic, and it succeeds exactly when an entry that the loop comes to
names the key and the message. No two receipts have the same message. What is claimed has been
signed by the head authority of the campaign, with just these values. -/
theorem receipt_authorised (valid : Solana.Key → List UInt8 → List UInt8 → Prop) :
    (∀ instruction key message, ∃ answer, verifyEd25519Instruction instruction key message = some answer ∧
      (answer = .ok () ↔ Attests instruction key message)) ∧
    (∀ v v' : ReceiptValues, v.message = v'.message → v = v') ∧
    ∀ rt signers w w' ctx requestId serviceHash units rewardPerUnit, Precompiled valid ctx.instructions →
      claimReward rt signers w ctx requestId serviceHash units rewardPerUnit = .ok w' →
      ∃ campaign signature, w.lookup ctx.campaign = some (.campaign campaign) ∧
        valid campaign.headAuthority
          (ReceiptValues.message ⟨rt.pubkey ctx.campaign, requestId, rt.pubkey ctx.provider, serviceHash, units, rewardPerUnit⟩) signature := by
  refine ⟨verifyEd25519Instruction_spec, fun v v' => ReceiptValues.message_inj,
    fun rt signers w w' ctx requestId serviceHash units rewardPerUnit checked done => ?_⟩
  obtain ⟨c, _, _, _, _, _, _, _, found, _, _, _, _, _, _, _, _, _, _, _, _, _, _, _, _, _, verified, _⟩ := claimReward_ok done
  obtain ⟨instruction, member, attests⟩ := verifyPrevious_ok verified
  obtain ⟨signature, signed⟩ := attests.signed checked member
  exact ⟨c, signature, found, signed⟩

namespace Redeemed

open Solana (repeated)

def mint : Address := .key (repeated 2)

def provider : Address := .key (repeated 3)

def head : Solana.Key := repeated 4

def campaign : Address := .campaign (.key (repeated 1)) mint

def vault : Address := .associated (.vaultAuthority campaign) mint .token

def rt : Runtime where
  pubkey
    | .key k => k
    | _ => repeated 5
  bump := fun _ => 255
  now := 0

/-- The campaign pays 5 a unit, and has 1000 to pay with. -/
def accounts : Accounts :=
  ((AList.insert campaign (.campaign {
    authority := .key (repeated 1)
    headAuthority := head
    rewardMint := mint
    vault
    vaultAuthority := .vaultAuthority campaign
    rewardPerUnit := 5
    paused := false
    campaignBump := 255
    vaultAuthorityBump := 255
    totalClaims := 0
    totalPaid := 0
    createdAt := 0 }) ∅).insert mint (.mint ⟨.token, 9, none⟩)).insert vault (.token ⟨.token, mint, .vaultAuthority campaign, 1000⟩)

/-- A request of 20 units. -/
def receipt : ReceiptValues := ⟨repeated 5, repeated 6, repeated 3, repeated 7, 20, 5⟩

/-- One entry: the head's key, the signature, and the receipt. -/
def attestation : Instruction where
  programId := ed25519ProgramID
  data := [1, 0, 48, 0, 255, 255, 16, 0, 255, 255, 112, 0, 162, 0, 255, 255] ++ head.1 ++ List.replicate 64 8 ++ receipt.message

def instructions : Instructions := ⟨[attestation, ⟨repeated 9, []⟩], 1, by decide⟩

def ctx : ClaimReward where
  campaign
  provider
  claim := .claim campaign receipt.requestId
  vault
  vaultAuthority := .vaultAuthority campaign
  rewardMint := mint
  providerTokenAccount := .associated provider mint .token
  instructions
  tokenProgram := .token

def signers : List Solana.Key := [repeated 3]

/-- The head has signed the receipt, and nothing else. -/
def valid (key : Solana.Key) (message _ : List UInt8) : Prop := key = head ∧ message = receipt.message

theorem checked : Precompiled valid instructions := by
  intro instruction member program i few key _ named
  rcases List.mem_pair.mp member with rfl | rfl
  · obtain rfl : i = 0 := Nat.lt_one_iff.mp few
    have same : head.1 = key.1 := Eq.trans (by decide +kernel) named
    exact ⟨Subtype.ext same.symm, by decide +kernel⟩
  · exact absurd program (by decide +kernel)

theorem goes_through : (claimReward rt signers accounts ctx receipt.requestId receipt.serviceHash receipt.units receipt.rewardPerUnit).isOk := by
  decide +kernel

end Redeemed

open Redeemed in
/-- A claim that goes through. -/
theorem receipt_authorised_claimed : ∃ campaign signature, accounts.lookup ctx.campaign = some (.campaign campaign) ∧
    valid campaign.headAuthority receipt.message signature := by
  cases done : claimReward rt signers accounts ctx receipt.requestId receipt.serviceHash receipt.units receipt.rewardPerUnit with
  | error e =>
    have through := goes_through
    rw [done] at through
    cases through
  | ok w' =>
    obtain ⟨_, _, authorised⟩ := receipt_authorised valid
    have same : (⟨rt.pubkey ctx.campaign, receipt.requestId, rt.pubkey ctx.provider, receipt.serviceHash, receipt.units,
      receipt.rewardPerUnit⟩ : ReceiptValues) = receipt := rfl
    rw [← same]
    exact authorised rt _ accounts w' ctx _ _ _ _ checked done

end OpenTela.Rewards
