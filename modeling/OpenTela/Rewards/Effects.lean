import OpenTela.Rewards.Program

namespace OpenTela.Rewards

section Results

variable {α β : Type} {ε : Type}

@[simp] theorem bind_eq_ok {x : Except ε α} {f : α → Except ε β} {b : β} : x >>= f = .ok b ↔ ∃ a, x = .ok a ∧ f a = .ok b := by
  cases x <;> simp [bind, Except.bind]

@[simp] theorem require_eq_ok {p : Prop} [Decidable p] {e : ProgramError} {u : Unit} : require p e = .ok u ↔ p := by
  unfold require
  split <;> simp_all

@[simp] theorem okOr_eq_ok {e : ProgramError} {o : Option α} {a : α} : okOr e o = .ok a ↔ o = some a := by
  cases o <;> simp [okOr]

@[simp] theorem pure_eq_ok {a b : α} : (pure a : Except ε α) = .ok b ↔ a = b := by
  simp [pure, Except.pure]

theorem checkedAdd_eq {a b c : UInt64} (added : checkedAdd a b = some c) : c.toNat = a.toNat + b.toNat := by
  unfold checkedAdd at added
  split at added
  · rename_i fits
    cases added
    rw [UInt64.toNat_add]
    exact Nat.mod_eq_of_lt fits
  · cases added

theorem checkedMul_eq {a b c : UInt64} (multiplied : checkedMul a b = some c) : c.toNat = a.toNat * b.toNat := by
  unfold checkedMul at multiplied
  split at multiplied
  · rename_i fits
    cases multiplied
    rw [UInt64.toNat_mul]
    exact Nat.mod_eq_of_lt fits
  · cases multiplied

@[simp] theorem loadCampaign_eq_ok {w : Accounts} {a : Address} {c : RewardCampaign} :
    loadCampaign w a = .ok c ↔ w.lookup a = some (.campaign c) := by
  unfold loadCampaign
  split <;> simp_all

@[simp] theorem loadMint_eq_ok {w : Accounts} {a : Address} {m : Mint} : loadMint w a = .ok m ↔ w.lookup a = some (.mint m) := by
  unfold loadMint
  split <;> simp_all

@[simp] theorem loadToken_eq_ok {w : Accounts} {a : Address} {t : TokenAccount} :
    loadToken w a = .ok t ↔ w.lookup a = some (.token t) := by
  unfold loadToken
  split <;> simp_all

theorem Signed.key {signers : List Solana.Key} {a : Address} (signed : Signed signers a = true) : ∃ k, a = .key k := by
  cases a with
  | key k => exact ⟨k, rfl⟩
  | _ => cases signed

end Results

section Effects

variable {w w' : Accounts}

theorem createToken_ok {a owner mint : Address} {program : TokenProgram} (created : createToken w a owner mint program = .ok w') :
    w.lookup a = none ∧ w' = w.insert a (.token ⟨program, mint, owner, 0⟩) := by
  simp only [createToken, bind_eq_ok, require_eq_ok, pure_eq_ok] at created
  obtain ⟨_, free, _, _, _, _, rfl⟩ := created
  exact ⟨free, rfl⟩

theorem initIfNeeded_ok {a owner mint : Address} {program : TokenProgram} (made : initIfNeeded w a owner mint program = .ok w') :
    a = .associated owner mint program ∧ (w' = w ∨ w.lookup a = none ∧ w' = w.insert a (.token ⟨program, mint, owner, 0⟩)) := by
  simp only [initIfNeeded, bind_eq_ok, require_eq_ok] at made
  obtain ⟨_, derived, made⟩ := made
  refine ⟨derived, ?_⟩
  split at made
  · exact .inr (createToken_ok made)
  · simp only [bind_eq_ok, require_eq_ok, pure_eq_ok] at made
    obtain ⟨_, _, _, _, _, _, _, _, rfl⟩ := made
    exact .inl rfl

/-- A transfer takes an amount from the one account, which has it, and gives it to the other. -/
theorem transferChecked_ok {program : TokenProgram} {source mint dest authority : Address} {amount : UInt64} {decimals : UInt8}
    (moved : transferChecked w program source mint dest authority amount decimals = .ok w') :
    ∃ s d, w.lookup source = some (.token s) ∧ w.lookup dest = some (.token d) ∧ amount.toNat ≤ s.amount.toNat ∧ authority = s.owner ∧
      (source = dest ∧ w' = w ∨ source ≠ dest ∧ ∃ credited : UInt64, credited.toNat = d.amount.toNat + amount.toNat ∧
        w' = (w.insert source (.token { s with amount := s.amount - amount })).insert dest (.token { d with amount := credited })) := by
  simp only [transferChecked, bind_eq_ok, require_eq_ok, loadToken_eq_ok, loadMint_eq_ok] at moved
  obtain ⟨s, hasSource, d, hasDest, _, _, _, _, _, enough, _, _, _, _, _, owner, moved⟩ := moved
  refine ⟨s, d, hasSource, hasDest, UInt64.le_iff_toNat_le.mp enough, owner, ?_⟩
  split at moved
  · rename_i same
    exact .inl ⟨same, (pure_eq_ok.mp moved).symm⟩
  · rename_i different
    simp only [bind_eq_ok, okOr_eq_ok, pure_eq_ok] at moved
    obtain ⟨credited, added, rfl⟩ := moved
    exact .inr ⟨different, credited, checkedAdd_eq added, rfl⟩

theorem checkVault_ok {rt : Runtime} {campaign : RewardCampaign} {campaignKey vault vaultAuthority rewardMint : Address} {m : Mint}
    (checked : checkVault rt w campaign campaignKey vault vaultAuthority rewardMint = .ok m) :
    campaign.rewardMint = rewardMint ∧ campaign.vault = vault ∧ campaign.vaultAuthority = vaultAuthority := by
  simp only [checkVault, bind_eq_ok, require_eq_ok] at checked
  exact checked.choose_spec.1

theorem initializeCampaign_ok {rt : Runtime} {signers : List Solana.Key} {ctx : InitializeCampaign} {rate : UInt64} {head : Solana.Key}
    (initialized : initializeCampaign rt signers w ctx rate head = .ok w') :
    ∃ c : RewardCampaign, Signed signers c.authority = true ∧ ctx.campaign = .campaign c.authority c.rewardMint ∧
      w.lookup ctx.campaign = none ∧ c.vaultAuthority = .vaultAuthority ctx.campaign ∧
      (∃ program, c.vault = .associated c.vaultAuthority c.rewardMint program ∧ w.lookup c.vault = none ∧
        w' = (w.insert c.vault (.token ⟨program, c.rewardMint, c.vaultAuthority, 0⟩)).insert ctx.campaign (.campaign c)) ∧
      c.totalClaims = 0 ∧ c.totalPaid = 0 := by
  simp only [initializeCampaign, bind_eq_ok, require_eq_ok, loadMint_eq_ok, pure_eq_ok] at initialized
  obtain ⟨_, signed, _, _, _, seeds, _, free, _, authority, _, vault, between, created, _, _, rfl⟩ := initialized
  obtain ⟨unused, rfl⟩ := createToken_ok created
  exact ⟨_, signed, seeds, free, authority, ⟨_, vault, unused, rfl⟩, rfl, rfl⟩

theorem updateCampaign_ok {signers : List Solana.Key} {ctx : UpdateCampaign} {change : RewardCampaign → RewardCampaign}
    (updated : updateCampaign signers w ctx change = .ok w') :
    ∃ c, w.lookup ctx.campaign = some (.campaign c) ∧ Signed signers c.authority = true ∧ w' = w.insert ctx.campaign (.campaign (change c)) := by
  simp only [updateCampaign, bind_eq_ok, require_eq_ok, loadCampaign_eq_ok, pure_eq_ok] at updated
  obtain ⟨_, signed, c, found, _, owner, rfl⟩ := updated
  exact ⟨c, found, owner ▸ signed, rfl⟩

theorem setRewardRate_ok {signers : List Solana.Key} {ctx : UpdateCampaign} {rewardPerUnit : UInt64}
    (updated : setRewardRate signers w ctx rewardPerUnit = .ok w') :
    updateCampaign signers w ctx (fun campaign => { campaign with rewardPerUnit }) = .ok w' := by
  simp only [setRewardRate, bind_eq_ok, require_eq_ok, pure_eq_ok] at updated
  obtain ⟨_, updated, _, _, rfl⟩ := updated
  exact updated

theorem claimReward_ok {rt : Runtime} {signers : List Solana.Key} {ctx : ClaimReward} {requestId serviceHash : Solana.Key} {units rate : UInt64}
    (claimed : claimReward rt signers w ctx requestId serviceHash units rate = .ok w') :
    ∃ (c : RewardCampaign) (between paid : Accounts) (amount totalClaims totalPaid : UInt64) (decimals : UInt8) (r : ClaimReceipt),
      w.lookup ctx.campaign = some (.campaign c) ∧ c.paused = false ∧ Signed signers ctx.provider = true ∧
      ctx.claim = .claim ctx.campaign requestId ∧ w.lookup (.claim ctx.campaign requestId) = none ∧
      initIfNeeded w ctx.providerTokenAccount ctx.provider ctx.rewardMint ctx.tokenProgram = .ok between ∧
      transferChecked between ctx.tokenProgram c.vault ctx.rewardMint ctx.providerTokenAccount c.vaultAuthority amount decimals = .ok paid ∧
      rate = c.rewardPerUnit ∧ amount.toNat = units.toNat * rate.toNat ∧ totalClaims.toNat = c.totalClaims.toNat + 1 ∧
      totalPaid.toNat = c.totalPaid.toNat + amount.toNat ∧
      r.campaign = ctx.campaign ∧ r.provider = ctx.provider ∧ r.requestId = requestId ∧ r.serviceHash = serviceHash ∧ r.units = units ∧
      r.rewardPerUnit = rate ∧ r.amount = amount ∧
      verifyPreviousEd25519Instruction ctx.instructions c.headAuthority
        (receiptMessage (rt.pubkey ctx.campaign) requestId (rt.pubkey ctx.provider) serviceHash units rate) = some (.ok ()) ∧
      w' = (paid.insert (.claim ctx.campaign requestId) (.claim r)).insert ctx.campaign (.campaign { c with totalClaims, totalPaid }) := by
  simp only [claimReward, bind_eq_ok, require_eq_ok, loadCampaign_eq_ok, okOr_eq_ok, pure_eq_ok] at claimed
  obtain ⟨c, found, _, signed, _, seeds, _, free, mint, checked, between, made, _, unpaused, _, _, _, sameRate, amount, multiplied, verified,
    ran, _, accepted, paid, moved, totalClaims, counted, totalPaid, summed, rfl⟩ := claimed
  obtain ⟨_, vault, authority⟩ := checkVault_ok checked
  rw [seeds] at free
  rw [← vault, ← authority] at moved
  have ok : verified = .ok () := by
    cases verified with
    | error e => cases accepted
    | ok u => rfl
  refine ⟨c, between, paid, amount, totalClaims, totalPaid, mint.decimals,
    ⟨ctx.campaign, ctx.provider, c.headAuthority, requestId, serviceHash, units, rate, amount, rt.now, rt.bump ctx.claim⟩, found, unpaused, signed, seeds, free, made, moved, sameRate,
    checkedMul_eq multiplied, checkedAdd_eq counted, checkedAdd_eq summed, rfl, rfl, rfl, rfl, rfl, rfl, rfl, ok ▸ ran, ?_⟩
  rw [seeds]

theorem withdrawUnclaimed_ok {rt : Runtime} {signers : List Solana.Key} {ctx : WithdrawUnclaimed} {amount : UInt64}
    (withdrawn : withdrawUnclaimed rt signers w ctx amount = .ok w') :
    ∃ (c : RewardCampaign) (between : Accounts) (decimals : UInt8), w.lookup ctx.campaign = some (.campaign c) ∧
      Signed signers c.authority = true ∧
      initIfNeeded w ctx.authorityTokenAccount c.authority ctx.rewardMint ctx.tokenProgram = .ok between ∧
      transferChecked between ctx.tokenProgram c.vault ctx.rewardMint ctx.authorityTokenAccount c.vaultAuthority amount decimals = .ok w' := by
  simp only [withdrawUnclaimed, bind_eq_ok, require_eq_ok, loadCampaign_eq_ok] at withdrawn
  obtain ⟨_, signed, c, found, _, owner, mint, checked, between, made, _, _, moved⟩ := withdrawn
  obtain ⟨_, vault, authority⟩ := checkVault_ok checked
  rw [← vault, ← authority] at moved
  exact ⟨c, between, mint.decimals, found, owner ▸ signed, owner ▸ made, moved⟩

end Effects

end OpenTela.Rewards
