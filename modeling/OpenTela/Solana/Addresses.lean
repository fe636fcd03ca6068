import OpenTela.Solana.Payments

namespace OpenTela.Solana

variable (c : Crypto)

/-- The hash of a bump, of which the account's address is one. -/
def ataHash (owner mint : List UInt8) (bump : ℕ) : Key :=
  c.sha256 ([owner, splTokenProgramID.1, mint, [UInt8.ofNat bump]].flatten ++ ataProgramID.1 ++ "ProgramDerivedAddress".toUTF8.toList)

/-- Solana's own derivation: the hash of the highest bump that is not on the curve, and an error
if all of them are. -/
def Canonical (onCurve : List UInt8 → Bool) (owner mint : List UInt8) : Except String Key → Prop
  | .ok ata => ∃ bump < 256, onCurve (ataHash c owner mint bump).1 = false ∧
      (∀ b, bump < b → b < 256 → onCurve (ataHash c owner mint b).1 = true) ∧ ata = ataHash c owner mint bump
  | .error _ => ∀ b < 256, onCurve (ataHash c owner mint b).1 = true

section Search

variable {c} {owner mint : List UInt8}

theorem createProgramAddress_eq (bump : ℕ) :
    createProgramAddress c ([owner, splTokenProgramID.1, mint] ++ [[UInt8.ofNat bump]]) ataProgramID.1 =
      if isOnCurve (ataHash c owner mint bump).1 then none else some (ataHash c owner mint bump) := rfl

variable (c owner mint) in
/-- The search from the bumps below `n`: it ends at the first hash it takes not to be on the curve. -/
theorem findProgramAddress_spec (n : ℕ) :
    match findProgramAddress c [owner, splTokenProgramID.1, mint] ataProgramID.1 n with
    | .ok ata => ∃ bump < n, isOnCurve (ataHash c owner mint bump).1 = false ∧
        (∀ b, bump < b → b < n → isOnCurve (ataHash c owner mint b).1 = true) ∧ ata = ataHash c owner mint bump
    | .error _ => ∀ b < n, isOnCurve (ataHash c owner mint b).1 = true := by
  induction n with
  | zero => simp [findProgramAddress]
  | succ bump ih =>
    unfold findProgramAddress
    rw [createProgramAddress_eq]
    cases rejected : isOnCurve (ataHash c owner mint bump).1 with
    | false =>
      simp only [Bool.false_eq_true, if_false]
      exact ⟨bump, by omega, rejected, fun b above below => by omega, rfl⟩
    | true =>
      simp only [if_true]
      have reaches : ∀ b, b < bump + 1 → b = bump ∨ b < bump := fun b below => by omega
      cases found : findProgramAddress c [owner, splTokenProgramID.1, mint] ataProgramID.1 bump with
      | ok ata =>
        rw [found] at ih
        obtain ⟨first, below, taken, higher, eq⟩ := ih
        refine ⟨first, by omega, taken, fun b above within => ?_, eq⟩
        rcases reaches b within with rfl | within
        · exact rejected
        · exact higher b above within
      | error err =>
        rw [found] at ih
        intro b within
        rcases reaches b within with rfl | within
        · exact rejected
        · exact ih b within

/-- The search is the derivation for the curve test the code has. -/
theorem findATA_canonical (known : owner.length = 32) (known' : mint.length = 32) :
    Canonical c isOnCurve owner mint (findATA c owner mint) := by
  have spec := findProgramAddress_spec c owner mint 256
  unfold findATA
  rw [if_neg (by omega)]
  cases found : findProgramAddress c [owner, splTokenProgramID.1, mint] ataProgramID.1 256 with
  | ok ata =>
    rw [found] at spec
    exact spec
  | error err =>
    rw [found] at spec
    exact spec

/-- That test rejects nothing, so the search never goes below the highest bump. -/
theorem findATA_eq (known : owner.length = 32) (known' : mint.length = 32) :
    findATA c owner mint = .ok (ataHash c owner mint 255) := by
  have canonical := findATA_canonical (c := c) known known'
  cases found : findATA c owner mint with
  | error err =>
    rw [found] at canonical
    exact absurd (canonical 255 (by omega)) Bool.false_ne_true
  | ok ata =>
    rw [found] at canonical
    obtain ⟨bump, below, _, higher, rfl⟩ := canonical
    have top : bump = 255 := by
      by_contra lower
      exact absurd (higher 255 (by omega) (by omega)) Bool.false_ne_true
    rw [top]

theorem canonical_top_iff {onCurve : List UInt8 → Bool} :
    Canonical c onCurve owner mint (.ok (ataHash c owner mint 255)) ↔ onCurve (ataHash c owner mint 255).1 = false := by
  constructor
  · rintro ⟨bump, _, off, _, same⟩
    rw [same]
    exact off
  · exact fun off => ⟨255, by omega, off, fun b above below => by omega, rfl⟩

end Search

/-- A transaction that transfers tokens to the account. -/
def Credits (dest : List UInt8) (tx : List UInt8) : Prop :=
  ∃ signer source mint amount decimals blockhash msg sig,
    buildSPLTransferChecked signer source dest mint amount decimals blockhash = some msg ∧ tx = serializeTransaction sig msg

section Payments

variable {c} {pp : PaymentProcessor}

theorem findATA_lengths {owner mint : List UInt8} {ata : Key} (derived : findATA c owner mint = .ok ata) :
    owner.length = 32 ∧ mint.length = 32 := by
  unfold findATA at derived
  split at derived
  · cases derived
  · rename_i known
    omega

theorem parties_toATA {providerAddress : String} {p : Parties} (found : parties c pp providerAddress = .ok p) :
    c.base58 providerAddress = .ok p.provider ∧ findATA c p.provider.bytes pp.mintAddress.1 = .ok p.toATA := by
  cases opened : pp.walletMgr.getPrivateKeyBytes with
  | error err => simp [parties, opened, Except.mapError, bind, Except.bind] at found
  | ok key =>
    cases decoded : c.base58 pp.walletMgr.getPublicKey with
    | error err => simp [parties, opened, decoded, Except.mapError, bind, Except.bind] at found
    | ok consumer =>
      cases decoded' : c.base58 providerAddress with
      | error err => simp [parties, opened, decoded, decoded', Except.mapError, bind, Except.bind] at found
      | ok provider =>
        cases derived : findATA c consumer.bytes pp.mintAddress.1 with
        | error err => simp [parties, opened, decoded, decoded', derived, Except.mapError, bind, Except.bind] at found
        | ok fromATA =>
          cases derived' : findATA c provider.bytes pp.mintAddress.1 with
          | error err => simp [parties, opened, decoded, decoded', derived, derived', Except.mapError, bind, Except.bind] at found
          | ok toATA =>
            rw [parties_eq c pp opened decoded decoded' derived derived'] at found
            cases found
            exact ⟨rfl, derived'⟩

/-- Every transfer of a payment goes to the account that `FindATA` gives for the provider. -/
theorem submitPayment_credits {net : Faults} {providerAddress : String} {amount : Int64} {tx : List UInt8}
    (executed : tx ∈ (submitPayment c pp net providerAddress amount).2) (transfer : IsTransfer amount.toUInt64 tx) :
    ∃ provider toATA, c.base58 providerAddress = .ok provider ∧ findATA c provider.bytes pp.mintAddress.1 = .ok toATA ∧
      Credits toATA.1 tx := by
  rcases submitPayment_ledger c pp net providerAddress amount with ⟨p, found, _, ledger⟩ | ⟨_, others⟩
  · obtain ⟨decoded, derived⟩ := parties_toATA found
    have others := provideATA_others c pp p amount providerAddress net
    obtain ⟨added, ledger_eq, _, members⟩ :=
      transferLoop_adds c pp p amount net.attempt others maxRetries 1 (.ok "") (Ledger.Adds.refl _)
    rw [ledger, ledger_eq] at executed
    rcases List.mem_append.mp executed with before | inside
    · exact absurd transfer (others tx before)
    · rcases (members tx).mp inside with none | ⟨h, ⟨k, _, _, _, executes⟩, rfl⟩
      · cases none
      · obtain ⟨blockhash, cut⟩ := executes.cut c
        exact ⟨p.provider, p.toATA, decoded, derived, _, _, _, _, _, blockhash.reach, _, _,
          by rw [p.build_eq pp amount, cut]; rfl, rfl⟩
  · exact absurd transfer (others tx executed)

end Payments

/-- The address is the canonical one exactly for the accounts whose hash of the highest bump is
not on the curve, and the same goes for the account that a payment credits. -/
theorem findATA_canonical_iff (onCurve : List UInt8 → Bool) :
    (∀ owner mint : Key, Canonical c onCurve owner.1 mint.1 (findATA c owner.1 mint.1) ↔
      onCurve (ataHash c owner.1 mint.1 255).1 = false) ∧
    ∀ pp net providerAddress amount tx, tx ∈ (submitPayment c pp net providerAddress amount).2 →
      IsTransfer amount.toUInt64 tx → ∃ provider toATA, c.base58 providerAddress = .ok provider ∧ Credits toATA.1 tx ∧
        (Canonical c onCurve provider.bytes pp.mintAddress.1 (.ok toATA) ↔
          onCurve (ataHash c provider.bytes pp.mintAddress.1 255).1 = false) := by
  refine ⟨fun owner mint => ?_, fun pp net providerAddress amount tx executed transfer => ?_⟩
  · rw [findATA_eq owner.2 mint.2]
    exact canonical_top_iff
  · obtain ⟨provider, toATA, decoded, derived, credits⟩ := submitPayment_credits executed transfer
    obtain ⟨known, known'⟩ := findATA_lengths derived
    refine ⟨provider, toATA, decoded, credits, ?_⟩
    rw [findATA_eq known known'] at derived
    cases derived
    exact canonical_top_iff

namespace Decompressed

def prime : ℕ := 2 ^ 255 - 19

/-- `b ^ e`, for an exponent of at most `bits` bits. -/
def powMod : ℕ → ℕ → ℕ → ℕ
  | 0, _, _ => 1
  | bits + 1, b, e =>
    let rest := powMod bits (b * b % prime) (e / 2)
    if e % 2 = 1 then b * rest % prime else rest

/-- The ed25519 test: the bytes are the `y` of a point if `(y² - 1) / (d y² + 1)` is a square. -/
def onCurve (bs : List UInt8) : Bool :=
  let y := bs.foldr (fun b n => 256 * n + b.toNat) 0 % 2 ^ 255
  let d := 37095705934669439343138083508754565189542113879843219016388785533085940283555
  powMod 255 ((y * y + prime - 1) * (d * y * y + 1) % prime) ((prime - 1) / 2) ≠ prime - 1

def owner : Key := ⟨4 :: List.replicate 31 0, rfl⟩

def mint : Key := ⟨2 :: List.replicate 31 0, rfl⟩

/-- What SHA-256 gives for the owner and the mint under bump 255. -/
def top : Key :=
  ⟨[167, 28, 93, 224, 33, 36, 113, 100, 62, 27, 203, 202, 195, 243, 137, 46, 218, 135, 57, 8, 50, 209, 236, 247, 100, 24, 119,
    202, 234, 83, 77, 218], rfl⟩

/-- And under bump 254. -/
def runnerUp : Key :=
  ⟨[82, 22, 9, 26, 16, 215, 44, 127, 135, 38, 13, 131, 176, 135, 167, 32, 141, 16, 238, 191, 169, 185, 224, 31, 53, 32, 168,
    133, 243, 41, 233, 100], rfl⟩

def packages : Crypto where
  base58 _ := .error "invalid base58 digit"
  sha256 bs := if bs[96]? = some 255 then top else runnerUp
  sign _ _ := ⟨List.replicate 64 1, rfl⟩

end Decompressed

open Decompressed in
/-- The hash under bump 255 is on the curve and the one under 254 is not: Solana derives the second. -/
theorem findATA_not_canonical : Canonical packages onCurve owner.1 mint.1 (.ok runnerUp) ∧
    ¬ Canonical packages onCurve owner.1 mint.1 (findATA packages owner.1 mint.1) := by
  constructor
  · refine ⟨254, by omega, by decide +kernel, fun b above below => ?_, by decide +kernel⟩
    obtain rfl : b = 255 := by omega
    decide +kernel
  · rw [findATA_eq owner.2 mint.2]
    intro canonical
    exact absurd (canonical_top_iff.mp canonical) (by decide +kernel)

end OpenTela.Solana
