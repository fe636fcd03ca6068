import OpenTela.Solana.Encoding
import Mathlib.Data.List.GetD

namespace OpenTela.Rewards

inductive RewardError where
  | invalidRewardRate
  | campaignPaused
  | invalidUsageUnits
  | rewardRateMismatch
  | rewardOverflow
  | counterOverflow
  | invalidVault
  | invalidWithdrawAmount
  | missingEd25519Instruction
  | invalidEd25519Instruction
  | receiptSignatureMismatch
  deriving DecidableEq

def receiptDomain : List UInt8 := "OPENTELA_REWARD_V1".toList.map (fun ch => UInt8.ofNat ch.toNat)

def receiptMessage (campaign requestId provider serviceHash : Solana.Key) (units rewardPerUnit : UInt64) : List UInt8 :=
  receiptDomain ++ campaign.1 ++ requestId.1 ++ provider.1 ++ serviceHash.1 ++ leBytes 8 units.toNat ++ leBytes 8 rewardPerUnit.toNat

theorem toNat_lt_pow (n : UInt64) : n.toNat < 256 ^ 8 := n.toNat_lt

theorem receiptMessage_inj {campaign campaign' requestId requestId' provider provider' serviceHash serviceHash' : Solana.Key}
    {units units' rate rate' : UInt64}
    (same : receiptMessage campaign requestId provider serviceHash units rate =
      receiptMessage campaign' requestId' provider' serviceHash' units' rate') :
    campaign = campaign' ∧ requestId = requestId' ∧ provider = provider' ∧ serviceHash = serviceHash' ∧ units = units' ∧ rate = rate' := by
  have size : ∀ k k' : Solana.Key, k.1.length = k'.1.length := fun k k' => k.2.trans k'.2.symm
  simp only [receiptMessage, List.append_assoc, List.append_cancel_left_eq] at same
  obtain ⟨sameCampaign, same⟩ := List.append_inj same (size _ _)
  obtain ⟨sameRequest, same⟩ := List.append_inj same (size _ _)
  obtain ⟨sameProvider, same⟩ := List.append_inj same (size _ _)
  obtain ⟨sameService, same⟩ := List.append_inj same (size _ _)
  obtain ⟨sameUnits, sameRate⟩ := List.append_inj same (by simp)
  exact ⟨Subtype.ext sameCampaign, Subtype.ext sameRequest, Subtype.ext sameProvider, Subtype.ext sameService,
    UInt64.toNat_inj.mp (leBytes_inj (toNat_lt_pow _) (toNat_lt_pow _) sameUnits),
    UInt64.toNat_inj.mp (leBytes_inj (toNat_lt_pow _) (toNat_lt_pow _) sameRate)⟩

structure Instruction where
  programId : Solana.Key
  data : List UInt8

def ed25519ProgramID : Solana.Key :=
  ⟨[3, 125, 70, 214, 124, 147, 251, 190, 18, 249, 66, 143, 131, 141, 64, 255, 5, 112, 116, 73, 39, 244, 138, 100, 252, 202, 112, 68,
    128, 0, 0, 0], rfl⟩

example : Solana.base58Decode "Ed25519SigVerify111111111111111111111111111" = some ed25519ProgramID.1 := by decide +kernel

def readU16 (data : List UInt8) (offset : ℕ) : Except RewardError UInt16 :=
  match data[offset]?, data[offset + 1]? with
  | some low, some high => .ok (UInt16.ofNat (low.toNat + 256 * high.toNat))
  | _, _ => .error .invalidEd25519Instruction

/-- Where a signature, its key and its message are, each in the data of some instruction. -/
structure Entry where
  signatureOffset : UInt16
  signatureInstructionIndex : UInt16
  publicKeyOffset : UInt16
  publicKeyInstructionIndex : UInt16
  messageOffset : UInt16
  messageSize : UInt16
  messageInstructionIndex : UInt16

def readEntry (data : List UInt8) (offset : ℕ) : Except RewardError Entry := do
  let signatureOffset ← readU16 data offset
  let signatureInstructionIndex ← readU16 data (offset + 2)
  let publicKeyOffset ← readU16 data (offset + 4)
  let publicKeyInstructionIndex ← readU16 data (offset + 6)
  let messageOffset ← readU16 data (offset + 8)
  let messageSize ← readU16 data (offset + 10)
  let messageInstructionIndex ← readU16 data (offset + 12)
  return ⟨signatureOffset, signatureInstructionIndex, publicKeyOffset, publicKeyInstructionIndex, messageOffset, messageSize,
    messageInstructionIndex⟩

/-- `data[start..stop]`, which panics outside the data. -/
def slice (data : List UInt8) (start stop : ℕ) : Option (List UInt8) :=
  if start ≤ stop ∧ stop ≤ data.length then some ((data.take stop).drop start) else none

def currentInstruction : UInt16 := 65535

/-- One turn of the loop, which goes on after `false`. `none` is a panic, here and below. -/
def verifyEntry (data : List UInt8) (expectedPubkey : Solana.Key) (expectedMessage : List UInt8) (signatureIndex : ℕ) :
    Option (Except RewardError Bool) :=
  let offset := 2 + signatureIndex * 14
  if data.length < offset + 14 then some (.error .invalidEd25519Instruction)
  else
    match readEntry data offset with
    | .error e => some (.error e)
    | .ok entry =>
      if entry.signatureInstructionIndex ≠ currentInstruction ∨ entry.publicKeyInstructionIndex ≠ currentInstruction ∨
          entry.messageInstructionIndex ≠ currentInstruction then some (.ok false)
      else
        let messageEnd := entry.messageOffset.toNat + entry.messageSize.toNat
        if 2 ^ 64 ≤ messageEnd then some (.error .invalidEd25519Instruction)
        else if data.length < entry.signatureOffset.toNat + 64 ∨ data.length < entry.publicKeyOffset.toNat + 32 ∨
            data.length < messageEnd then some (.error .invalidEd25519Instruction)
        else do
          let verifiedPubkey ← slice data entry.publicKeyOffset.toNat (entry.publicKeyOffset.toNat + 32)
          let verifiedMessage ← slice data entry.messageOffset.toNat messageEnd
          return .ok (verifiedPubkey = expectedPubkey.1 ∧ verifiedMessage = expectedMessage)

/-- The entries that are left, from the `signatureIndex`-th on. -/
def verifyEntries (data : List UInt8) (expectedPubkey : Solana.Key) (expectedMessage : List UInt8) : ℕ → ℕ → Option (Except RewardError Unit)
  | 0, _ => some (.error .receiptSignatureMismatch)
  | left + 1, signatureIndex =>
    match verifyEntry data expectedPubkey expectedMessage signatureIndex with
    | none => none
    | some (.error e) => some (.error e)
    | some (.ok true) => some (.ok ())
    | some (.ok false) => verifyEntries data expectedPubkey expectedMessage left (signatureIndex + 1)

def verifyEd25519Instruction (instruction : Instruction) (expectedPubkey : Solana.Key) (expectedMessage : List UInt8) :
    Option (Except RewardError Unit) :=
  if instruction.programId ≠ ed25519ProgramID then some (.error .invalidEd25519Instruction)
  else if instruction.data.length < 16 then some (.error .invalidEd25519Instruction)
  else
    match instruction.data[0]? with
    | none => none
    | some signatureCount =>
      if signatureCount = 0 then some (.error .invalidEd25519Instruction)
      else verifyEntries instruction.data expectedPubkey expectedMessage signatureCount.toNat 0

/-- The instructions sysvar: those of the transaction, and which of them is being run. -/
structure Instructions where
  all : List Instruction
  current : ℕ
  running : current < all.length

def verifyPreviousEd25519Instruction (instructions : Instructions) (expectedPubkey : Solana.Key) (expectedMessage : List UInt8) :
    Option (Except RewardError Unit) :=
  if instructions.current = 0 then some (.error .missingEd25519Instruction)
  else
    have := instructions.running
    verifyEd25519Instruction instructions.all[instructions.current - 1] expectedPubkey expectedMessage

section Layout

/-- The number that stands at an offset. -/
def u16At (data : List UInt8) (offset : ℕ) : UInt16 :=
  UInt16.ofNat ((data.getD offset 0).toNat + 256 * (data.getD (offset + 1) 0).toNat)

/-- The `i`-th entry of the table. -/
def entryAt (data : List UInt8) (i : ℕ) : Entry :=
  let field (k : ℕ) := u16At data (2 + i * 14 + k)
  ⟨field 0, field 2, field 4, field 6, field 8, field 10, field 12⟩

def InTable (data : List UInt8) (i : ℕ) : Prop := 2 + i * 14 + 14 ≤ data.length

/-- Everything the entry refers to is in its own instruction. -/
def Entry.Local (e : Entry) : Prop :=
  e.signatureInstructionIndex = currentInstruction ∧ e.publicKeyInstructionIndex = currentInstruction ∧
    e.messageInstructionIndex = currentInstruction

def Entry.InBounds (e : Entry) (data : List UInt8) : Prop :=
  e.signatureOffset.toNat + 64 ≤ data.length ∧ e.publicKeyOffset.toNat + 32 ≤ data.length ∧
    e.messageOffset.toNat + e.messageSize.toNat ≤ data.length

def Entry.publicKey (e : Entry) (data : List UInt8) : List UInt8 := (data.drop e.publicKeyOffset.toNat).take 32

def Entry.message (e : Entry) (data : List UInt8) : List UInt8 := (data.drop e.messageOffset.toNat).take e.messageSize.toNat

def Entry.signature (e : Entry) (data : List UInt8) : List UInt8 := (data.drop e.signatureOffset.toNat).take 64

/-- The entry is in the table, and what it refers to, if that is all in its own instruction, is
there. -/
def WellFormed (data : List UInt8) (i : ℕ) : Prop := InTable data i ∧ ((entryAt data i).Local → (entryAt data i).InBounds data)

/-- The entry tells of a signature of this message with this key. -/
def Names (data : List UInt8) (key : Solana.Key) (message : List UInt8) (i : ℕ) : Prop :=
  (entryAt data i).Local ∧ (entryAt data i).publicKey data = key.1 ∧ (entryAt data i).message data = message

instance (e : Entry) : Decidable e.Local := inferInstanceAs (Decidable (_ ∧ _ ∧ _))

instance (e : Entry) (data : List UInt8) : Decidable (e.InBounds data) := inferInstanceAs (Decidable (_ ∧ _ ∧ _))

instance (data : List UInt8) (i : ℕ) : Decidable (InTable data i) := inferInstanceAs (Decidable (_ ≤ _))

instance (data : List UInt8) (i : ℕ) : Decidable (WellFormed data i) := inferInstanceAs (Decidable (_ ∧ _))

instance (data : List UInt8) (key : Solana.Key) (message : List UInt8) (i : ℕ) : Decidable (Names data key message i) :=
  inferInstanceAs (Decidable (_ ∧ _ ∧ _))

theorem readU16_eq {data : List UInt8} {offset : ℕ} (inside : offset + 2 ≤ data.length) : readU16 data offset = .ok (u16At data offset) := by
  have low : data[offset]? = some (data.getD offset 0) := by
    rw [List.getD_eq_getElem _ _ (by omega), List.getElem?_eq_getElem]
  have high : data[offset + 1]? = some (data.getD (offset + 1) 0) := by
    rw [List.getD_eq_getElem _ _ (by omega), List.getElem?_eq_getElem]
  rw [readU16, low, high]
  rfl

theorem readEntry_eq {data : List UInt8} {i : ℕ} (inside : InTable data i) : readEntry data (2 + i * 14) = .ok (entryAt data i) := by
  unfold InTable at inside
  unfold readEntry
  rw [readU16_eq (by omega), readU16_eq (by omega), readU16_eq (by omega), readU16_eq (by omega), readU16_eq (by omega),
    readU16_eq (by omega), readU16_eq (by omega)]
  rfl

theorem slice_eq {data : List UInt8} {start n : ℕ} (inside : start + n ≤ data.length) :
    slice data start (start + n) = some ((data.drop start).take n) := by
  rw [slice, if_pos ⟨by omega, inside⟩, List.drop_take, Nat.add_sub_cancel_left]

theorem verifyEntry_malformed {data : List UInt8} {i : ℕ} (malformed : ¬ WellFormed data i) (key : Solana.Key) (message : List UInt8) :
    verifyEntry data key message i = some (.error .invalidEd25519Instruction) := by
  unfold verifyEntry
  by_cases inside : InTable data i
  · obtain ⟨here, outside⟩ := Classical.not_imp.mp (not_and.mp malformed inside)
    have small := (entryAt data i).messageOffset.toNat_lt
    have small' := (entryAt data i).messageSize.toNat_lt
    obtain ⟨signature, key', message'⟩ := here
    simp only [Entry.InBounds] at outside
    unfold InTable at inside
    rw [if_neg (by omega), readEntry_eq inside]
    dsimp only
    rw [if_neg (by simp [signature, key', message']), if_neg (by omega), if_pos (by omega)]
  · exact if_pos (by unfold InTable at inside; omega)

theorem verifyEntry_wellFormed {data : List UInt8} {i : ℕ} (wellFormed : WellFormed data i) (key : Solana.Key) (message : List UInt8) :
    verifyEntry data key message i = some (.ok (decide (Names data key message i))) := by
  obtain ⟨inside, bounds⟩ := wellFormed
  have inside' := inside
  unfold InTable at inside'
  unfold verifyEntry
  rw [if_neg (by omega), readEntry_eq inside]
  dsimp only
  by_cases here : (entryAt data i).Local
  · obtain ⟨signature, publicKey, messages⟩ := bounds here
    have small := (entryAt data i).messageOffset.toNat_lt
    have small' := (entryAt data i).messageSize.toNat_lt
    have same := here
    obtain ⟨same₁, same₂, same₃⟩ := same
    rw [if_neg (by simp [same₁, same₂, same₃]), if_neg (by omega), if_neg (by omega), slice_eq publicKey, slice_eq messages]
    simp [Names, here, Entry.publicKey, Entry.message]
  · rw [if_pos (by simpa [Entry.Local, imp_iff_not_or] using here)]
    simp [Names, here]

/-- The loop comes to an end without a panic. It succeeds at the first entry that names what is
expected, unless a malformed one comes before it. -/
theorem verifyEntries_spec (data : List UInt8) (key : Solana.Key) (message : List UInt8) (left index : ℕ) :
    ∃ answer, verifyEntries data key message left index = some answer ∧
      (answer = .ok () ↔ ∃ i, index ≤ i ∧ i < index + left ∧ (∀ j, index ≤ j → j ≤ i → WellFormed data j) ∧ Names data key message i) := by
  induction left generalizing index with
  | zero =>
    refine ⟨_, rfl, by simp, ?_⟩
    rintro ⟨i, past, before, _⟩
    omega
  | succ left ih =>
    unfold verifyEntries
    by_cases wellFormed : WellFormed data index
    · rw [verifyEntry_wellFormed wellFormed]
      by_cases names : Names data key message index
      · rw [decide_eq_true names]
        refine ⟨_, rfl, fun _ => ⟨index, le_rfl, by omega, fun j past before => ?_, names⟩, fun _ => rfl⟩
        rwa [show j = index by omega]
      · rw [decide_eq_false names]
        obtain ⟨answer, found, succeeds⟩ := ih (index + 1)
        refine ⟨answer, found, succeeds.trans ⟨?_, ?_⟩⟩
        · rintro ⟨i, past, before, earlier, named⟩
          refine ⟨i, by omega, by omega, fun j from_index until_i => ?_, named⟩
          rcases from_index.lt_or_eq with later | rfl
          · exact earlier j later until_i
          · exact wellFormed
        · rintro ⟨i, past, before, earlier, named⟩
          have later : index ≠ i := fun same => names (same ▸ named)
          exact ⟨i, by omega, by omega, fun j from_index until_i => earlier j (by omega) until_i, named⟩
    · rw [verifyEntry_malformed wellFormed]
      refine ⟨_, rfl, by simp, ?_⟩
      rintro ⟨i, past, _, earlier, _⟩
      exact (wellFormed (earlier index le_rfl past)).elim

/-- What it takes for the instruction to be accepted. -/
def Attests (instruction : Instruction) (key : Solana.Key) (message : List UInt8) : Prop :=
  instruction.programId = ed25519ProgramID ∧
    ∃ i < (instruction.data.getD 0 0).toNat, (∀ j < i, WellFormed instruction.data j) ∧
      InTable instruction.data i ∧ (entryAt instruction.data i).InBounds instruction.data ∧ Names instruction.data key message i

theorem verifyEd25519Instruction_spec (instruction : Instruction) (key : Solana.Key) (message : List UInt8) :
    ∃ answer, verifyEd25519Instruction instruction key message = some answer ∧ (answer = .ok () ↔ Attests instruction key message) := by
  unfold verifyEd25519Instruction Attests
  by_cases program : instruction.programId = ed25519ProgramID
  · rw [if_neg (not_not.mpr program)]
    by_cases short : instruction.data.length < 16
    · rw [if_pos short]
      refine ⟨_, rfl, by simp, ?_⟩
      rintro ⟨_, i, _, _, inside, _⟩
      unfold InTable at inside
      omega
    · have first : instruction.data[0]? = some (instruction.data.getD 0 0) := by
        rw [List.getD_eq_getElem _ _ (by omega), List.getElem?_eq_getElem]
      rw [if_neg short, first]
      dsimp only
      by_cases nothing : instruction.data.getD 0 0 = 0
      · rw [if_pos nothing]
        refine ⟨_, rfl, by simp, ?_⟩
        rintro ⟨_, i, few, _⟩
        rw [nothing] at few
        exact (Nat.not_lt_zero i few).elim
      · rw [if_neg nothing]
        obtain ⟨answer, found, succeeds⟩ := verifyEntries_spec instruction.data key message (instruction.data.getD 0 0).toNat 0
        refine ⟨answer, found, succeeds.trans ⟨?_, ?_⟩⟩
        · rintro ⟨i, _, few, earlier, names⟩
          obtain ⟨inside, bounds⟩ := earlier i (Nat.zero_le i) le_rfl
          exact ⟨program, i, by omega, fun j before => earlier j (Nat.zero_le j) before.le, inside, bounds names.1, names⟩
        · rintro ⟨_, i, few, earlier, inside, bounds, names⟩
          refine ⟨i, Nat.zero_le i, by omega, fun j _ until_i => ?_, names⟩
          rcases until_i.lt_or_eq with before | rfl
          · exact earlier j before
          · exact ⟨inside, fun _ => bounds⟩
  · rw [if_pos program]
    exact ⟨_, rfl, by simp, fun attests => (program attests.1).elim⟩

/-- One entry, with the key, the signature and the message behind the table. -/
example : verifyEd25519Instruction
    ⟨ed25519ProgramID, [1, 0, 48, 0, 255, 255, 16, 0, 255, 255, 112, 0, 7, 0, 255, 255] ++ (Solana.repeated 9).1 ++ List.replicate 64 7 ++
      "receipt".toUTF8.toList⟩ (Solana.repeated 9) "receipt".toUTF8.toList = some (.ok ()) := by decide +kernel

end Layout

end OpenTela.Rewards
