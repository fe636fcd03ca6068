import OpenTela.Solana.Message

namespace OpenTela.Solana

def base58Alphabet : List Char := "123456789ABCDEFGHJKLMNPQRSTUVWXYZabcdefghijkmnopqrstuvwxyz".toList

/-- The bytes of a number, the highest first, before those of `acc`. -/
def bigEndian : ℕ → ℕ → List UInt8 → List UInt8
  | 0, _, acc => acc
  | fuel + 1, n, acc => if n = 0 then acc else bigEndian fuel (n / 256) (UInt8.ofNat n :: acc)

/-- `base58.Decode`. Each leading `1` is a zero byte. -/
def base58Decode (s : String) : Option (List UInt8) :=
  match s.toList with
  | [] => none
  | cs => (cs.mapM (fun c => base58Alphabet.idxOf? c)).map (fun digits =>
      List.replicate (cs.takeWhile (fun c => c = '1')).length 0 ++
        bigEndian cs.length (digits.foldl (fun n d => 58 * n + d) 0) [])

def systemProgramID : Key := ⟨List.replicate 32 0, rfl⟩

def splTokenProgramID : Key :=
  ⟨[6, 221, 246, 225, 215, 101, 161, 147, 217, 203, 225, 70, 206, 235, 121, 172, 28, 180, 133, 237, 95, 91, 55, 145, 58, 140,
    245, 133, 126, 255, 0, 169], rfl⟩

def ataProgramID : Key :=
  ⟨[140, 151, 37, 143, 78, 36, 137, 241, 187, 61, 16, 41, 20, 142, 13, 131, 11, 90, 19, 153, 218, 255, 16, 132, 4, 142, 123,
    216, 219, 233, 248, 89], rfl⟩

example : base58Decode "TokenkegQfeZyiNwAJbNbGKPFXCWuBvf9Ss623VQ5DA" = some splTokenProgramID.1 := by decide +kernel

example : base58Decode "ATokenGPvbdGVxr1b2hvZbsiqW5xWH25efTNsLJA8knL" = some ataProgramID.1 := by decide +kernel

/-- `b[:32]`, where `b` reaches up to the slice's capacity. It panics when that is less. -/
def slice32 (b : List UInt8) : Option (List UInt8) := if b.length < 32 then none else some (b.take 32)

@[simp] theorem slice32_key (k : Key) : slice32 k.1 = some k.1 := by
  have size := k.2
  rw [slice32, if_neg (by omega), List.take_of_length_le (by omega)]

/-- The instruction data of a `TransferChecked`. -/
def transferCheckedData (amount : UInt64) (decimals : UInt8) : List UInt8 := 12 :: leBytes 8 amount.toNat ++ [decimals]

def buildSPLTransferChecked (signer fromATA toATA mint : List UInt8) (amount : UInt64) (decimals : UInt8)
    (recentBlockhash : List UInt8) : Option (List UInt8) := do
  let fromATA ← slice32 fromATA
  let mint ← slice32 mint
  let toATA ← slice32 toATA
  let signer ← slice32 signer
  let recentBlockhash ← slice32 recentBlockhash
  return [1, 0, 2] ++ (fromATA ++ mint ++ toATA ++ signer ++ splTokenProgramID.1) ++ recentBlockhash ++
    [1, 4, 4, 0, 1, 2, 3, 10] ++ transferCheckedData amount decimals

def buildCreateATAInstruction (payer owner mint ata recentBlockhash : List UInt8) : Option (List UInt8) := do
  let payer ← slice32 payer
  let ata ← slice32 ata
  let owner ← slice32 owner
  let mint ← slice32 mint
  let recentBlockhash ← slice32 recentBlockhash
  return [1, 0, 5] ++ (payer ++ ata ++ owner ++ mint ++ systemProgramID.1 ++ splTokenProgramID.1 ++ ataProgramID.1) ++
    recentBlockhash ++ [1, 6, 6, 0, 1, 2, 3, 4, 5, 0]

/-- The instruction data of a transfer by the system program. -/
def transferData (lamports : UInt64) : List UInt8 := leBytes 4 2 ++ leBytes 8 lamports.toNat

def buildTransferMessage (source dest recentBlockhash : List UInt8) (lamports : UInt64) : Option (List UInt8) := do
  let source ← slice32 source
  let dest ← slice32 dest
  let recentBlockhash ← slice32 recentBlockhash
  return [1, 0, 1] ++ (source ++ dest ++ systemProgramID.1) ++ recentBlockhash ++ [1, 2, 2, 0, 1, 12] ++ transferData lamports

/-- The message is this one instruction on these accounts, under this blockhash, and the signer is
one of those that have to sign. -/
def Message.Says (m : Message) (program : Key) (accounts : List Key) (data : List UInt8) (blockhash signer : Key) : Prop :=
  (∃ i, m.instructions = [i] ∧ m.accountKeys[i.programIdIndex.toNat]? = some program ∧
    i.accounts.map (fun a => m.accountKeys[a.toNat]?) = accounts.map some ∧ i.data = data) ∧
  m.recentBlockhash = blockhash ∧ signer ∈ m.accountKeys.take m.numRequiredSignatures.toNat

/-- The bytes are those of a message that says so. -/
def Encodes (bs : List UInt8) (program : Key) (accounts : List Key) (data : List UInt8) (blockhash signer : Key) : Prop :=
  ∃ m, message.decode bs = some m ∧ m.Says program accounts data blockhash signer

theorem encodeShortU16_length_small {n : ℕ} (small : n < 128) : (encodeShortU16 n).length = 1 := by
  rw [encodeShortU16, if_pos small]
  rfl

/-- A message of one short instruction has a length that the number of its keys determines up to
the one to three bytes in which it is written. -/
theorem Encodes.length {bs : List UInt8} {program blockhash signer : Key} {accounts : List Key} {data : List UInt8}
    (encodes : Encodes bs program accounts data blockhash signer) (few : accounts.length < 128) (short : data.length < 128) :
    ∃ n c, 1 ≤ c ∧ c ≤ 3 ∧ bs.length = 39 + c + 32 * n + accounts.length + data.length := by
  obtain ⟨m, read, ⟨i, only, _, named, rfl⟩, _⟩ := encodes
  obtain ⟨_, rfl⟩ := message.decode_eq_some_iff.mp read
  have count : i.accounts.length = accounts.length := by simpa using congrArg List.length named
  obtain ⟨least, most⟩ := encodeShortU16_length m.accountKeys.length
  refine ⟨m.accountKeys.length, (encodeShortU16 m.accountKeys.length).length, least, most, ?_⟩
  have one : (encodeShortU16 1).length = 1 := rfl
  rw [message_length, only]
  simp only [List.flatMap_cons, List.flatMap_nil, List.append_nil, compiledInstruction_length, List.length_singleton, one,
    encodeShortU16_length_small short, count, encodeShortU16_length_small few]
  omega

/-- The count of the keys, put in behind the header. -/
def withCount (n : UInt8) (bs : List UInt8) : List UInt8 := bs.take 3 ++ n :: bs.drop 3

section Built

variable (signer owner source dest mint ata blockhash : Key)

theorem transferChecked_bytes (amount : UInt64) (decimals : UInt8) :
    buildSPLTransferChecked signer.1 source.1 dest.1 mint.1 amount decimals blockhash.1 =
      some ([1, 0, 2] ++ (source.1 ++ mint.1 ++ dest.1 ++ signer.1 ++ splTokenProgramID.1) ++ blockhash.1 ++
        [1, 4, 4, 0, 1, 2, 3, 10] ++ transferCheckedData amount decimals) := by
  simp [buildSPLTransferChecked]

theorem createATA_bytes :
    buildCreateATAInstruction signer.1 owner.1 mint.1 ata.1 blockhash.1 =
      some ([1, 0, 5] ++ (signer.1 ++ ata.1 ++ owner.1 ++ mint.1 ++ systemProgramID.1 ++ splTokenProgramID.1 ++ ataProgramID.1) ++
        blockhash.1 ++ [1, 6, 6, 0, 1, 2, 3, 4, 5, 0]) := by
  simp [buildCreateATAInstruction]

theorem transfer_bytes (lamports : UInt64) :
    buildTransferMessage signer.1 dest.1 blockhash.1 lamports =
      some ([1, 0, 1] ++ (signer.1 ++ dest.1 ++ systemProgramID.1) ++ blockhash.1 ++ [1, 2, 2, 0, 1, 12] ++ transferData lamports) := by
  simp [buildTransferMessage]

/-- None of the three builders writes the count of the account keys, so what they build is
never the message it is meant to be: it is one byte short of any length such a message can have. -/
theorem encoding_never (amount lamports : UInt64) (decimals : UInt8) :
    (∃ bs, buildSPLTransferChecked signer.1 source.1 dest.1 mint.1 amount decimals blockhash.1 = some bs ∧
      ¬ Encodes bs splTokenProgramID [source, mint, dest, signer] (transferCheckedData amount decimals) blockhash signer) ∧
    (∃ bs, buildTransferMessage signer.1 dest.1 blockhash.1 lamports = some bs ∧
      ¬ Encodes bs systemProgramID [signer, dest] (transferData lamports) blockhash signer) ∧
    ∃ bs, buildCreateATAInstruction signer.1 owner.1 mint.1 ata.1 blockhash.1 = some bs ∧
      ¬ Encodes bs ataProgramID [signer, ata, owner, mint, systemProgramID, splTokenProgramID] [] blockhash signer := by
  have size : ∀ k : Key, k.1.length = 32 := fun k => k.2
  refine ⟨⟨_, transferChecked_bytes .., fun encodes => ?_⟩, ⟨_, transfer_bytes .., fun encodes => ?_⟩, ⟨_, createATA_bytes .., fun encodes => ?_⟩⟩
  · obtain ⟨n, c, least, most, length⟩ := encodes.length (by simp) (by simp [transferCheckedData])
    simp only [transferCheckedData, List.length_append, List.length_cons, List.length_nil, size, leBytes_length] at length
    omega
  · obtain ⟨n, c, least, most, length⟩ := encodes.length (by simp) (by simp [transferData])
    simp only [transferData, List.length_append, List.length_cons, List.length_nil, size, leBytes_length] at length
    omega
  · obtain ⟨n, c, least, most, length⟩ := encodes.length (by simp) (by simp)
    simp only [List.length_append, List.length_cons, List.length_nil, size] at length
    omega

def repeated (b : UInt8) : Key := ⟨List.replicate 32 b, List.length_replicate⟩

/-- The first byte of the source account is taken for the count. -/
theorem transferChecked_unread :
    ∃ bs, buildSPLTransferChecked (repeated 1).1 (repeated 2).1 (repeated 3).1 (repeated 4).1 1000 6 (repeated 5).1 = some bs ∧
      ¬ Encodes bs splTokenProgramID [repeated 2, repeated 4, repeated 3, repeated 1] (transferCheckedData 1000 6) (repeated 5) (repeated 1) := by
  refine ⟨_, transferChecked_bytes .., fun ⟨m, read, _⟩ => ?_⟩
  have unread : message.decode ([1, 0, 2] ++ ((repeated 2).1 ++ (repeated 4).1 ++ (repeated 3).1 ++ (repeated 1).1 ++ splTokenProgramID.1) ++
      (repeated 5).1 ++ [1, 4, 4, 0, 1, 2, 3, 10] ++ transferCheckedData 1000 6) = none := by decide +kernel
  rw [unread] at read
  cases read

theorem message_valid {m : Message} (keys : m.accountKeys.length < 65536) (instructions : m.instructions.length < 65536)
    (short : ∀ i ∈ m.instructions, i.accounts.length < 65536 ∧ i.data.length < 65536) : message.Valid m :=
  ⟨trivial, trivial, trivial, ⟨keys, fun _ _ => trivial⟩, trivial, instructions, fun i member =>
    ⟨trivial, ⟨(short i member).1, fun _ _ => trivial⟩, (short i member).2, fun _ _ => trivial⟩⟩

theorem flatMap_byte (bs : List UInt8) : bs.flatMap Codec.byte.encode = bs := by
  induction bs with
  | nil => rfl
  | cons b rest ih =>
    rw [List.flatMap_cons, ih]
    rfl

/-- A message of one instruction, written out. -/
theorem message_bytes (a b c : UInt8) (keys : List Key) (i : CompiledInstruction) :
    message.encode ⟨a, b, c, keys, blockhash, [i]⟩ = [a, b, c] ++ encodeShortU16 keys.length ++ keys.flatMap Subtype.val ++ blockhash.1 ++
      [1, i.programIdIndex] ++ encodeShortU16 i.accounts.length ++ i.accounts ++ encodeShortU16 i.data.length ++ i.data := by
  change [a] ++ ([b] ++ ([c] ++ ((encodeShortU16 keys.length ++ keys.flatMap Subtype.val) ++ (blockhash.1 ++ (encodeShortU16 1 ++
    (([i.programIdIndex] ++ ((encodeShortU16 i.accounts.length ++ i.accounts.flatMap Codec.byte.encode) ++
      (encodeShortU16 i.data.length ++ i.data.flatMap Codec.byte.encode))) ++ [])))))) = _
  rw [flatMap_byte, flatMap_byte]
  simp [encodeShortU16]

/-- With the count put in, a transfer of lamports says what it should. -/
theorem transfer_withCount (lamports : UInt64) :
    ∃ bs, buildTransferMessage signer.1 dest.1 blockhash.1 lamports = some bs ∧
      Encodes (withCount 3 bs) systemProgramID [signer, dest] (transferData lamports) blockhash signer := by
  refine ⟨_, transfer_bytes .., ⟨1, 0, 1, [signer, dest, systemProgramID], blockhash, [⟨2, [0, 1], transferData lamports⟩]⟩,
    message.decode_eq_some_iff.mpr ⟨message_valid (by simp) (by simp) (by simp [transferData]), ?_⟩,
    ⟨_, rfl, rfl, rfl, rfl⟩, rfl, List.mem_cons_self⟩
  have data : (transferData lamports).length = 12 := by simp [transferData]
  rw [message_bytes, data]
  simp [withCount, encodeShortU16]

theorem createATA_withCount :
    ∃ bs, buildCreateATAInstruction signer.1 owner.1 mint.1 ata.1 blockhash.1 = some bs ∧
      Encodes (withCount 7 bs) ataProgramID [signer, ata, owner, mint, systemProgramID, splTokenProgramID] [] blockhash signer := by
  refine ⟨_, createATA_bytes .., ⟨1, 0, 5, [signer, ata, owner, mint, systemProgramID, splTokenProgramID, ataProgramID], blockhash,
      [⟨6, [0, 1, 2, 3, 4, 5], []⟩]⟩,
    message.decode_eq_some_iff.mpr ⟨message_valid (by simp) (by simp) (by simp), ?_⟩,
    ⟨_, rfl, rfl, rfl, rfl⟩, rfl, List.mem_cons_self⟩
  rw [message_bytes]
  simp [withCount, encodeShortU16]

/-- A token transfer has its signer fourth, where nobody has to sign: even with the count put in
it says what it should only when the signer is the source account itself. -/
theorem transferChecked_withCount (amount : UInt64) (decimals : UInt8) :
    ∃ bs, buildSPLTransferChecked signer.1 source.1 dest.1 mint.1 amount decimals blockhash.1 = some bs ∧
      (Encodes (withCount 5 bs) splTokenProgramID [source, mint, dest, signer] (transferCheckedData amount decimals) blockhash signer ↔
        signer = source) := by
  have read : message.decode (withCount 5 ([1, 0, 2] ++ (source.1 ++ mint.1 ++ dest.1 ++ signer.1 ++ splTokenProgramID.1) ++ blockhash.1 ++
      [1, 4, 4, 0, 1, 2, 3, 10] ++ transferCheckedData amount decimals)) =
      some ⟨1, 0, 2, [source, mint, dest, signer, splTokenProgramID], blockhash, [⟨4, [0, 1, 2, 3], transferCheckedData amount decimals⟩]⟩ := by
    refine message.decode_eq_some_iff.mpr ⟨message_valid (by simp) (by simp) (by simp [transferCheckedData]), ?_⟩
    have data : (transferCheckedData amount decimals).length = 10 := by simp [transferCheckedData]
    rw [message_bytes, data]
    simp [withCount, encodeShortU16]
  refine ⟨_, transferChecked_bytes .., ?_, ?_⟩
  · rintro ⟨m, decoded, _, _, signs⟩
    rw [read] at decoded
    cases decoded
    simpa using signs
  · rintro rfl
    exact ⟨_, read, ⟨_, rfl, rfl, rfl, rfl⟩, rfl, List.mem_cons_self⟩

end Built

end OpenTela.Solana
