import OpenTela.Lib.Codec
import Mathlib.Tactic.Ring

namespace OpenTela.Solana

abbrev Key := { bs : List UInt8 // bs.length = 32 }

def encodeShortU16 (n : ℕ) : List UInt8 :=
  if n < 128 then [UInt8.ofNat n]
  else if n < 16384 then [UInt8.ofNat (n % 128 + 128), UInt8.ofNat (n / 128)]
  else [UInt8.ofNat (n % 128 + 128), UInt8.ofNat (n / 128 % 128 + 128), UInt8.ofNat (n / 16384)]

/-- Seven bits a byte, the lowest first. A last byte that adds nothing is refused. -/
def parseShortU16 : List UInt8 → Option (ℕ × List UInt8)
  | [] => none
  | b₀ :: rest =>
    if b₀.toNat < 128 then some (b₀.toNat, rest)
    else
      match rest with
      | [] => none
      | b₁ :: rest =>
        if b₁.toNat = 0 then none
        else if b₁.toNat < 128 then some (b₀.toNat - 128 + 128 * b₁.toNat, rest)
        else
          match rest with
          | [] => none
          | b₂ :: rest =>
            if b₂.toNat = 0 ∨ 3 < b₂.toNat then none
            else some (b₀.toNat - 128 + 128 * (b₁.toNat - 128) + 16384 * b₂.toNat, rest)

theorem ofNat_toNat {n : ℕ} (bound : n < 256) : (UInt8.ofNat n).toNat = n := by
  rw [UInt8.toNat_ofNat']
  exact Nat.mod_eq_of_lt bound

theorem eq_ofNat {b : UInt8} {n : ℕ} (same : b.toNat = n) : b = UInt8.ofNat n := by
  rw [← same, UInt8.ofNat_toNat]

def shortU16 : Codec ℕ where
  encode := encodeShortU16
  parse := parseShortU16
  Valid n := n < 65536
  complete {n} bound rest := by
    unfold encodeShortU16
    split
    · rename_i small
      simp [parseShortU16, ofNat_toNat (show n < 256 by omega), small]
    · split
      · rename_i large small
        have low := ofNat_toNat (show n % 128 + 128 < 256 by omega)
        have high := ofNat_toNat (show n / 128 < 256 by omega)
        simp only [List.cons_append, List.nil_append, parseShortU16, low, high]
        rw [if_neg (by omega), if_neg (by omega), if_pos (by omega)]
        exact congrArg (fun v => some (v, rest)) (by omega)
      · rename_i large larger
        have low := ofNat_toNat (show n % 128 + 128 < 256 by omega)
        have middle := ofNat_toNat (show n / 128 % 128 + 128 < 256 by omega)
        have high := ofNat_toNat (show n / 16384 < 256 by omega)
        simp only [List.cons_append, List.nil_append, parseShortU16, low, middle, high]
        rw [if_neg (by omega), if_neg (by omega), if_neg (by omega), if_neg (by omega)]
        exact congrArg (fun v => some (v, rest)) (by omega)
  sound {bs rest n} read := by
    unfold parseShortU16 at read
    split at read
    · cases read
    · rename_i b₀ tail
      have byte₀ := b₀.toNat_lt
      split at read
      · rename_i small
        cases read
        refine ⟨by omega, ?_⟩
        rw [encodeShortU16, if_pos small, UInt8.ofNat_toNat]
        rfl
      · split at read
        · cases read
        · rename_i b₁ tail₁
          have byte₁ := b₁.toNat_lt
          split at read
          · cases read
          · split at read
            · rename_i large nonzero small
              cases read
              refine ⟨by omega, ?_⟩
              rw [encodeShortU16, if_neg (by omega), if_pos (by omega), ← eq_ofNat (b := b₀) (by omega),
                ← eq_ofNat (b := b₁) (by omega)]
              rfl
            · split at read
              · cases read
              · rename_i large nonzero large₁ _ b₂ tail₂
                split at read
                · cases read
                · rename_i within
                  obtain ⟨nonzero₂, within⟩ := not_or.mp within
                  cases read
                  refine ⟨by omega, ?_⟩
                  rw [encodeShortU16, if_neg (by omega), if_neg (by omega), ← eq_ofNat (b := b₀) (by omega),
                    ← eq_ofNat (b := b₁) (by omega), ← eq_ofNat (b := b₂) (by omega)]
                  rfl

theorem encodeShortU16_length (n : ℕ) : 1 ≤ (encodeShortU16 n).length ∧ (encodeShortU16 n).length ≤ 3 := by
  unfold encodeShortU16
  split
  · simp
  · split <;> simp

structure CompiledInstruction where
  programIdIndex : UInt8
  accounts : List UInt8
  data : List UInt8
  deriving DecidableEq

/-- A legacy message. -/
structure Message where
  numRequiredSignatures : UInt8
  numReadonlySigned : UInt8
  numReadonlyUnsigned : UInt8
  accountKeys : List Key
  recentBlockhash : Key
  instructions : List CompiledInstruction
  deriving DecidableEq

def CompiledInstruction.parts : UInt8 × List UInt8 × List UInt8 ≃ CompiledInstruction where
  toFun p := ⟨p.1, p.2.1, p.2.2⟩
  invFun i := (i.programIdIndex, i.accounts, i.data)
  left_inv _ := rfl
  right_inv _ := rfl

def Message.parts : UInt8 × UInt8 × UInt8 × List Key × Key × List CompiledInstruction ≃ Message where
  toFun p := ⟨p.1, p.2.1, p.2.2.1, p.2.2.2.1, p.2.2.2.2.1, p.2.2.2.2.2⟩
  invFun m := (m.numRequiredSignatures, m.numReadonlySigned, m.numReadonlyUnsigned, m.accountKeys, m.recentBlockhash, m.instructions)
  left_inv _ := rfl
  right_inv _ := rfl

open Codec in
def compiledInstruction : Codec CompiledInstruction :=
  (both byte (both (counted shortU16 byte) (counted shortU16 byte))).along CompiledInstruction.parts

open Codec in
def message : Codec Message :=
  (both byte (both byte (both byte (both (counted shortU16 (fixed 32)) (both (fixed 32)
    (counted shortU16 compiledInstruction)))))).along Message.parts

theorem flatMap_byte_length (bs : List UInt8) : (bs.flatMap Codec.byte.encode).length = bs.length := by
  induction bs with
  | nil => rfl
  | cons b rest ih => simp [Codec.byte]

theorem flatMap_key_length (keys : List Key) : (keys.flatMap (Codec.fixed 32).encode).length = 32 * keys.length := by
  induction keys with
  | nil => rfl
  | cons k rest ih =>
    have size : ((Codec.fixed 32).encode k).length = 32 := k.2
    rw [List.flatMap_cons, List.length_append, ih, size, List.length_cons]
    ring

theorem compiledInstruction_length (i : CompiledInstruction) :
    (compiledInstruction.encode i).length =
      1 + ((encodeShortU16 i.accounts.length).length + i.accounts.length) + ((encodeShortU16 i.data.length).length + i.data.length) := by
  change (Codec.byte.encode i.programIdIndex ++ ((encodeShortU16 i.accounts.length ++ i.accounts.flatMap Codec.byte.encode) ++
    (encodeShortU16 i.data.length ++ i.data.flatMap Codec.byte.encode))).length = _
  simp only [List.length_append, flatMap_byte_length]
  simp only [Codec.byte, List.length_singleton]
  ring

theorem message_length (m : Message) :
    (message.encode m).length = 3 + ((encodeShortU16 m.accountKeys.length).length + 32 * m.accountKeys.length) + 32 +
      ((encodeShortU16 m.instructions.length).length + (m.instructions.flatMap compiledInstruction.encode).length) := by
  have size : ((Codec.fixed 32).encode m.recentBlockhash).length = 32 := m.recentBlockhash.2
  change ([m.numRequiredSignatures] ++ ([m.numReadonlySigned] ++ ([m.numReadonlyUnsigned] ++
    ((encodeShortU16 m.accountKeys.length ++ m.accountKeys.flatMap (Codec.fixed 32).encode) ++ ((Codec.fixed 32).encode m.recentBlockhash ++
    (encodeShortU16 m.instructions.length ++ m.instructions.flatMap compiledInstruction.encode)))))).length = _
  simp only [List.length_append, flatMap_key_length, size, List.length_singleton]
  ring

end OpenTela.Solana
