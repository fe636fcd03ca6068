import Mathlib.Data.List.Lex
import Mathlib.Data.Nat.Basic
import Mathlib.Order.Fin.Basic
import Mathlib.Tactic.Ring

namespace OpenTela

/-- Byte strings. The list order on them is `bytes.Compare`. -/
abbrev Bytes := List (Fin 256)

instance neZero_256 : NeZero 256 := ⟨by decide⟩

/-- Range of the source's `uint64`. -/
def word : ℕ := 2 ^ 64

theorem word_pos : 0 < word := by decide

/-- `binary.MaxVarintLen64`. -/
def maxVarintLen64 : ℕ := 10

def putUvarint.loop : ℕ → ℕ → Bytes
  | 0, _ => []
  | n + 1, x => if 0x80 ≤ x then Fin.ofNat 256 (x % 128 + 128) :: loop n (x / 128) else [Fin.ofNat 256 x]

/-- `binary.PutUvarint` into a buffer of `MaxVarintLen64` bytes: seven bits a byte, lowest first. -/
def putUvarint (x : ℕ) : Bytes := putUvarint.loop maxVarintLen64 x

def uvarint.loop : Bytes → ℕ → ℕ → Option ℕ
  | [], _, _ => none
  | b :: rest, i, x =>
    if i = maxVarintLen64 then none
    else if b.val < 0x80 then
      if i = maxVarintLen64 - 1 ∧ 1 < b.val then none else some (x + b.val * 2 ^ (7 * i))
    else loop rest (i + 1) (x + b.val % 128 * 2 ^ (7 * i))

/-- `binary.Uvarint`; `none` is its `n <= 0`, a buffer too small or a value above 64 bits. -/
def uvarint (data : Bytes) : Option ℕ := uvarint.loop data 0 0

theorem uvarint_loop_put {n i x y : ℕ} (length : n + i = maxVarintLen64) (room : 0 < n)
    (bound : y * 2 ^ (7 * i) < word) :
    uvarint.loop (putUvarint.loop n y) i x = some (x + y * 2 ^ (7 * i)) := by
  induction n generalizing i x y with
  | zero => omega
  | succ n ih =>
    have inside : i ≠ maxVarintLen64 := by omega
    by_cases long : 0x80 ≤ y
    · have wide : 2 ^ 7 * 2 ^ (7 * i) ≤ y * 2 ^ (7 * i) := Nat.mul_le_mul_right _ long
      have room' : 0 < n := by
        by_contra empty
        have last : i = 9 := by simp only [maxVarintLen64] at length; omega
        subst last
        simp only [word] at bound
        omega
      have split : y / 128 * 2 ^ (7 * (i + 1)) = y / 128 * 128 * 2 ^ (7 * i) := by
        rw [Nat.mul_add, Nat.pow_add]; ring
      have digits : y % 128 * 2 ^ (7 * i) + y / 128 * 128 * 2 ^ (7 * i) = y * 2 ^ (7 * i) := by
        rw [← Nat.add_mul, Nat.mod_add_div']
      have high : (Fin.ofNat 256 (y % 128 + 128)).val = y % 128 + 128 := by
        simp only [Fin.val_ofNat]; omega
      have below : y / 128 * 2 ^ (7 * (i + 1)) < word := by rw [split]; omega
      simp only [putUvarint.loop, if_pos long, uvarint.loop, if_neg inside, high,
        show ¬ y % 128 + 128 < 0x80 by omega, if_false]
      rw [ih (by omega) room' below, split, show (y % 128 + 128) % 128 = y % 128 by omega]
      congr 1
      omega
    · have byte : (Fin.ofNat 256 y).val = y := by simp only [Fin.val_ofNat]; omega
      have top : ¬ (i = maxVarintLen64 - 1 ∧ 1 < y) := by
        rintro ⟨last, above⟩
        simp only [maxVarintLen64] at last
        subst last
        simp only [word] at bound
        omega
      simp only [putUvarint.loop, if_neg long, uvarint.loop, if_neg inside, byte,
        show y < 0x80 by omega, if_true, if_neg top]

/-- What `PutUvarint` writes, `Uvarint` reads back. -/
theorem uvarint_putUvarint {x : ℕ} (bound : x < word) : uvarint (putUvarint x) = some x := by
  have result := uvarint_loop_put (x := 0) (show maxVarintLen64 + 0 = maxVarintLen64 from rfl)
    (by decide) (show x * 2 ^ (7 * 0) < word by simpa using bound)
  simpa [uvarint, putUvarint] using result

/-- `binary.BigEndian.PutUint64` into an eight-byte buffer. -/
def putUint64 (x : ℕ) : Bytes := (List.range 8).map (fun i => Fin.ofNat 256 (x / 256 ^ (7 - i)))

/-- `binary.BigEndian.Uint64` on the first eight bytes. -/
def uint64 (value : Bytes) : ℕ := (value.take 8).foldl (fun x b => x * 256 + b.val) 0

end OpenTela
