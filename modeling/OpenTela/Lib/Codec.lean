import Mathlib.Algebra.Order.Ring.Nat
import Mathlib.Logic.Equiv.Defs
import Mathlib.Data.List.Basic

/-- A format: how a value is written, and how it is read from the front of some bytes. What is
written is read back, and what is read was written. -/
structure Codec (α : Type) where
  encode : α → List UInt8
  parse : List UInt8 → Option (α × List UInt8)
  Valid : α → Prop
  complete : ∀ {a : α}, Valid a → ∀ rest, parse (encode a ++ rest) = some (a, rest)
  sound : ∀ {bs rest : List UInt8} {a : α}, parse bs = some (a, rest) → Valid a ∧ bs = encode a ++ rest

namespace Codec

variable {α β : Type}

/-- Reads bytes that hold one value and nothing else. -/
def decode (c : Codec α) (bs : List UInt8) : Option α :=
  match c.parse bs with
  | some (a, []) => some a
  | _ => none

theorem decode_eq_some_iff (c : Codec α) {bs : List UInt8} {a : α} : c.decode bs = some a ↔ c.Valid a ∧ bs = c.encode a := by
  unfold decode
  constructor
  · intro read
    split at read
    · rename_i found
      cases read
      simpa using c.sound found
    · cases read
  · rintro ⟨valid, rfl⟩
    have found := c.complete valid []
    rw [List.append_nil] at found
    rw [found]

def byte : Codec UInt8 where
  encode b := [b]
  parse
    | [] => none
    | b :: rest => some (b, rest)
  Valid _ := True
  complete _ _ := rfl
  sound {bs rest a} read := by
    cases bs with
    | nil => cases read
    | cons b tail =>
      cases read
      exact ⟨trivial, rfl⟩

/-- A number of bytes that both sides know. -/
def fixed (n : ℕ) : Codec { bs : List UInt8 // bs.length = n } where
  encode bs := bs.1
  parse bs := if long : n ≤ bs.length then some (⟨bs.take n, List.length_take_of_le long⟩, bs.drop n) else none
  Valid _ := True
  complete {a} _ rest := by
    obtain ⟨bs, rfl⟩ := a
    simp
  sound {bs rest a} read := by
    split at read
    · cases read
      exact ⟨trivial, (List.take_append_drop n bs).symm⟩
    · cases read

/-- One value after the other. -/
def both (c : Codec α) (d : Codec β) : Codec (α × β) where
  encode p := c.encode p.1 ++ d.encode p.2
  parse bs := (c.parse bs).bind (fun (a, rest) => (d.parse rest).map (fun (b, rest) => ((a, b), rest)))
  Valid p := c.Valid p.1 ∧ d.Valid p.2
  complete {a} valid rest := by
    rw [List.append_assoc, c.complete valid.1, Option.bind_some]
    dsimp only
    rw [d.complete valid.2]
    rfl
  sound {bs rest a} read := by
    obtain ⟨⟨first, middle⟩, readFirst, readRest⟩ := Option.bind_eq_some_iff.mp read
    obtain ⟨⟨second, last⟩, readSecond, same⟩ := Option.map_eq_some_iff.mp readRest
    cases same
    obtain ⟨valid, rfl⟩ := c.sound readFirst
    obtain ⟨valid', rfl⟩ := d.sound readSecond
    exact ⟨⟨valid, valid'⟩, by rw [List.append_assoc]⟩

/-- The same bytes, for values that stand for one another. -/
def along (c : Codec α) (e : α ≃ β) : Codec β where
  encode b := c.encode (e.symm b)
  parse bs := (c.parse bs).map (fun (a, rest) => (e a, rest))
  Valid b := c.Valid (e.symm b)
  complete valid rest := by
    rw [c.complete valid]
    simp
  sound {bs rest a} read := by
    obtain ⟨⟨first, last⟩, found, same⟩ := Option.map_eq_some_iff.mp read
    cases same
    simpa using c.sound found

def parseTimes (c : Codec α) : ℕ → List UInt8 → Option (List α × List UInt8)
  | 0, bs => some ([], bs)
  | n + 1, bs => (c.parse bs).bind (fun (a, rest) => (parseTimes c n rest).map (fun (as, rest) => (a :: as, rest)))

theorem parseTimes_complete (c : Codec α) {as : List α} (valid : ∀ a ∈ as, c.Valid a) (rest : List UInt8) :
    parseTimes c as.length (as.flatMap c.encode ++ rest) = some (as, rest) := by
  induction as with
  | nil => rfl
  | cons a tail ih =>
    simp only [List.length_cons, List.flatMap_cons, List.append_assoc, parseTimes]
    rw [c.complete (valid a List.mem_cons_self), Option.bind_some, ih (fun b member => valid b (List.mem_cons_of_mem _ member))]
    rfl

theorem parseTimes_sound (c : Codec α) {n : ℕ} {bs rest : List UInt8} {as : List α} (read : parseTimes c n bs = some (as, rest)) :
    as.length = n ∧ (∀ a ∈ as, c.Valid a) ∧ bs = as.flatMap c.encode ++ rest := by
  induction n generalizing bs as with
  | zero =>
    cases read
    exact ⟨rfl, by simp, rfl⟩
  | succ n ih =>
    obtain ⟨⟨a, middle⟩, readFirst, readRest⟩ := Option.bind_eq_some_iff.mp read
    obtain ⟨⟨tail, last⟩, readTail, same⟩ := Option.map_eq_some_iff.mp readRest
    cases same
    obtain ⟨valid, rfl⟩ := c.sound readFirst
    obtain ⟨length, valids, rfl⟩ := ih readTail
    exact ⟨by simp [length], by simpa using ⟨valid, valids⟩, by simp⟩

/-- A count and as many values. -/
def counted (count : Codec ℕ) (c : Codec α) : Codec (List α) where
  encode as := count.encode as.length ++ as.flatMap c.encode
  parse bs := (count.parse bs).bind (fun (n, rest) => parseTimes c n rest)
  Valid as := count.Valid as.length ∧ ∀ a ∈ as, c.Valid a
  complete {a} valid rest := by
    rw [List.append_assoc, count.complete valid.1, Option.bind_some]
    exact c.parseTimes_complete valid.2 rest
  sound {bs rest a} read := by
    obtain ⟨⟨n, middle⟩, readCount, readItems⟩ := Option.bind_eq_some_iff.mp read
    obtain ⟨valid, rfl⟩ := count.sound readCount
    obtain ⟨rfl, valids, rfl⟩ := c.parseTimes_sound readItems
    exact ⟨⟨valid, valids⟩, by rw [List.append_assoc]⟩

end Codec

/-- The `k` lowest bytes of a number, the lowest first. -/
def leBytes : ℕ → ℕ → List UInt8
  | 0, _ => []
  | k + 1, n => UInt8.ofNat n :: leBytes k (n / 256)

@[simp] theorem leBytes_length (k n : ℕ) : (leBytes k n).length = k := by
  induction k generalizing n with
  | zero => rfl
  | succ k ih => simp [leBytes, ih]

theorem leBytes_inj {k m n : ℕ} (bound : m < 256 ^ k) (bound' : n < 256 ^ k) (same : leBytes k m = leBytes k n) : m = n := by
  induction k generalizing m n with
  | zero =>
    simp only [pow_zero] at bound bound'
    omega
  | succ k ih =>
    simp only [leBytes, List.cons.injEq] at same
    have low : m % 256 = n % 256 := by simpa using congrArg UInt8.toNat same.1
    have high : m / 256 = n / 256 :=
      ih (Nat.div_lt_of_lt_mul (by rwa [pow_succ'] at bound)) (Nat.div_lt_of_lt_mul (by rwa [pow_succ'] at bound')) same.2
    omega
