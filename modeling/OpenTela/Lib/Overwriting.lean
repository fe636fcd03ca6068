import OpenTela.Lib.Batch
import Mathlib.Data.List.Induction
import Mathlib.Data.List.Perm.Basic

namespace Store

variable {K V : Type} [DecidableEq K]

/-- Writes one after the other, each over what its key had. -/
def writeAll (s : Store K V) (writes : List (K × V)) : Store K V := writes.foldl (fun s w => s.insert w.1 w.2) s

/-- No two of the writes give one key different values. -/
def Agreeing (writes : List (K × V)) : Prop := ∀ k a b, (k, a) ∈ writes → (k, b) ∈ writes → a = b

variable {s : Store K V} {writes : List (K × V)} {k : K} {a : V}

theorem writeAll_append (w : K × V) : writeAll s (writes ++ [w]) = (writeAll s writes).insert w.1 w.2 := by
  rw [writeAll, List.foldl_append]
  rfl

/-- A key has the value of its last write, or what it had before if it is not written. -/
theorem lookup_writeAll (s : Store K V) (writes : List (K × V)) (k : K) :
    (writeAll s writes).lookup k = (((writes.filter (fun w => w.1 = k)).getLast?).map Prod.snd).or (s.lookup k) := by
  induction writes using List.reverseRecOn with
  | nil => rfl
  | append_singleton writes w ih =>
    rw [writeAll_append, List.filter_append]
    by_cases same : w.1 = k
    · have taken : [w].filter (fun w => w.1 = k) = [w] := List.filter_cons_of_pos (decide_eq_true same)
      rw [taken, List.getLast?_concat, ← same, AList.lookup_insert]
      rfl
    · have passed : [w].filter (fun w => w.1 = k) = [] := List.filter_cons_of_neg (by simpa using same)
      rw [passed, List.append_nil, AList.lookup_insert_ne (Ne.symm same)]
      exact ih

theorem writeAll_last : (writeAll s (writes ++ [(k, a)])).lookup k = some a := by
  rw [writeAll_append]
  exact AList.lookup_insert _

theorem writeAll_unwritten (unwritten : ∀ w ∈ writes, w.1 ≠ k) : (writeAll s writes).lookup k = s.lookup k := by
  have none : writes.filter (fun w => w.1 = k) = [] := by
    rw [List.filter_eq_nil_iff]
    intro w member same
    exact unwritten w member (of_decide_eq_true same)
  rw [lookup_writeAll, none]
  rfl

theorem writeAll_written (written : (k, a) ∈ writes) : ∃ b, (k, b) ∈ writes ∧ (writeAll s writes).lookup k = some b := by
  have own : (k, a) ∈ writes.filter (fun w => w.1 = k) := List.mem_filter.mpr ⟨written, decide_eq_true rfl⟩
  cases last : (writes.filter (fun w => w.1 = k)).getLast? with
  | none => exact absurd (List.getLast?_eq_none_iff.mp last) (List.ne_nil_of_mem own)
  | some w =>
    obtain ⟨member, same⟩ := List.mem_filter.mp (List.mem_of_getLast? last)
    obtain rfl : w.1 = k := of_decide_eq_true same
    refine ⟨w.2, member, ?_⟩
    rw [lookup_writeAll, last]
    rfl

/-- Agreeing writes come to the same in every order. -/
theorem writeAll_perm {writes' : List (K × V)} (agreeing : Agreeing writes) (same : writes'.Perm writes) (k : K) :
    (writeAll s writes').lookup k = (writeAll s writes).lookup k := by
  by_cases written : ∃ a, (k, a) ∈ writes
  · obtain ⟨a, member⟩ := written
    obtain ⟨b, of_writes, found⟩ := @writeAll_written _ _ _ s _ _ _ member
    obtain ⟨b', of_writes', found'⟩ := @writeAll_written _ _ _ s _ _ _ (same.mem_iff.mpr member)
    rw [found, found', agreeing k b b' of_writes (same.mem_iff.mp of_writes')]
  · have unwritten : ∀ w ∈ writes, w.1 ≠ k := by
      rintro w member rfl
      exact written ⟨w.2, member⟩
    rw [writeAll_unwritten unwritten, writeAll_unwritten (fun w member => unwritten w (same.mem_iff.mp member))]

end Store
