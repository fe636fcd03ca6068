import OpenTela.Crdt.Keys
import OpenTela.Lib.Separated
import Mathlib.Data.Finset.Insert
import Mathlib.Data.Finset.Filter
import Mathlib.Data.Finset.Lattice.Basic
import Mathlib.Data.List.Induction

namespace OpenTela

/-- The options of the bans. `hash` is the multihash of a CID and `dsKey` is `dshelp.MultihashToDsKey`, which
writes different multihashes differently. -/
structure BanSetup (C M : Type) where
  maxFetchFailures : ℤ
  minFetchFailureAge : Int64
  root : Path
  hash : C → M
  dsKey : M → Id
  dsKey_injective : Function.Injective dsKey

def bannedNs : String := "x"

structure FailureRecord where
  count : ℕ := 0
  firstSeen : ℤ
  lastSeen : ℤ := 0

/-- `autoBan`, with the keys of the datastore that it writes to. -/
structure AutoBan (C : Type) where
  banned : Finset Path := ∅
  failures : Store C FailureRecord := ∅
  store : Finset Path := ∅

/-- What comes of a `Put`: one that fails may have stored the key all the same. -/
inductive PutResult where
  | stored
  | failed (kept : Bool)
  deriving DecidableEq

def PutResult.keeps : PutResult → Bool
  | .stored => true
  | .failed kept => kept

/-- What comes of the query when the bans are loaded: an error, or the entries, some of them with an error. -/
inductive BanLoad where
  | failed (err : String)
  | read (broken : Finset Path)

/-- The load reads the key. -/
def BanLoad.Reads (key : Path) : BanLoad → Prop
  | .failed _ => False
  | .read broken => key ∉ broken

/-- `Time.Sub`, which stops at the longest durations. -/
def timeSub (t u : ℤ) : ℤ := max (-2 ^ 63) (min (t - u) (2 ^ 63 - 1))

section Code

variable {C M : Type} [DecidableEq C] (setup : BanSetup C M)

def BanSetup.enabled : Bool := 0 < setup.maxFetchFailures

def BanSetup.bannedRoot : Path := setup.root ++ [bannedNs]

def BanSetup.bannedKey (c : C) : Path := setup.bannedRoot ++ [setup.dsKey (setup.hash c)]

def AutoBan.isBanned (a : AutoBan C) (c : C) : Bool := setup.enabled && setup.bannedKey c ∈ a.banned

def AutoBan.loadFromStore (load : BanLoad) (a : AutoBan C) : Except String Unit × AutoBan C :=
  if !setup.enabled then (.ok (), a)
  else
    match load with
    | .failed err => (.error ("autoban: query: " ++ err), a)
    | .read broken => (.ok (), { a with banned := a.banned ∪ a.store.filter (fun key => below setup.bannedRoot key ∧ key ∉ broken) })

/-- The record of a CID after one more failure. -/
def AutoBan.failed (a : AutoBan C) (c : C) (now : ℤ) : FailureRecord :=
  let found := (a.failures.lookup c).getD { firstSeen := now }
  { found with count := found.count + 1, lastSeen := now }

def AutoBan.recordFailure (c : C) (now : ℤ) (put : PutResult) (a : AutoBan C) : Bool × AutoBan C :=
  let key := setup.bannedKey c
  if !setup.enabled then (false, a)
  else if key ∈ a.banned then (false, a)
  else
    let record := a.failed c now
    if (record.count : ℤ) < setup.maxFetchFailures ∨ timeSub now record.firstSeen < setup.minFetchFailureAge.toInt then
      (false, { a with failures := a.failures.insert c record })
    else
      (true, { banned := insert key a.banned
               failures := a.failures.erase c
               store := if put.keeps then insert key a.store else a.store })

def AutoBan.clearFailure (c : C) (a : AutoBan C) : AutoBan C :=
  if !setup.enabled then a else { a with failures := a.failures.erase c }

/-- A fresh `autoBan` on the same datastore. A load that fails is logged and no more. -/
def AutoBan.restart (load : BanLoad) (a : AutoBan C) : AutoBan C :=
  (AutoBan.loadFromStore setup load { store := a.store }).2

inductive BanOp (C : Type) where
  | recordFailure (c : C) (now : ℤ) (put : PutResult)
  | clearFailure (c : C)
  | isBanned (c : C)
  | restart (load : BanLoad)

def AutoBan.perform (a : AutoBan C) : BanOp C → AutoBan C
  | .recordFailure c now put => (a.recordFailure setup c now put).2
  | .clearFailure c => a.clearFailure setup c
  | .isBanned _ => a
  | .restart load => a.restart setup load

/-- What a history leaves of a datastore with some keys in it. -/
def AutoBan.run (keys : Finset Path) (ops : List (BanOp C)) : AutoBan C := ops.foldl (AutoBan.perform setup) { store := keys }

end Code

section History

variable {C M : Type} [DecidableEq C]

/-- The times at which failures were recorded. -/
def banClock (ops : List (BanOp C)) : List ℤ :=
  ops.filterMap (fun
    | .recordFailure _ now _ => some now
    | _ => none)

/-- The times of the failures of a CID since it was last cleared or the node restarted. -/
def failuresOf (c : C) (ops : List (BanOp C)) : List ℤ :=
  ops.foldl (fun times op =>
    match op with
    | .recordFailure c' now _ => if c' = c then times ++ [now] else times
    | .clearFailure c' => if c' = c then [] else times
    | .isBanned _ => times
    | .restart _ => []) []

/-- The load of the last restart. -/
def lastLoad (ops : List (BanOp C)) : Option BanLoad :=
  ops.foldl (fun last op =>
    match op with
    | .restart load => some load
    | _ => last) none

/-- At some point of the history `recordFailure` banned a CID, with `P` of it and of what came after. -/
def BannedWith (setup : BanSetup C M) (keys : Finset Path) (ops : List (BanOp C)) (P : C → PutResult → List (BanOp C) → Prop) : Prop :=
  ∃ before c now put after, ops = before ++ .recordFailure c now put :: after ∧
    ((AutoBan.run setup keys before).recordFailure setup c now put).1 = true ∧ P c put after

/-- The multihash was banned, and the last restart since, if there is one, read the record that the ban had left;
or it read one that was there before. -/
def HasBan (setup : BanSetup C M) (keys : Finset Path) (ops : List (BanOp C)) (c : C) : Prop :=
  BannedWith setup keys ops (fun c' put after => setup.hash c' = setup.hash c ∧
    ∀ load, lastLoad after = some load → put.keeps = true ∧ load.Reads (setup.bannedKey c)) ∨
  setup.bannedKey c ∈ keys ∧ ∃ load, lastLoad ops = some load ∧ load.Reads (setup.bannedKey c)

end History

section Keys

variable {C M : Type} {setup : BanSetup C M}

theorem bannedKey_inj {c c' : C} : setup.bannedKey c = setup.bannedKey c' ↔ setup.hash c = setup.hash c' := by
  constructor
  · intro same
    have names := List.singleton_inj.mp (List.append_cancel_left same)
    exact setup.dsKey_injective names
  · intro same
    rw [BanSetup.bannedKey, BanSetup.bannedKey, same]

theorem bannedKey_below (c : C) : below setup.bannedRoot (setup.bannedKey c) = true := by
  simp [below, BanSetup.bannedKey]

theorem enabled_eq (enabled : 0 < setup.maxFetchFailures) : setup.enabled = true := decide_eq_true enabled

theorem isBanned_iff (enabled : 0 < setup.maxFetchFailures) {a : AutoBan C} {c : C} : a.isBanned setup c = true ↔ setup.bannedKey c ∈ a.banned := by
  rw [AutoBan.isBanned, enabled_eq enabled, Bool.true_and, decide_eq_true_iff]

theorem restart_banned (enabled : 0 < setup.maxFetchFailures) (a : AutoBan C) (load : BanLoad) (c : C) :
    setup.bannedKey c ∈ (a.restart setup load).banned ↔ setup.bannedKey c ∈ a.store ∧ load.Reads (setup.bannedKey c) := by
  unfold AutoBan.restart AutoBan.loadFromStore
  rw [enabled_eq enabled, Bool.not_true, if_neg Bool.false_ne_true]
  cases load with
  | failed err => simp [BanLoad.Reads]
  | read broken =>
    simp only [BanLoad.Reads, Finset.mem_union, Finset.notMem_empty, false_or, Finset.mem_filter, bannedKey_below, true_and]

theorem restart_rest (enabled : 0 < setup.maxFetchFailures) (a : AutoBan C) (load : BanLoad) :
    (a.restart setup load).failures = ∅ ∧ (a.restart setup load).store = a.store := by
  unfold AutoBan.restart AutoBan.loadFromStore
  rw [enabled_eq enabled, Bool.not_true, if_neg Bool.false_ne_true]
  cases load <;> exact ⟨rfl, rfl⟩

theorem lastLoad_append (ops : List (BanOp C)) (op : BanOp C) : lastLoad (ops ++ [op]) =
    match op with
    | .restart load => some load
    | _ => lastLoad ops := by
  rw [lastLoad, List.foldl_append]
  cases op <;> rfl

theorem banClock_append (ops : List (BanOp C)) (op : BanOp C) : banClock (ops ++ [op]) = banClock ops ++ banClock [op] :=
  List.filterMap_append

end Keys

section Records

/-- What the failures of a CID at some times come to. -/
def recordOf (times : List ℤ) : Option FailureRecord :=
  times.head?.map (fun first => { count := times.length, firstSeen := first, lastSeen := times.getLast?.getD first })

theorem recordOf_append (times : List ℤ) (now : ℤ) :
    recordOf (times ++ [now]) =
      some { (recordOf times).getD { firstSeen := now } with count := ((recordOf times).getD { firstSeen := now }).count + 1, lastSeen := now } := by
  cases times with
  | nil => rfl
  | cons first rest =>
    have last : ((first :: rest) ++ [now]).getLast? = some now := List.getLast?_concat
    have longer : ((first :: rest) ++ [now]).length = (first :: rest).length + 1 := List.length_append
    rw [recordOf, last, longer]
    rfl

/-- The limits of a duration do not matter where time does not go back. -/
theorem timeSub_lt {t u : ℤ} {least : Int64} (later : u ≤ t) : timeSub t u < least.toInt ↔ t - u < least.toInt := by
  have bound := least.toInt_lt
  unfold timeSub
  omega

end Records

section Steps

variable {C M : Type} [DecidableEq C] {setup : BanSetup C M} {keys : Finset Path} {ops : List (BanOp C)}

theorem AutoBan.run_append (op : BanOp C) :
    AutoBan.run setup keys (ops ++ [op]) = (AutoBan.run setup keys ops).perform setup op := by
  rw [AutoBan.run, List.foldl_append]
  rfl

theorem failuresOf_append (c : C) (op : BanOp C) : failuresOf c (ops ++ [op]) =
    match op with
    | .recordFailure c' now _ => if c' = c then failuresOf c ops ++ [now] else failuresOf c ops
    | .clearFailure c' => if c' = c then [] else failuresOf c ops
    | .isBanned _ => failuresOf c ops
    | .restart _ => [] := by
  rw [failuresOf, List.foldl_append]
  cases op <;> rfl

theorem failuresOf_clock {c : C} (t : ℤ) (member : t ∈ failuresOf c ops) : t ∈ banClock ops := by
  induction ops using List.reverseRecOn with
  | nil => exact absurd member List.not_mem_nil
  | append_singleton ops op ih =>
    rw [banClock_append, List.mem_append]
    rw [failuresOf_append] at member
    cases op with
    | recordFailure c' now put =>
      dsimp only at member
      split at member
      · rcases List.mem_append.mp member with before | last
        · exact Or.inl (ih before)
        · exact Or.inr last
      · exact Or.inl (ih member)
    | clearFailure c' =>
      dsimp only at member
      split at member
      · exact absurd member List.not_mem_nil
      · exact Or.inl (ih member)
    | isBanned c' => exact Or.inl (ih member)
    | restart load => exact absurd member List.not_mem_nil

/-- A ban is the one that the last operation makes, or an earlier one. -/
theorem bannedWith_append {op : BanOp C} {P : C → PutResult → List (BanOp C) → Prop} :
    BannedWith setup keys (ops ++ [op]) P ↔
      (∃ c now put, op = .recordFailure c now put ∧
        ((AutoBan.run setup keys ops).recordFailure setup c now put).1 = true ∧ P c put []) ∨
      BannedWith setup keys ops (fun c put after => P c put (after ++ [op])) := by
  constructor
  · rintro ⟨before, c, now, put, after, split, bans, fits⟩
    rcases List.concat_eq_split.mp split with ⟨rfl, same, rfl⟩ | ⟨earlier, rfl, rfl⟩
    · exact Or.inl ⟨c, now, put, same.symm, bans, fits⟩
    · exact Or.inr ⟨before, c, now, put, earlier, rfl, bans, fits⟩
  · rintro (⟨c, now, put, rfl, bans, fits⟩ | ⟨before, c, now, put, earlier, rfl, bans, fits⟩)
    · exact ⟨ops, c, now, put, [], rfl, bans, fits⟩
    · exact ⟨before, c, now, put, earlier ++ [op], by rw [List.append_assoc, List.cons_append], bans, fits⟩

theorem bannedWith_nil {P : C → PutResult → List (BanOp C) → Prop} : ¬ BannedWith setup keys [] P := by
  rintro ⟨before, c, now, put, after, split, _⟩
  simp at split

theorem bannedWith_recordFailure {c : C} {now : ℤ} {put : PutResult} {P : C → PutResult → List (BanOp C) → Prop} :
    BannedWith setup keys (ops ++ [.recordFailure c now put]) P ↔
      (((AutoBan.run setup keys ops).recordFailure setup c now put).1 = true ∧ P c put []) ∨
      BannedWith setup keys ops (fun c' put' after => P c' put' (after ++ [.recordFailure c now put])) := by
  rw [bannedWith_append]
  refine or_congr_left ?_
  constructor
  · rintro ⟨c', now', put', same, bans, fits⟩
    cases same
    exact ⟨bans, fits⟩
  · rintro ⟨bans, fits⟩
    exact ⟨c, now, put, rfl, bans, fits⟩

theorem bannedWith_other {op : BanOp C} {P : C → PutResult → List (BanOp C) → Prop} (other : ∀ c now put, op ≠ .recordFailure c now put) :
    BannedWith setup keys (ops ++ [op]) P ↔ BannedWith setup keys ops (fun c put after => P c put (after ++ [op])) := by
  rw [bannedWith_append]
  constructor
  · rintro (⟨c, now, put, same, _⟩ | earlier)
    · exact absurd same (other c now put)
    · exact earlier
  · exact Or.inr

/-- The record is not enough for a ban. -/
def Early (setup : BanSetup C M) (record : FailureRecord) (now : ℤ) : Prop :=
  (record.count : ℤ) < setup.maxFetchFailures ∨ timeSub now record.firstSeen < setup.minFetchFailureAge.toInt

variable (enabled : 0 < setup.maxFetchFailures)
include enabled

/-- All that `recordFailure` can do. -/
theorem recordFailure_cases (a : AutoBan C) (c : C) (now : ℤ) (put : PutResult) :
    (setup.bannedKey c ∈ a.banned ∧ a.recordFailure setup c now put = (false, a)) ∨
    (setup.bannedKey c ∉ a.banned ∧ Early setup (a.failed c now) now ∧
      a.recordFailure setup c now put = (false, { a with failures := a.failures.insert c (a.failed c now) })) ∨
    (setup.bannedKey c ∉ a.banned ∧ ¬ Early setup (a.failed c now) now ∧
      a.recordFailure setup c now put = (true, { banned := insert (setup.bannedKey c) a.banned
                                                 failures := a.failures.erase c
                                                 store := if put.keeps then insert (setup.bannedKey c) a.store else a.store })) := by
  unfold AutoBan.recordFailure
  rw [enabled_eq enabled, Bool.not_true, if_neg Bool.false_ne_true]
  by_cases known : setup.bannedKey c ∈ a.banned
  · exact Or.inl ⟨known, by rw [if_pos known]⟩
  · rw [if_neg known]
    by_cases early : Early setup (a.failed c now) now
    · exact Or.inr (Or.inl ⟨known, early, if_pos early⟩)
    · exact Or.inr (Or.inr ⟨known, early, if_neg early⟩)

/-- A ban goes into the memory and, if the `Put` keeps it, into the datastore. Without one both stay as they are. -/
theorem recordFailure_bans (a : AutoBan C) (c : C) (now : ℤ) (put : PutResult) :
    ((a.recordFailure setup c now put).1 = false ∧ (a.recordFailure setup c now put).2.banned = a.banned ∧
      (a.recordFailure setup c now put).2.store = a.store) ∨
    ((a.recordFailure setup c now put).1 = true ∧
      (a.recordFailure setup c now put).2.banned = insert (setup.bannedKey c) a.banned ∧
      (a.recordFailure setup c now put).2.store = if put.keeps then insert (setup.bannedKey c) a.store else a.store) := by
  rcases recordFailure_cases enabled a c now put with ⟨_, eq⟩ | ⟨_, _, eq⟩ | ⟨_, _, eq⟩
  · rw [eq]
    exact Or.inl ⟨rfl, rfl, rfl⟩
  · rw [eq]
    exact Or.inl ⟨rfl, rfl, rfl⟩
  · rw [eq]
    exact Or.inr ⟨rfl, rfl, rfl⟩

theorem clearFailure_eq (a : AutoBan C) (c : C) : a.clearFailure setup c = { a with failures := a.failures.erase c } := by
  rw [AutoBan.clearFailure, enabled_eq enabled, Bool.not_true, if_neg Bool.false_ne_true]

/-- The keys in the datastore are those that were there and those that bans have left. -/
theorem run_store (key : Path) : key ∈ (AutoBan.run setup keys ops).store ↔
    key ∈ keys ∨ BannedWith setup keys ops (fun c put _ => setup.bannedKey c = key ∧ put.keeps = true) := by
  induction ops using List.reverseRecOn with
  | nil =>
    constructor
    · exact Or.inl
    · rintro (there | none)
      · exact there
      · exact absurd none bannedWith_nil
  | append_singleton ops op ih =>
    rw [AutoBan.run_append]
    cases op with
    | recordFailure c now put =>
      rw [bannedWith_recordFailure, AutoBan.perform]
      rcases recordFailure_bans enabled (AutoBan.run setup keys ops) c now put with ⟨answer, _, store⟩ | ⟨answer, _, store⟩
      · rw [answer, store, ih]
        simp only [Bool.false_eq_true, false_and, false_or]
      · rw [answer, store]
        cases kept : put.keeps with
        | true =>
          rw [if_pos rfl, Finset.mem_insert, ih]
          simp only [true_and, and_true]
          rw [or_left_comm, eq_comm (a := key)]
        | false =>
          rw [if_neg Bool.false_ne_true, ih]
          simp only [Bool.false_eq_true, and_false, false_or]
    | clearFailure c => rw [bannedWith_other (by rintro _ _ _ ⟨⟩), ← ih, AutoBan.perform, clearFailure_eq enabled]
    | isBanned c =>
      rw [bannedWith_other (by rintro _ _ _ ⟨⟩), ← ih]
      rfl
    | restart load =>
      rw [bannedWith_other (by rintro _ _ _ ⟨⟩), ← ih, AutoBan.perform, (restart_rest enabled _ load).2]

/-- The bans in force are those of the history. -/
theorem run_banned (c : C) : setup.bannedKey c ∈ (AutoBan.run setup keys ops).banned ↔ HasBan setup keys ops c := by
  induction ops using List.reverseRecOn with
  | nil =>
    constructor
    · exact fun none => absurd none (Finset.notMem_empty _)
    · rintro (none | ⟨_, load, none, _⟩)
      · exact absurd none bannedWith_nil
      · cases none
  | append_singleton ops op ih =>
    have quiet : (∀ load, op ≠ .restart load) →
        ∀ earlier : List (BanOp C), lastLoad (earlier ++ [op]) = lastLoad earlier := by
      intro other earlier
      rw [lastLoad_append]
      cases op with
      | restart load => exact absurd rfl (other load)
      | _ => rfl
    rw [AutoBan.run_append]
    cases op with
    | recordFailure c' now put =>
      have same := quiet (by rintro _ ⟨⟩)
      rw [HasBan, bannedWith_recordFailure, AutoBan.perform]
      simp only [same]
      rcases recordFailure_bans enabled (AutoBan.run setup keys ops) c' now put with ⟨answer, banned, _⟩ | ⟨answer, banned, _⟩
      · rw [answer, banned, ih, HasBan]
        simp only [Bool.false_eq_true, false_and, false_or]
      · have alone : lastLoad ([] : List (BanOp C)) = none := rfl
        rw [answer, banned, Finset.mem_insert, ih, HasBan, bannedKey_inj, eq_comm]
        simp only [alone, reduceCtorEq, false_implies, implies_true, and_true, true_and, or_assoc]
    | clearFailure c' =>
      rw [AutoBan.perform, clearFailure_eq enabled, ih, HasBan, HasBan, bannedWith_other (by rintro _ _ _ ⟨⟩)]
      simp only [quiet (by rintro _ ⟨⟩)]
    | isBanned c' =>
      rw [AutoBan.perform, ih, HasBan, HasBan, bannedWith_other (by rintro _ _ _ ⟨⟩)]
      simp only [quiet (by rintro _ ⟨⟩)]
    | restart load =>
      have last : ∀ earlier : List (BanOp C), lastLoad (earlier ++ [.restart load]) = some load := fun earlier => lastLoad_append earlier _
      rw [AutoBan.perform, restart_banned enabled, run_store enabled, HasBan, bannedWith_other (by rintro _ _ _ ⟨⟩)]
      simp only [last, Option.some.injEq, forall_eq', exists_eq_left', bannedKey_inj]
      constructor
      · rintro ⟨there | ⟨before, c', now, put, after, split, bans, same, kept⟩, reads⟩
        · exact Or.inr ⟨there, reads⟩
        · exact Or.inl ⟨before, c', now, put, after, split, bans, same, kept, reads⟩
      · rintro (⟨before, c', now, put, after, split, bans, same, kept, reads⟩ | ⟨there, reads⟩)
        · exact ⟨Or.inr ⟨before, c', now, put, after, split, bans, same, kept⟩, reads⟩
        · exact ⟨Or.inl there, reads⟩

/-- What is remembered of a CID that is not banned is what the history has of it. -/
theorem run_failures {c : C} (unbanned : setup.bannedKey c ∉ (AutoBan.run setup keys ops).banned) :
    (AutoBan.run setup keys ops).failures.lookup c = recordOf (failuresOf c ops) := by
  induction ops using List.reverseRecOn with
  | nil => rfl
  | append_singleton ops op ih =>
    rw [AutoBan.run_append] at unbanned ⊢
    rw [failuresOf_append]
    cases op with
    | recordFailure c' now put =>
      rw [AutoBan.perform] at unbanned ⊢
      dsimp only
      rcases recordFailure_cases enabled (AutoBan.run setup keys ops) c' now put with ⟨known, eq⟩ | ⟨_, _, eq⟩ | ⟨_, _, eq⟩
      · rw [eq] at unbanned ⊢
        have other : c' ≠ c := by
          rintro rfl
          exact unbanned known
        rw [if_neg other]
        exact ih unbanned
      · rw [eq] at unbanned ⊢
        have before := ih unbanned
        by_cases same : c' = c
        · subst same
          rw [if_pos rfl, AList.lookup_insert, recordOf_append, ← before]
          rfl
        · rw [if_neg same, AList.lookup_insert_ne (Ne.symm same)]
          exact before
      · rw [eq] at unbanned ⊢
        have other : c' ≠ c := by
          rintro rfl
          exact unbanned (Finset.mem_insert_self _ _)
        rw [if_neg other, AList.lookup_erase_ne (Ne.symm other)]
        exact ih (fun known => unbanned (Finset.mem_insert_of_mem known))
    | clearFailure c' =>
      rw [AutoBan.perform, clearFailure_eq enabled] at unbanned ⊢
      dsimp only
      by_cases same : c' = c
      · subst same
        rw [if_pos rfl, AList.lookup_erase]
        rfl
      · rw [if_neg same, AList.lookup_erase_ne (Ne.symm same)]
        exact ih unbanned
    | isBanned c' => exact ih unbanned
    | restart load =>
      rw [AutoBan.perform, (restart_rest enabled _ load).1]
      rfl

/-- The record of a CID that is not banned counts this failure and starts with the first of the history. -/
theorem failed_eq {c : C} (unbanned : setup.bannedKey c ∉ (AutoBan.run setup keys ops).banned) (now : ℤ) :
    ((AutoBan.run setup keys ops).failed c now).count = (failuresOf c ops).length + 1 ∧
      ((AutoBan.run setup keys ops).failed c now).firstSeen = (failuresOf c ops).headD now := by
  rw [AutoBan.failed, run_failures enabled unbanned, recordOf]
  cases failuresOf c ops with
  | nil => exact ⟨rfl, rfl⟩
  | cons first rest => exact ⟨rfl, rfl⟩

end Steps

/-- A CID is banned by the failure that makes enough of them since it was last cleared or the node restarted, the first long
enough ago, unless its multihash is banned already; and a multihash is banned from then on, and after a restart if the
restart reads the record that the ban left. -/
theorem autoBan_exact {C M : Type} [DecidableEq C] (setup : BanSetup C M) (enabled : 0 < setup.maxFetchFailures)
    (keys : Finset Path) (ops : List (BanOp C)) :
    (∀ c now put, (∀ t ∈ banClock ops, t ≤ now) →
      (((AutoBan.run setup keys ops).recordFailure setup c now put).1 = true ↔
        (AutoBan.run setup keys ops).isBanned setup c = false ∧
        setup.maxFetchFailures ≤ (failuresOf c ops).length + 1 ∧
        setup.minFetchFailureAge.toInt ≤ now - (failuresOf c ops).headD now)) ∧
    ∀ c, (AutoBan.run setup keys ops).isBanned setup c = true ↔ HasBan setup keys ops c := by
  refine ⟨fun c now put later => ?_, fun c => (isBanned_iff enabled).trans (run_banned enabled c)⟩
  have answer : (AutoBan.run setup keys ops).isBanned setup c = false ↔ setup.bannedKey c ∉ (AutoBan.run setup keys ops).banned := by
    rw [← isBanned_iff enabled, Bool.not_eq_true]
  rw [answer]
  by_cases known : setup.bannedKey c ∈ (AutoBan.run setup keys ops).banned
  · rcases recordFailure_cases enabled (AutoBan.run setup keys ops) c now put with ⟨_, eq⟩ | ⟨unknown, _⟩ | ⟨unknown, _⟩
    · rw [eq]
      exact ⟨fun bans => absurd bans Bool.false_ne_true, fun fine => absurd known fine.1⟩
    · exact absurd known unknown
    · exact absurd known unknown
  · obtain ⟨count, first⟩ := failed_eq enabled known now
    have before : (failuresOf c ops).headD now ≤ now := by
      cases times : failuresOf c ops with
      | nil => exact le_rfl
      | cons t rest => exact later t (failuresOf_clock t (by rw [times]; exact List.mem_cons_self))
    have due : ¬ Early setup ((AutoBan.run setup keys ops).failed c now) now ↔
        setup.maxFetchFailures ≤ (failuresOf c ops).length + 1 ∧
        setup.minFetchFailureAge.toInt ≤ now - (failuresOf c ops).headD now := by
      rw [Early, count, first, timeSub_lt before]
      push_cast
      omega
    rcases recordFailure_cases enabled (AutoBan.run setup keys ops) c now put with ⟨unknown, _⟩ | ⟨_, early, eq⟩ | ⟨_, late, eq⟩
    · exact absurd unknown known
    · rw [eq]
      exact ⟨fun bans => absurd bans Bool.false_ne_true, fun fine => absurd early (due.mpr fine.2)⟩
    · rw [eq]
      exact ⟨fun _ => ⟨known, due.mp late⟩, fun _ => rfl⟩

namespace Unfetchable

/-- CIDs of two versions; the multihash is given by its key. -/
def setup (maxFetchFailures : ℤ) (minFetchFailureAge : Int64) : BanSetup (Bool × Id) Id where
  maxFetchFailures := maxFetchFailures
  minFetchFailureAge := minFetchFailureAge
  root := ["ocf-crdt"]
  hash := Prod.snd
  dsKey := id
  dsKey_injective := Function.injective_id

def orphan : Bool × Id := (true, "CIQORPHAN")

end Unfetchable

open Unfetchable in
/-- The second failure of two, ten units after the first, bans the orphan. -/
theorem autoBan_exact_second : ((AutoBan.run (setup 2 5) ∅ [.recordFailure orphan 0 .stored]).recordFailure (setup 2 5) orphan 10 .stored).1 = true :=
  ((autoBan_exact (setup 2 5) (by decide) ∅ [.recordFailure orphan 0 .stored]).1 orphan 10 .stored (by decide)).mpr
    ⟨by decide +kernel, by decide, by decide⟩

open Unfetchable in
/-- A ban that was stored is not in force after a restart whose query fails. -/
theorem autoBan_forgets : ¬ ∀ (ops : List (BanOp (Bool × Id))) c,
    BannedWith (setup 1 0) ∅ ops (fun c' put _ => (setup 1 0).hash c' = (setup 1 0).hash c ∧ put = .stored) →
      (AutoBan.run (setup 1 0) ∅ ops).isBanned (setup 1 0) c = true := by
  intro permanent
  have banned : ((AutoBan.run (setup 1 0) ∅ []).recordFailure (setup 1 0) orphan 0 .stored).1 = true := by decide +kernel
  have gone : (AutoBan.run (setup 1 0) ∅ [.recordFailure orphan 0 .stored, .restart (.failed "datastore closed")]).isBanned
      (setup 1 0) orphan = false := by decide +kernel
  have still := permanent [.recordFailure orphan 0 .stored, .restart (.failed "datastore closed")] orphan
    ⟨[], orphan, 0, .stored, [.restart (.failed "datastore closed")], rfl, banned, rfl, rfl⟩
  rw [gone] at still
  exact Bool.false_ne_true still

end OpenTela
