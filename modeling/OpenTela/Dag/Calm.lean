import OpenTela.Crdt.Concurrent
import OpenTela.Dag.Merging

namespace OpenTela

open Prog

/-- Two blocks that may be merged at the same time. -/
def Net.Apart (net : Net) (a b : Cid) : Prop :=
  OpenTela.Apart net.env (fun second => (net.block (cond second b a)).delta) (fun second => cond second b a)

/-- A step after which every merged block is still at or below a head to come: a walk opened
for a head starts there, a root is given up only where something else covers it, and a
merge is begun only apart from those that are going on. -/
structure TakesCare (net : Net) (c : Crew) (i : ℕ) (task : Task) (o : DagOp) (r : o.Res) : Prop where
  own : WalksOwn o r
  covered : ∀ root, task.quits root o → net.Covered (c.threads.eraseIdx i) c.state root
  apart : ∀ a, o = .enterMerge a → ∀ j b, j ≠ i → c.state.merging.lookup j = some b → net.Apart a b

/-- The block has been merged, or is being merged. -/
def Replica.Handled (w : Replica) (b : Cid) : Prop := b ∈ w.processed ∨ ∃ j, w.merging.lookup j = some b

/-- The thread is in the merge of `b`, which comes to its end, without the mutex, whatever the
thread tolerates from the others. -/
def Net.InMerge (net : Net) (j : ℕ) (b : Cid) (p : DagM Unit) (w : World ℕ) : Prop :=
  ∃ m, MergesThen b m p ∧ Triple net.env j (net.block b).delta b (· = .lock) (Quiet net.env j (net.block b).delta b) m
    (fun _ u => u.mutex ≠ some j) w

/-- The set stores the best live element of every key, of blocks that have been handled. -/
structure Net.Kempt (net : Net) (w : Replica) : Prop where
  sane : Sane net.env w.set.store
  settled : ∀ key, Settled w.set.store key net.env
  elems : ∀ key, ∀ x ∈ elemsOf w.set.store key, w.Handled x
  tombs : ∀ key, ∀ x ∈ tombsOf w.set.store key, ∃ b, w.Handled b ∧ x ∈ (net.block b).delta.tombIds key

structure Calm (net : Net) (c : Crew) : Prop where
  level : Level net c
  kempt : net.Kempt c.state
  orderly : ∀ j t, c.threads[j]? = some t → net.Orderly t.task (c.state.merging.lookup j) t.prog
  merging : ∀ j b, c.state.merging.lookup j = some b →
    ∃ t, c.threads[j]? = some t ∧ t.task.walks = true ∧ net.InMerge j b t.prog c.state.set
  apart : ∀ i j a b, i ≠ j → c.state.merging.lookup i = some a → c.state.merging.lookup j = some b → net.Apart a b
  held : ∀ j, c.state.set.mutex = some j → ∃ b, c.state.merging.lookup j = some b
  covered : ∀ b, c.state.Handled b → net.Covered c.threads c.state b

section Operations

variable {net : Net} {i : ℕ} {choice : Choice} {o : DagOp} {w w' : Replica} {r : o.Res}

/-- What an operation does to the notes of who is merging what. -/
theorem Net.exec_merging (executed : net.exec i choice o w = some (r, w')) :
    w'.merging.lookup i = engaged (w.merging.lookup i) o r ∧ ∀ j, j ≠ i → w'.merging.lookup j = w.merging.lookup j := by
  cases o with
  | enterMerge b =>
    obtain ⟨_, rfl⟩ := Prod.mk.inj (Option.some.inj executed)
    exact ⟨AList.lookup_insert _, fun j other => AList.lookup_insert_ne other⟩
  | markProcessed b =>
    obtain ⟨_, rfl⟩ := Prod.mk.inj (Option.some.inj executed)
    exact ⟨AList.lookup_erase _ _, fun j other => AList.lookup_erase_ne other⟩
  | set so =>
    obtain ⟨u, _, rfl⟩ := Net.exec_set executed
    exact ⟨rfl, fun _ _ => rfl⟩
  | visit | dequeue | addHead | replaceHead | markDirty | markClean =>
    obtain ⟨_, rfl⟩ := Prod.mk.inj (Option.some.inj executed)
    exact ⟨rfl, fun _ _ => rfl⟩
  | _ =>
    rw [(Net.exec_alike executed trivial).merging]
    exact ⟨rfl, fun _ _ => rfl⟩

/-- Outside a merge the set stays as it is. -/
theorem Net.exec_aloof (executed : net.exec i choice o w = some (r, w')) (aloof : o.Aloof ∨ ∃ b, o = .enterMerge b ∨ o = .markProcessed b) :
    w'.set = w.set := by
  cases o with
  | set so =>
    obtain ⟨u, inner, rfl⟩ := Net.exec_set executed
    rcases aloof with reads | ⟨_, no | no⟩
    · cases so with
      | has | query =>
        obtain ⟨_, rfl⟩ := Prod.mk.inj (Option.some.inj inner)
        rfl
      | _ => exact reads.elim
    · cases no
    · cases no
  | enterMerge | markProcessed | visit | dequeue | addHead | replaceHead | markDirty | markClean =>
    obtain ⟨_, rfl⟩ := Prod.mk.inj (Option.some.inj executed)
    rfl
  | _ => exact (Net.exec_alike executed trivial).set

/-- A thread in a merge takes a promised step of it, or is done and marks the block. -/
theorem Net.InMerge.step {a : Cid} {next : o.Res → DagM Unit} (inMerge : net.InMerge i a (.op o next) w.set)
    (executed : net.exec i choice o w = some (r, w')) :
    o = .markProcessed a ∧ w.set.mutex ≠ some i ∨ engaged (some a) o r = some a ∧ Acts net.env i (net.block a).delta a w.set w'.set ∧
      net.InMerge i a (next r) w'.set := by
  obtain ⟨m, ⟨K, context, shape, last, marks⟩, triple⟩ := inMerge
  cases m with
  | ret u =>
    rw [show DagM.set (.ret u) = .ret () from rfl, marks] at shape
    cases shape
    exact Or.inl ⟨rfl, triple w.set (Tolerates.quiet_self.steady_refl _)⟩
  | fail e => exact triple.elim
  | op so rest =>
    rw [show DagM.set (.op so rest) = .op (.set so) (fun r => DagM.set (rest r)) from rfl, context] at shape
    cases shape
    obtain ⟨u, inner, rfl⟩ := Net.exec_set executed
    obtain ⟨acts, later⟩ := (triple w.set (Tolerates.quiet_self.steady_refl _)).2 r u inner
    exact Or.inr ⟨rfl, acts, rest r, ⟨K, context, rfl, last, marks⟩, later⟩

/-- Outside a merge a thread reads the set at most, or begins a merge. -/
theorem aloof_of_orderly {task : Task} {rest : DagM Unit} (orderly : net.orderly task none o r rest) :
    o.Aloof ∨ ∃ b, o = .enterMerge b ∨ o = .markProcessed b := by
  cases o with
  | set so => exact Or.inl orderly
  | enterMerge b => exact Or.inr ⟨b, Or.inl rfl⟩
  | markProcessed b => exact orderly.elim
  | _ => exact Or.inl trivial

theorem Net.Kempt.step (produced : ∀ c, (net.block c).delta.Produced) (kempt : net.Kempt w)
    (handled : ∀ b, w.Handled b → w'.Handled b)
    (moved : w'.set = w.set ∨ ∃ a, w.Handled a ∧ Acts net.env i (net.block a).delta a w.set w'.set) : net.Kempt w' := by
  rcases moved with same | ⟨a, mine, acts⟩
  · refine ⟨same ▸ kempt.sane, same ▸ kempt.settled, fun key x member => ?_, fun key x member => ?_⟩
    · rw [same] at member
      exact handled x (kempt.elems key x member)
    · rw [same] at member
      obtain ⟨b, old, names⟩ := kempt.tombs key x member
      exact ⟨b, handled b old, names⟩
  · refine ⟨acts.sane kempt.sane, fun key => acts.settled (produced a).ranked (net.serves a) (kempt.settled key),
      fun key x member => ?_, fun key x member => ?_⟩
    · rcases (acts.within key).1 x member with old | ⟨rfl, _⟩
      · exact handled x (kempt.elems key x old)
      · exact handled x mine
    · rcases (acts.within key).2 x member with old | names
      · obtain ⟨b, before, names⟩ := kempt.tombs key x old
        exact ⟨b, handled b before, names⟩
      · exact ⟨a, handled a mine, names⟩

end Operations

section Step

variable {net : Net} {c d : Crew}

theorem Net.Apart.symm {a b : Cid} (apart : net.Apart a b) : net.Apart b a := by
  intro x key named
  have other := apart (!x) key
  cases x with
  | false =>
    refine (other named).imp_right (fun agreed => ⟨agreed.1, agreed.2.1, fun j own => ?_⟩)
    cases j with
    | false => exact agreed.2.2 true own
    | true => exact agreed.2.2 false own
  | true =>
    refine (other named).imp_right (fun agreed => ⟨agreed.1, agreed.2.1, fun j own => ?_⟩)
    cases j with
    | false => exact agreed.2.2 true own
    | true => exact agreed.2.2 false own

theorem Calm.fresh : Calm net Crew.fresh where
  level := .fresh
  kempt := {
    sane := ⟨fun _ _ none => (by cases none), fun _ => ⟨none, rfl, rfl⟩⟩
    settled := fun key => ⟨none, ⟨rfl, rfl⟩, by
      ext r
      refine ⟨?_, fun no => no.elim⟩
      rintro ⟨id, ⟨none, _⟩, _⟩
      cases none⟩
    elems := fun _ _ none => by cases none
    tombs := fun _ _ none => by cases none }
  orderly := fun _ _ none => by cases none
  merging := fun _ _ none => by cases none
  apart := fun _ _ _ _ _ none => by cases none
  held := fun _ none => by cases none
  covered := fun b none => by
    rcases none with no | ⟨_, no⟩
    · exact absurd no (Finset.notMem_empty b)
    · cases no

/-- A thread that is yet to come merges nothing. -/
theorem Calm.unengaged (calm : Calm net c) {j : ℕ} (beyond : c.threads.length ≤ j) : c.state.merging.lookup j = none := by
  cases noted : c.state.merging.lookup j with
  | none => rfl
  | some b =>
    obtain ⟨t, present, _⟩ := calm.merging j b noted
    rw [List.getElem?_eq_none beyond] at present
    cases present

theorem Calm.enter (honest : net.Honest) (calm : Calm net c) {task : Task} (outside : task.outside = true) :
    Calm net ⟨c.state, c.threads ++ [net.system.start task]⟩ where
  level := (calm.level.step honest (fun _ _ _ _ _ care => care.own)
    (.enter task outside : Crew.Step net.system (TakesCare net) c _)).1
  kempt := calm.kempt
  orderly := by
    intro j t found
    rw [List.getElem?_append] at found
    split at found
    · exact calm.orderly j t found
    · rename_i beyond
      dsimp only
      rw [calm.unengaged (Nat.le_of_not_lt beyond)]
      obtain rfl := List.mem_singleton.mp (List.mem_of_getElem? found)
      refine net.body_orderly ?_
      cases task with
      | job => cases outside
      | _ => trivial
  merging := by
    intro j b noted
    obtain ⟨t, present, rest⟩ := calm.merging j b noted
    obtain ⟨bound, _⟩ := List.getElem?_eq_some_iff.mp present
    exact ⟨t, by rw [List.getElem?_append_left bound, present], rest⟩
  apart := calm.apart
  held := calm.held
  covered := fun b handled => (calm.covered b handled).mono (fun h height found => ⟨h, height, found, .refl net h⟩)
    (fun t member => List.mem_append_left _ member)

section Act

variable {i : ℕ} {choice : Choice} {task : Task} {o : DagOp} {next : o.Res → DagM Unit} {r : o.Res} {s : Replica}
  (calm : Calm net c) (present : c.threads[i]? = some ⟨task, .op o next⟩)
  (executed : net.exec i choice o c.state = some (r, s))

include calm executed in
theorem Calm.answered : net.can o r := Net.exec_can calm.level.sturdy.decodes executed

include calm present executed in
/-- The set stays as it is, or the thread takes a promised step of the merge it is in. -/
theorem Calm.moved :
    (c.state.merging.lookup i = none ∧ s.set = c.state.set ∧ net.orderly task none o r (next r)) ∨
    ∃ a, c.state.merging.lookup i = some a ∧
      (o = .markProcessed a ∧ s.set = c.state.set ∧ c.state.set.mutex ≠ some i ∨
        engaged (some a) o r = some a ∧ Acts net.env i (net.block a).delta a c.state.set s.set ∧
          net.InMerge i a (next r) s.set) := by
  cases noted : c.state.merging.lookup i with
  | none =>
    have orderly := calm.orderly i _ present
    rw [noted] at orderly
    have here := (orderly r (calm.answered executed)).1
    exact Or.inl ⟨rfl, Net.exec_aloof executed (aloof_of_orderly here), here⟩
  | some a =>
    obtain ⟨t, found, _, inMerge⟩ := calm.merging i a noted
    obtain rfl := Option.some.inj (present.symm.trans found)
    refine Or.inr ⟨a, rfl, ?_⟩
    rcases inMerge.step executed with ⟨rfl, free⟩ | acting
    · exact Or.inl ⟨rfl, Net.exec_aloof executed (Or.inr ⟨a, Or.inr rfl⟩), free⟩
    · exact Or.inr acting

include executed in
/-- Who is merging a block now was doing so before, or begins to. -/
theorem entered {a : Cid} (noted : s.merging.lookup i = some a) :
    c.state.merging.lookup i = some a ∨ o = .enterMerge a := by
  rw [(Net.exec_merging executed).1] at noted
  cases o with
  | enterMerge b => exact Or.inr (congrArg _ (Option.some.inj noted))
  | markProcessed b => cases noted
  | _ => exact Or.inl noted

include calm present executed in
theorem Calm.handled {b : Cid} (handled : c.state.Handled b) : s.Handled b := by
  rcases handled with done | ⟨j, noted⟩
  · exact Or.inl ((Net.exec_advance executed).processed done)
  have notes := Net.exec_merging executed
  by_cases mine : j = i
  · subst mine
    rcases calm.moved present executed with ⟨none, _⟩ | ⟨a, here, ⟨rfl, _⟩ | ⟨still, _⟩⟩
    · rw [noted] at none
      cases none
    · obtain rfl : a = b := Option.some.inj (here.symm.trans noted)
      obtain ⟨_, rfl⟩ := Prod.mk.inj (Option.some.inj executed)
      exact Or.inl (Finset.mem_insert_self _ _)
    · exact Or.inr ⟨j, by rw [notes.1, noted, ← Option.some.inj (here.symm.trans noted), still]⟩
  · exact Or.inr ⟨j, by rw [notes.2 j mine, noted]⟩

include calm present executed in
/-- A block that is handled now was so before, or its merge begins in a thread that covers it. -/
theorem Calm.handled_of {b : Cid} (handled : s.Handled b) : c.state.Handled b ∨ net.Covers b ⟨task, next r⟩ := by
  rcases handled with done | ⟨j, noted⟩
  · rcases (Net.exec_advance executed).marked b done with old | rfl
    · exact Or.inl (Or.inl old)
    · rcases calm.moved present executed with ⟨_, _, no⟩ | ⟨a, here, ⟨same, _⟩ | ⟨no, _⟩⟩
      · exact no.elim
      · cases same
        exact Or.inl (Or.inr ⟨i, here⟩)
      · cases no
  · by_cases mine : j = i
    · subst mine
      rcases entered executed noted with old | rfl
      · exact Or.inl (Or.inr ⟨j, old⟩)
      · rcases calm.moved present executed with ⟨_, _, _, covers⟩ | ⟨a, here, ⟨no, _⟩ | ⟨same, _⟩⟩
        · exact Or.inr covers
        · cases no
        · obtain rfl : b = a := Option.some.inj same
          exact Or.inl (Or.inr ⟨j, here⟩)
    · rw [(Net.exec_merging executed).2 j mine] at noted
      exact Or.inl (Or.inr ⟨j, noted⟩)

include calm present executed in
/-- The others tolerate the step. -/
theorem Calm.steady (produced : ∀ c, (net.block c).delta.Produced) {j : ℕ} {b : Cid} (other : j ≠ i)
    (noted : c.state.merging.lookup j = some b) :
    Steady (Quiet net.env j (net.block b).delta b) j c.state.set s.set := by
  rcases calm.moved present executed with ⟨_, same, _⟩ | ⟨a, here, ⟨_, same, _⟩ | ⟨_, acts, _⟩⟩
  · rw [same]
    exact Tolerates.quiet_self.steady_refl _
  · rw [same]
    exact Tolerates.quiet_self.steady_refl _
  · have apart := calm.apart i j a b (Ne.symm other) here noted
    have quiet := OpenTela.Apart.quiet apart (fun _ => (produced _).ranked) (fun _ => net.serves _) (Ne.symm other) (x := false) acts
    exact ⟨quiet, acts.hooks j other⟩

/-- A merge that begins on a sane set. -/
theorem inMerge_start (produced : ∀ c, (net.block c).delta.Produced) {j : ℕ} {b : Cid} {p : DagM Unit} {w : World ℕ}
    (sane : Sane net.env w.store) (merges : MergesThen b (merge (net.block b).delta b) p) : net.InMerge j b p w := by
  refine ⟨_, merges, (merge_triple Tolerates.quiet_self ((produced b).orderly b) (net.serves b) sane (Or.inl rfl)).mono ?_⟩
  rintro _ u ⟨v, _, a', b', c', e', _, _, _, _, _, _, freed, _⟩ mine
  cases freed.mutex.mpr mine

include calm present executed in
theorem Calm.merging_step (produced : ∀ c, (net.block c).delta.Produced) (j : ℕ) (b : Cid)
    (noted : s.merging.lookup j = some b) :
    ∃ t, (stepped net c i s task o (next r)).threads[j]? = some t ∧ t.task.walks = true ∧ net.InMerge j b t.prog s.set := by
  have notes := Net.exec_merging executed
  by_cases mine : j = i
  · subst mine
    refine ⟨_, Crew.after_at present, ?_⟩
    rw [notes.1] at noted
    rcases calm.moved present executed with ⟨none, same, orderly⟩ | ⟨a, here, ⟨rfl, _⟩ | ⟨still, _, inMerge⟩⟩
    · rw [none] at noted
      cases o with
      | enterMerge x =>
        obtain rfl : x = b := Option.some.inj noted
        obtain ⟨merges, walks, _⟩ := orderly
        rw [same]
        exact ⟨walks, inMerge_start produced calm.kempt.sane merges⟩
      | _ => cases noted
    · cases noted
    · rw [here, still] at noted
      obtain rfl : a = b := Option.some.inj noted
      obtain ⟨t, found, walks, _⟩ := calm.merging j a here
      obtain rfl := Option.some.inj (present.symm.trans found)
      exact ⟨walks, inMerge⟩
  · rw [notes.2 j mine] at noted
    obtain ⟨t, found, walks, m, merges, triple⟩ := calm.merging j b noted
    refine ⟨t, Crew.after_other mine found, walks, m, merges, ?_⟩
    exact triple.stable Tolerates.quiet_self.steady_trans (calm.steady present executed produced mine noted)

include calm present executed in
theorem Calm.orderly_step (own : WalksOwn o r) (j : ℕ) (t : DagThread)
    (found : (stepped net c i s task o (next r)).threads[j]? = some t) :
    net.Orderly t.task (s.merging.lookup j) t.prog := by
  have notes := Net.exec_merging executed
  have answered := calm.answered executed
  rcases Crew.at_after present found with ⟨rfl, rfl⟩ | ⟨other, old⟩ | ⟨beyond, new⟩
  · rw [notes.1]
    exact (calm.orderly j _ present r answered).2
  · rw [notes.2 j other]
    exact calm.orderly j t old
  · obtain ⟨bound, _⟩ := List.getElem?_eq_some_iff.mp present
    rw [notes.2 j (by omega), calm.unengaged beyond]
    have fit : net.Fit o := (calm.level.threads _ (List.mem_of_getElem? present) r ⟨answered, own⟩).1
    obtain ⟨started, here, rfl⟩ := List.mem_map.mp new
    cases o with
    | go task' =>
      obtain rfl := List.mem_singleton.mp here
      exact net.body_orderly fit
    | _ => cases here

include calm executed in
theorem Calm.apart_step (care : TakesCare net c i task o r) (j k : ℕ) (a b : Cid) (different : j ≠ k)
    (first : s.merging.lookup j = some a) (second : s.merging.lookup k = some b) : net.Apart a b := by
  have notes := Net.exec_merging executed
  by_cases mine : j = i
  · subst mine
    rw [notes.2 k (Ne.symm different)] at second
    rcases entered executed first with old | begins
    · exact calm.apart j k a b different old second
    · exact care.apart a begins k b (Ne.symm different) second
  · rw [notes.2 j mine] at first
    by_cases theirs : k = i
    · subst theirs
      rcases entered executed second with old | begins
      · exact calm.apart j k a b different first old
      · exact (care.apart b begins j a different first).symm
    · rw [notes.2 k theirs] at second
      exact calm.apart j k a b different first second

include calm present executed in
theorem Calm.held_step (j : ℕ) (held : s.set.mutex = some j) : ∃ b, s.merging.lookup j = some b := by
  have notes := Net.exec_merging executed
  have others : ∀ b, j ≠ i → c.state.merging.lookup j = some b → ∃ b, s.merging.lookup j = some b :=
    fun b other noted => ⟨b, by rw [notes.2 j other, noted]⟩
  rcases calm.moved present executed with ⟨none, same, _⟩ | ⟨a, here, ⟨_, same, free⟩ | ⟨still, acts, _⟩⟩
  · rw [same] at held
    obtain ⟨b, noted⟩ := calm.held j held
    refine others b ?_ noted
    rintro rfl
    rw [none] at noted
    cases noted
  · rw [same] at held
    obtain ⟨b, noted⟩ := calm.held j held
    refine others b ?_ noted
    rintro rfl
    exact free held
  · by_cases mine : j = i
    · subst mine
      exact ⟨a, by rw [notes.1, here, still]⟩
    · have before : c.state.set.mutex = some j := by
        rcases acts.mutex with same | ⟨_, taken⟩ | ⟨_, released⟩
        · rw [← same, held]
        · rw [taken] at held
          exact absurd (Option.some.inj held).symm mine
        · rw [released] at held
          cases held
      obtain ⟨b, noted⟩ := calm.held j before
      exact others b mine noted

include calm present executed in
theorem Calm.kempt_step (produced : ∀ c, (net.block c).delta.Produced) : net.Kempt s := by
  refine calm.kempt.step (i := i) produced (fun b => calm.handled present executed) ?_
  rcases calm.moved present executed with ⟨_, same, _⟩ | ⟨a, here, ⟨_, same, _⟩ | ⟨_, acts, _⟩⟩
  · exact Or.inl same
  · exact Or.inl same
  · exact Or.inr ⟨a, Or.inr ⟨i, here⟩, acts⟩

end Act

theorem Calm.step (honest : net.Honest) (produced : ∀ c, (net.block c).delta.Produced) (calm : Calm net c)
    (step : Crew.Step net.system (TakesCare net) c d) : Calm net d := by
  obtain ⟨level, heads⟩ := calm.level.step honest (fun _ _ _ _ _ care => care.own) step
  cases step with
  | enter task outside => exact calm.enter honest outside
  | @act i choice task o next r s present executed care =>
    have executed : net.exec i choice o c.state = some (r, s) := executed
    refine ⟨level, calm.kempt_step present executed produced, calm.orderly_step present executed care.own,
      calm.merging_step present executed produced, calm.apart_step executed care, calm.held_step present executed,
      fun b handled => ?_⟩
    rcases calm.handled_of present executed handled with old | covers
    · exact (calm.covered b old).step present executed (calm.answered executed) heads care.covered
    · exact Or.inr ⟨_, Crew.moved_mem present, covers⟩

theorem calm_of_reach (honest : net.Honest) (produced : ∀ c, (net.block c).delta.Produced)
    (reach : Crew.Reach net.system (TakesCare net) Crew.fresh c) : Calm net c := by
  induction reach with
  | start => exact .fresh
  | next _ step ih => exact ih.step honest produced step

end Step

end OpenTela
