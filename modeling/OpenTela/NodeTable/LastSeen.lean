import OpenTela.NodeTable.Hooks

namespace OpenTela

/-- A record that does not set the row's `LastSeen` back: one that says LEFT is taken with its own
`LastSeen`, or the clock's if it has none, and any other is stamped only if neither has one. -/
def KeepsPace (now : ℤ) (row p : Peer) : Prop :=
  if p.status = LEFT then row.lastSeen ≤ (if p.lastSeen = 0 then now else p.lastSeen)
  else max row.lastSeen p.lastSeen = 0 → row.lastSeen ≤ now

/-- The call is rejected, writes the first row of its key, or keeps pace with the one there. -/
def Timely (node : Node) (clock : ℕ → ℤ) (w : TableWorld Unit) (key : Key) (value : Bytes) : Prop :=
  ∀ row p, w.table.lookup key = some row → node.accepts w.table (node.unmarshal value) = some p →
    KeepsPace (clock w.ticks) row p

/-- Sequences of calls of `UpdateNodeTableHook` from a given table, with any keys and bytes. -/
inductive HookRun (node : Node) (clock : ℕ → ℤ) (allowed : TableWorld Unit → Key → Bytes → Prop) (w : TableWorld Unit) :
    TableWorld Unit → Prop
  | start : HookRun node clock allowed w w
  | next {t u : TableWorld Unit} {key : Key} {value : Bytes} : HookRun node clock allowed w t →
      (updateNodeTableHook node key value).run (execTable clock ()) t = some (.ok (), u) → allowed t key value →
      HookRun node clock allowed w u

/-- The row of the key is still there, and its `LastSeen` has not gone back. -/
def Advanced (key : Key) (row : Peer) (table : NodeTable) : Prop :=
  ∃ new, table.lookup key = some new ∧ row.lastSeen ≤ new.lastSeen

section Steps

variable {node : Node} {clock : ℕ → ℤ} {key : Key} {row : Peer}

theorem Advanced.here {table : NodeTable} (found : table.lookup key = some row) : Advanced key row table :=
  ⟨row, found, le_rfl⟩

theorem stored_lastSeen (row p : Peer) (now : ℤ) :
    row.lastSeen ≤ (stored (some row) p now).lastSeen ↔ KeepsPace now row p := by
  unfold stored KeepsPace
  by_cases left : p.status = LEFT
  · simp only [if_pos left]
  · simp only [if_neg left]
    -- what is stored is the later of the two, unless that is zero
    have later : (if p.lastSeen < row.lastSeen then row.lastSeen else p.lastSeen) = max row.lastSeen p.lastSeen := by
      split <;> omega
    rw [later]
    by_cases unknown : max row.lastSeen p.lastSeen = 0
    · simp [unknown]
    · simp [unknown]

/-- One call, on its own key: the row's `LastSeen` stays or advances exactly when the call keeps pace. -/
theorem hook_advanced {w u : TableWorld Unit} {value : Bytes} (found : w.table.lookup key = some row)
    (ran : (updateNodeTableHook node key value).run (execTable clock ()) w = some (.ok (), u)) :
    Advanced key row u.table ↔ Timely node clock w key value := by
  cases accepted : node.accepts w.table (node.unmarshal value) with
  | none =>
    have same : u.table.lookup key = w.table.lookup key := by
      rcases hook_lookup ran key with same | ⟨_, p, written, _⟩
      · exact same
      · rw [accepted] at written
        cases written
    refine iff_of_true (Advanced.here (same.trans found)) (fun _ p _ written => ?_)
    rw [accepted] at written
    cases written
  | some p =>
    have written := hook_accepted ran accepted
    rw [found] at written
    constructor
    · rintro ⟨new, here, later⟩ row' p' found' accepted'
      cases found.symm.trans found'
      cases accepted.symm.trans accepted'
      cases written.symm.trans here
      exact (stored_lastSeen _ _ _).mp later
    · intro timely
      exact ⟨_, written, (stored_lastSeen _ _ _).mpr (timely row p found accepted)⟩

theorem HookRun.advanced {w u : TableWorld Unit}
    (run : HookRun node clock (fun t k value => k = key → Timely node clock t key value) w u)
    (found : w.table.lookup key = some row) : Advanced key row u.table := by
  induction run with
  | start => exact Advanced.here found
  | @next t u k value _ ran timely ih =>
    obtain ⟨old, there, before⟩ := ih
    by_cases same : k = key
    · subst same
      obtain ⟨new, here, after⟩ := (hook_advanced there ran).mpr (timely rfl)
      exact ⟨new, here, before.trans after⟩
    · rcases hook_lookup ran key with kept | ⟨rfl, _⟩
      · exact ⟨old, kept.trans there, before⟩
      · exact absurd rfl same

/-- Whatever else works on the table: a step that does not remove the row keeps its `LastSeen` from
going back, unless it is the locked section of a hook that writes an older LEFT record. -/
theorem execTable_lastSeen {τ : Type} {i : τ} {o : TableOp} {r : o.Res} {w u : TableWorld τ}
    (step : execTable clock i o w = some (r, u)) (found : w.table.lookup key = some row) (stays : o ≠ .remove key)
    (timely : ∀ p, o = .record key p → KeepsPace (clock w.ticks) row p) : Advanced key row u.table := by
  cases o with
  | get _ | knownHead _ | now =>
    obtain ⟨_, rfl⟩ := Prod.mk.inj (Option.some.inj step)
    exact Advanced.here found
  | remove k =>
    obtain ⟨_, rfl⟩ := Prod.mk.inj (Option.some.inj step)
    have other : key ≠ k := fun same => stays (by rw [same])
    exact Advanced.here ((AList.lookup_erase_ne other).trans found)
  | record k p =>
    obtain ⟨_, rfl⟩ := Prod.mk.inj (Option.some.inj step)
    by_cases same : key = k
    · subst same
      refine ⟨_, AList.lookup_insert _, ?_⟩
      rw [found]
      exact (stored_lastSeen _ _ _).mpr (timely p rfl)
    · exact Advanced.here ((AList.lookup_insert_ne same).trans found)

end Steps

/-- Over any sequence of calls whose LEFT records are not older than the row they replace,
`LastSeen` never goes back; the first call that is not timely takes it back. -/
theorem lastSeen_monotone (node : Node) (clock : ℕ → ℤ) (key : Key) :
    (∀ w u row, HookRun node clock (fun t k value => k = key → Timely node clock t key value) w u →
      w.table.lookup key = some row → Advanced key row u.table) ∧
    ∀ w u row value, w.table.lookup key = some row →
      (updateNodeTableHook node key value).run (execTable clock ()) w = some (.ok (), u) →
      (Advanced key row u.table ↔ Timely node clock w key value) :=
  ⟨fun _ _ _ run found => run.advanced found, fun _ _ _ _ found ran => hook_advanced found ran⟩

namespace Overtaken

/-- A worker that was seen, and a LEFT record of it that was written before that. -/
def seen : Peer := { id := "worker", lastSeen := 1700000100, connected := true }

def leave : Peer := { id := "worker", status := LEFT, lastSeen := 1700000000 }

/-- A later record of the worker. -/
def later : Peer := { id := "worker", lastSeen := 1700000200, connected := true }

def node : Node where
  myID := "me"
  crypto := { base58 := fun _ => none, base64 := fun _ => none, hex := fun _ => none, identityPayload := fun _ _ _ => [],
              verify := fun _ _ _ => false }
  unmarshal := fun value => if value = [0] then seen else if value = [1] then leave else later

def clock : ℕ → ℤ := fun _ => 1700000200

def first : TableWorld Unit := TableWorld.empty.recorded clock () ["worker"] seen

theorem first_run : (updateNodeTableHook node ["worker"] [0]).run (execTable clock ()) TableWorld.empty = some (.ok (), first) := by
  have admitted : node.vetted seen = some seen := by decide
  have here : seen.status ≠ LEFT := by decide
  simp only [updateNodeTableHook, show node.unmarshal [0] = seen from rfl, hookRecord, admitted, here, false_and, if_false]
  rfl

theorem leave_run : (updateNodeTableHook node ["worker"] [1]).run (execTable clock ()) first =
    some (.ok (), first.recorded clock () ["worker"] leave) := by
  have admitted : node.vetted leave = some leave := by decide
  have own : ¬ leave.evictedBy ≠ "" := by decide
  simp only [updateNodeTableHook, show node.unmarshal [1] = leave from rfl, hookRecord, admitted, own, and_false, if_false]
  rfl

theorem later_run : (updateNodeTableHook node ["worker"] [2]).run (execTable clock ()) first =
    some (.ok (), first.recorded clock () ["worker"] later) := by
  have admitted : node.vetted later = some later := by decide
  have here : later.status ≠ LEFT := by decide
  simp only [updateNodeTableHook, show node.unmarshal [2] = later from rfl, hookRecord, admitted, here, false_and, if_false]
  rfl

end Overtaken

open Overtaken in
/-- A newer record advances the row. -/
theorem lastSeen_monotone_later : Advanced ["worker"] seen (first.recorded clock () ["worker"] later).table := by
  have timely : Timely node clock first ["worker"] [2] := by
    intro row p found accepted
    have row_eq : row = seen := Option.some.inj (found.symm.trans (by decide))
    have p_eq : p = later := Option.some.inj (accepted.symm.trans (by decide))
    subst row_eq p_eq
    unfold KeepsPace
    decide
  exact (lastSeen_monotone node clock ["worker"]).1 first _ seen (.next .start later_run (fun _ => timely)) (by decide)

open Overtaken in
/-- The worker's leave, delivered after it was seen again, takes its `LastSeen` back. -/
theorem lastSeen_goes_backwards :
    ¬ ∀ (node : Node) (clock : ℕ → ℤ) (key : Key) w u row, HookRun node clock (fun _ _ _ => True) TableWorld.empty w →
      w.table.lookup key = some row → HookRun node clock (fun _ _ _ => True) w u → Advanced key row u.table := by
  intro monotone
  obtain ⟨new, here, after⟩ := monotone node clock ["worker"] first (first.recorded clock () ["worker"] leave) seen
    (.next .start first_run trivial) (by decide) (.next .start leave_run trivial)
  have new_eq : new = leave := Option.some.inj (here.symm.trans (by decide))
  subst new_eq
  exact absurd after (by decide)

end OpenTela
