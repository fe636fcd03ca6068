import OpenTela.NodeTable.Table

namespace OpenTela

/-- Node tables reached by calls of `UpdateNodeTableHook` with any keys and bytes, every
accepted record of which satisfies `P`. -/
inductive HookReach (node : Node) (clock : ℕ → ℤ) (P : Key → Peer → Prop) : TableWorld Unit → Prop
  | start : HookReach node clock P TableWorld.empty
  | next {w u : TableWorld Unit} {key : Key} {value : Bytes} : HookReach node clock P w →
      (updateNodeTableHook node key value).run (execTable clock ()) w = some (.ok (), u) →
      (node.accepts w.table (node.unmarshal value) ≠ none → P key (node.unmarshal value)) →
      HookReach node clock P u

section Rows

variable {node : Node} {clock : ℕ → ℤ} {w u : TableWorld Unit} {key : Key} {value : Bytes}

/-- What a call leaves in the table: the rows that were there, and the accepted record. -/
theorem hook_lookup (ran : (updateNodeTableHook node key value).run (execTable clock ()) w = some (.ok (), u)) (k : Key) :
    u.table.lookup k = w.table.lookup k ∨
    k = key ∧ ∃ p, node.accepts w.table (node.unmarshal value) = some p ∧
      u.table.lookup k = some (stored (w.table.lookup key) p (clock w.ticks)) := by
  obtain ⟨u', run, table⟩ := hookRecord_run node clock () key (node.unmarshal value) w
  obtain ⟨_, rfl⟩ := Prod.mk.inj (Option.some.inj (run.symm.trans ran))
  rw [table]
  cases accepted : node.accepts w.table (node.unmarshal value) with
  | none => exact Or.inl rfl
  | some p =>
    by_cases same : k = key
    · subst same
      exact Or.inr ⟨rfl, p, rfl, by simp⟩
    · refine Or.inl ?_
      simp only [Option.elim_some]
      exact AList.lookup_insert_ne same

theorem hook_accepted {p : Peer} (ran : (updateNodeTableHook node key value).run (execTable clock ()) w = some (.ok (), u))
    (accepted : node.accepts w.table (node.unmarshal value) = some p) :
    u.table.lookup key = some (stored (w.table.lookup key) p (clock w.ticks)) := by
  obtain ⟨u', run, table⟩ := hookRecord_run node clock () key (node.unmarshal value) w
  obtain ⟨_, rfl⟩ := Prod.mk.inj (Option.some.inj (run.symm.trans ran))
  rw [table, accepted]
  simp

/-- The fields the hook computes, and those it takes as they come. -/
theorem accepts_fields {table : NodeTable} {peer p : Peer} (accepted : node.accepts table peer = some p)
    (existing : Option Peer) (now : ℤ) :
    (stored existing p now).owner = peer.owner ∧
    (stored existing p now).identityAttestation = peer.identityAttestation ∧
    (stored existing p now).trustLevel = node.trust peer.identityAttestation ∧
    (stored existing p now).buildAttestation = peer.buildAttestation ∧
    (stored existing p now).signedBuild = node.signed peer := by
  have admitted : node.vetted peer = some p := by
    unfold Node.accepts at accepted
    cases found : node.vetted peer with
    | none => simp [found] at accepted
    | some q =>
      simp only [found] at accepted
      split at accepted
      · cases accepted
      · exact accepted
  unfold Node.vetted at admitted
  split at admitted
  · cases admitted
  · cases admitted
    unfold stored
    split <;> exact ⟨rfl, rfl, rfl, rfl, rfl⟩

/-- An invariant `Q` of the rows that accepted records bring exactly when they satisfy `P`: it
holds of every table reached by such records, and the first other one breaks it. -/
theorem hook_rows {P Q : Key → Peer → Prop}
    (brings : ∀ (table : NodeTable) key peer p existing now, node.accepts table peer = some p →
      (Q key (stored existing p now) ↔ P key peer)) :
    (∀ w, HookReach node clock P w → ∀ k row, w.table.lookup k = some row → Q k row) ∧
    ∀ w u key value, (∀ k row, w.table.lookup k = some row → Q k row) →
      (updateNodeTableHook node key value).run (execTable clock ()) w = some (.ok (), u) →
      ((∀ k row, u.table.lookup k = some row → Q k row) ↔
        (node.accepts w.table (node.unmarshal value) ≠ none → P key (node.unmarshal value))) := by
  have step : ∀ w u key value, (∀ k row, w.table.lookup k = some row → Q k row) →
      (updateNodeTableHook node key value).run (execTable clock ()) w = some (.ok (), u) →
      (node.accepts w.table (node.unmarshal value) ≠ none → P key (node.unmarshal value)) →
      ∀ k row, u.table.lookup k = some row → Q k row := by
    intro w u key value before ran allowed k row found
    rcases hook_lookup ran k with same | ⟨rfl, p, accepted, new⟩
    · exact before k row (same ▸ found)
    · rw [new] at found
      cases found
      exact (brings _ _ _ _ _ _ accepted).mpr (allowed (by rw [accepted]; simp))
  refine ⟨fun w reach => ?_, fun w u key value before ran => ⟨fun after accepted => ?_, step w u key value before ran⟩⟩
  · induction reach with
    | start =>
      intro k row found
      rw [TableWorld.empty, AList.lookup_empty] at found
      cases found
    | next _ ran allowed ih => exact step _ _ _ _ ih ran allowed
  · obtain ⟨p, accepted⟩ := Option.ne_none_iff_exists'.mp accepted
    exact (brings _ _ _ _ _ _ accepted).mp (after key _ (hook_accepted ran accepted))

end Rows

end OpenTela
