import OpenTela.NodeTable.Updates

namespace OpenTela

open Prog

/-- `GetAllPeers`. -/
def getAllPeers (table : NodeTable) : List (Key × Peer) := table.select (fun _ => true)

def getConnectedPeers (table : NodeTable) : List (Key × Peer) := (getAllPeers table).filter (fun r => r.2.connected)

/-- The loop of `GetAllProviders` over the rows. -/
def getAllProviders.loop (serviceName : String) : List (Key × Peer) → List Peer → List Peer
  | [], providers => providers
  | (_, peer) :: rest, providers =>
    if !peer.connected then loop serviceName rest providers
    else if peer.service.any (fun service => service.name == serviceName) then
      loop serviceName rest (providers ++ [peer])
    else loop serviceName rest providers

def getAllProviders (table : NodeTable) (serviceName : String) : List Peer × Option String :=
  let providers := getAllProviders.loop serviceName (getAllPeers table) []
  if providers.isEmpty then (providers, some "no providers found") else (providers, none)

/-- A peer that has left is not marked connected. -/
def Departed (table : NodeTable) : Prop :=
  ∀ key row, table.lookup key = some row → row.status = LEFT → row.connected = false

section Reads

variable {table : NodeTable} {key : Key} {row : Peer}

theorem mem_getAllPeers : (key, row) ∈ getAllPeers table ↔ table.lookup key = some row := by
  simp [getAllPeers, Store.mem_select]

theorem mem_getConnectedPeers :
    (key, row) ∈ getConnectedPeers table ↔ table.lookup key = some row ∧ row.connected = true := by
  simp [getConnectedPeers, mem_getAllPeers]

theorem mem_providers_loop {serviceName : String} {rows : List (Key × Peer)} {providers : List Peer}
    (member : row ∈ getAllProviders.loop serviceName rows providers) :
    row ∈ providers ∨ ∃ k, (k, row) ∈ rows ∧ row.connected = true := by
  induction rows generalizing providers with
  | nil => exact Or.inl member
  | cons r rest ih =>
    obtain ⟨k, p⟩ := r
    have later : (∃ k, (k, row) ∈ rest ∧ row.connected = true) → ∃ k', (k', row) ∈ (k, p) :: rest ∧ row.connected = true := by
      rintro ⟨k', here, connected⟩
      exact ⟨k', List.mem_cons_of_mem _ here, connected⟩
    unfold getAllProviders.loop at member
    split at member
    · exact (ih member).imp_right later
    · rename_i connected
      split at member
      · rcases ih member with here | found
        · rcases List.mem_append.mp here with old | new
          · exact Or.inl old
          · obtain rfl := List.mem_singleton.mp new
            exact Or.inr ⟨k, List.mem_cons_self .., by simpa using connected⟩
        · exact Or.inr (later found)
      · exact (ih member).imp_right later

/-- Providers are rows of the table that are marked connected. -/
theorem mem_getAllProviders {serviceName : String} (member : row ∈ (getAllProviders table serviceName).1) :
    ∃ k, table.lookup k = some row ∧ row.connected = true := by
  have found : row ∈ getAllProviders.loop serviceName (getAllPeers table) [] := by
    simp only [getAllProviders] at member
    split at member <;> exact member
  rcases mem_providers_loop found with none | ⟨k, here, connected⟩
  · cases none
  · exact ⟨k, mem_getAllPeers.mp here, connected⟩

end Reads

section Writes

variable {τ : Type} {clock : ℕ → ℤ} {i : τ} {o : TableOp} {r : o.Res} {w u : TableWorld τ}

/-- A row found after a step was there before it, or is what the locked section of the hook wrote. -/
theorem execTable_lookup (step : execTable clock i o w = some (r, u)) {key : Key} {row : Peer}
    (found : u.table.lookup key = some row) :
    w.table.lookup key = some row ∨
      ∃ peer, o = .record key peer ∧ row = stored (w.table.lookup key) peer (clock w.ticks) := by
  cases o with
  | get _ | knownHead _ | now =>
    obtain ⟨_, rfl⟩ := Prod.mk.inj (Option.some.inj step)
    exact Or.inl found
  | remove k =>
    obtain ⟨_, rfl⟩ := Prod.mk.inj (Option.some.inj step)
    by_cases same : key = k
    · subst same
      simp at found
    · exact Or.inl (by simpa [AList.lookup_erase_ne same] using found)
  | record k peer =>
    obtain ⟨_, rfl⟩ := Prod.mk.inj (Option.some.inj step)
    simp only [TableWorld.recorded] at found
    by_cases same : key = k
    · subst same
      rw [AList.lookup_insert] at found
      exact Or.inr ⟨peer, rfl, (Option.some.inj found).symm⟩
    · exact Or.inl (by rwa [AList.lookup_insert_ne same] at found)

theorem stored_departed (existing : Option Peer) (peer : Peer) (now : ℤ) (left : (stored existing peer now).status = LEFT) :
    (stored existing peer now).connected = false := by
  unfold stored at left ⊢
  split at left
  · rename_i gone
    rw [if_pos gone]
  · rename_i stays
    exact absurd left stays

theorem Departed.step (departed : Departed w.table) (step : execTable clock i o w = some (r, u)) : Departed u.table := by
  intro key row found left
  rcases execTable_lookup step found with before | ⟨peer, _, rfl⟩
  · exact departed key row before left
  · exact stored_departed _ _ _ left

end Writes

/-- Whatever programs work on the table, and however they interleave: a peer that has left is
not connected, and routing is never given it. -/
theorem departed_never_routed {τ : Type} [DecidableEq τ] (clock : ℕ → ℤ) (threads : τ → TableM Unit)
    (c : Pool TableOp TableOp.Res String Unit (TableWorld τ) τ)
    (reach : Pool.Reach (execTable clock) ⟨TableWorld.empty, threads⟩ c) :
    (∀ key row, c.state.table.lookup key = some row → row.status = LEFT → row.connected = false) ∧
    (∀ key row, (key, row) ∈ getConnectedPeers c.state.table → row.status ≠ LEFT) ∧
    ∀ serviceName row, row ∈ (getAllProviders c.state.table serviceName).1 → row.status ≠ LEFT := by
  have departed : Departed c.state.table := by
    induction reach with
    | refl =>
      intro key row found
      rw [TableWorld.empty, AList.lookup_empty] at found
      cases found
    | tail _ step ih =>
      obtain ⟨i, _, executed⟩ := step
      exact ih.step executed
  refine ⟨departed, fun key row member left => ?_, fun serviceName row member left => ?_⟩
  · obtain ⟨found, connected⟩ := mem_getConnectedPeers.mp member
    rw [departed key row found left] at connected
    cases connected
  · obtain ⟨key, found, connected⟩ := mem_getAllProviders member
    rw [departed key row found left] at connected
    cases connected

namespace Reconnected

def node : Node where
  myID := "me"
  crypto := { base58 := fun _ => none, base64 := fun _ => none, hex := fun _ => none, identityPayload := fun _ _ _ => [],
              verify := fun _ _ _ => false }
  unmarshal := fun _ => { id := "worker", status := LEFT, service := [{ name := "llm" }], lastSeen := 1700000000 }

/-- A worker announces its leave, and a connection to it is opened. -/
def threads : Bool → TableM Unit
  | false => updateNodeTableHook node ["worker"] []
  | true => connectedF node "worker"

end Reconnected

open Reconnected in
/-- The callback marks the row connected, and the hook clears the mark. -/
theorem departed_never_routed_reconnected :
    ∃ c, Pool.Reach (execTable (fun _ => 1700000010)) ⟨TableWorld.empty, threads⟩ c ∧ (∀ i, c.thread i = .ret ()) ∧
      ∃ row, c.state.table.lookup ["worker"] = some row ∧ row.lastSeen = 1700000010 ∧ row.connected = false ∧
        (["worker"], row) ∉ getConnectedPeers c.state.table ∧ row ∉ (getAllProviders c.state.table "llm").1 := by
  obtain ⟨c, played, returned, row, found, left, seen⟩ : ∃ c, (⟨TableWorld.empty, threads⟩ :
      Pool TableOp TableOp.Res String Unit (TableWorld Bool) Bool).play (execTable (fun _ => 1700000010))
        [false, true, true, true] = some c ∧ (∀ i, c.thread i = .ret ()) ∧
      ∃ row, c.state.table.lookup ["worker"] = some row ∧ row.status = LEFT ∧ row.lastSeen = 1700000010 :=
    ⟨_, rfl, by intro i; cases i <;> rfl, _, rfl, rfl, rfl⟩
  have reach := Pool.Reach.of_play _ played
  obtain ⟨disconnected, peers, providers⟩ := departed_never_routed _ _ _ reach
  exact ⟨c, reach, returned, row, found, seen, disconnected _ _ found left, fun member => peers _ _ member left,
    fun member => providers _ _ member left⟩

end OpenTela
