import OpenTela.Lib.Modal
import OpenTela.NodeTable.Updates

namespace OpenTela

open Prog TableM

/-- What the checks leave as it is. -/
theorem vetted_fields {node : Node} {peer p : Peer} (vetted : node.vetted peer = some p) :
    p = { peer with signedBuild := p.signedBuild, trustLevel := p.trustLevel } := by
  unfold Node.vetted at vetted
  split at vetted
  · cases vetted
  · cases vetted
    rfl

section Discipline

variable {node : Node} {can : (o : TableOp) → o.Res → Prop} {safe : TableOp → Prop} {key : Key}

/-- The hook does what it should if the record that passes its checks may be written. -/
theorem hookRecord_minds {peer : Peer} (checks : ∀ author, safe (.knownHead author))
    (writes : ∀ p, node.vetted peer = some p → safe (.record key p)) : Minds can safe (hookRecord node key peer) := by
  unfold hookRecord
  cases vetted : node.vetted peer with
  | none => trivial
  | some p =>
    have record : Minds can safe (record key p) := fun _ _ => ⟨writes p vetted, trivial⟩
    simp only
    split
    · rintro (_ | _) _
      · exact ⟨checks _, trivial⟩
      · exact ⟨checks _, record⟩
    · exact record

theorem putHook_minds {value : Bytes} (reads : safe (.get key)) (checks : ∀ author, safe (.knownHead author))
    (writes : key ≠ peerKey node.myID → ∀ row, can (.get key) row → ∀ p,
      node.vetted { node.unmarshal value with connected := row.elim false Peer.connected }.published = some p →
      safe (.record key p)) : Minds can safe (putHook node key value) := by
  unfold putHook
  split
  · trivial
  · rename_i other
    exact fun row found => ⟨reads, hookRecord_minds checks (writes other row found)⟩

theorem Minds.now {f : ℤ → TableM Unit} (clocks : safe .now) (rest : ∀ t, Minds can safe (f t)) :
    Minds can safe (TableM.now >>= f) := fun t _ => ⟨clocks, rest t⟩

/-- An updater writes the row it has read, or a minimal one, with other liveness fields. -/
theorem Job.program_minds {job : Job} (isLocal : job.fromStore = false) (reads : ∀ key, safe (.get key)) (clocks : safe .now)
    (checks : ∀ author, safe (.knownHead author))
    (writes : ∀ id row connected lastSeen p, can (.get (peerKey id)) row →
      node.vetted { row.getD { id := id } with connected := connected, lastSeen := lastSeen }.published = some p →
      safe (.record (peerKey id) p)) : Minds can safe (job.program node) := by
  have write : ∀ (id : String) (row : Option Peer) (connected : Bool) (lastSeen : ℤ), can (.get (peerKey id)) row → Minds can safe
      (hookRecord node (peerKey id) { row.getD { id := id } with connected := connected, lastSeen := lastSeen }.published) :=
    fun id row connected lastSeen found => hookRecord_minds checks (fun p => writes id row connected lastSeen p found)
  cases job with
  | deliver key value => cases isLocal
  | ping id reachable =>
    simp only [Job.program, pingTick]
    split
    · trivial
    · intro row found
      refine ⟨reads _, ?_⟩
      cases row with
      | none => trivial
      | some p =>
        cases reachable with
        | true => exact Minds.now clocks (fun t => write id (some p) true t found)
        | false => exact write id (some p) false p.lastSeen found
  | connect id =>
    simp only [Job.program, connectedF]
    split
    · trivial
    · exact fun row found => ⟨reads _, Minds.now clocks (fun t => write id row true t found)⟩
  | disconnect id =>
    simp only [Job.program, disconnectedF]
    split
    · trivial
    · intro row found
      refine ⟨reads _, ?_⟩
      cases row with
      | none => trivial
      | some p => exact write id (some p) false p.lastSeen found
  | gossip author isConnected =>
    intro row found
    refine ⟨reads _, ?_⟩
    cases row with
    | none =>
      cases isConnected with
      | true => exact Minds.now clocks (fun t => write author none true t found)
      | false => trivial
    | some p => exact Minds.now clocks (fun t => write author (some p) true t found)

end Discipline

end OpenTela
