import OpenTela.Lib.Prog
import OpenTela.NodeTable.Peer

namespace OpenTela

/-- The in-memory node table, by the namespaces of its keys. -/
abbrev NodeTable := Store Key Peer

/-- The steps on the table. Each takes `tableUpdateSem` once, so each is indivisible. -/
inductive TableOp where
  | get (key : Key)
  | knownHead (id : String)
  | record (key : Key) (peer : Peer)
  | remove (key : Key)
  | now

def TableOp.Res : TableOp → Type
  | .get _ => Option Peer
  | .knownHead _ => Bool
  | .now => ℤ
  | .record .. | .remove _ => Unit

abbrev TableM := Prog TableOp TableOp.Res String

namespace TableM

def get (key : Key) : TableM (Option Peer) := Prog.perform (TableOp.get key)
def knownHead (id : String) : TableM Bool := Prog.perform (TableOp.knownHead id)
def record (key : Key) (peer : Peer) : TableM Unit := Prog.perform (TableOp.record key peer)
def remove (key : Key) : TableM Unit := Prog.perform (TableOp.remove key)
def now : TableM ℤ := Prog.perform TableOp.now

end TableM

/-- `isKnownHeadPeer` on the rows of the moment. -/
def isKnownHeadPeer (table : NodeTable) (id : String) : Bool :=
  match table.lookup (peerKey id) with
  | none => false
  | some p => decide ("head" ∈ p.role)

/-- The row the hook writes: a LEFT record is never connected, any other keeps the newer
`LastSeen`, and a first sighting is stamped. -/
def stored (existing : Option Peer) (peer : Peer) (now : ℤ) : Peer :=
  if peer.status = LEFT then
    { peer with connected := false, lastSeen := if peer.lastSeen = 0 then now else peer.lastSeen }
  else
    let lastSeen := match existing with
      | none => peer.lastSeen
      | some old => if peer.lastSeen < old.lastSeen then old.lastSeen else peer.lastSeen
    { peer with lastSeen := if lastSeen = 0 then now else lastSeen }

/-- What has happened to the table: reads of a row by `GetPeerFromTable`, and rows written. -/
inductive TableEvent (τ : Type) where
  | read (i : τ) (key : Key)
  | wrote (i : τ) (key : Key) (peer : Peer)

structure TableWorld (τ : Type) where
  table : NodeTable
  ticks : ℕ
  history : List (TableEvent τ)

def TableWorld.empty {τ : Type} : TableWorld τ := { table := ∅, ticks := 0, history := [] }

/-- The locked section of the hook: the row is compared with the one there, and written. -/
def TableWorld.recorded {τ : Type} (clock : ℕ → ℤ) (i : τ) (key : Key) (peer : Peer) (w : TableWorld τ) : TableWorld τ :=
  let row := stored (w.table.lookup key) peer (clock w.ticks)
  { table := w.table.insert key row, ticks := w.ticks + 1, history := w.history ++ [.wrote i key row] }

/-- One step of thread `i`. -/
def execTable {τ : Type} (clock : ℕ → ℤ) (i : τ) :
    (o : TableOp) → TableWorld τ → Option (o.Res × TableWorld τ)
  | .get key, w => some (w.table.lookup key, { w with history := w.history ++ [.read i key] })
  | .knownHead id, w => some (isKnownHeadPeer w.table id, w)
  | .record key peer, w => some ((), w.recorded clock i key peer)
  | .remove key, w => some ((), { w with table := w.table.erase key })
  | .now, w => some (clock w.ticks, { w with ticks := w.ticks + 1 })

open TableM

/-- `UpdateNodeTableHook` on a record that has been read. An eviction by another node is
only acted on when its author is known as a head. -/
def hookRecord (node : Node) (key : Key) (peer : Peer) : TableM Unit :=
  match node.vetted peer with
  | none => return ()
  | some peer =>
    if peer.status = LEFT ∧ peer.evictedBy ≠ "" then do
      if ← knownHead peer.evictedBy then record key peer else return ()
    else record key peer

def updateNodeTableHook (node : Node) (key : Key) (value : Bytes) : TableM Unit :=
  hookRecord node key (node.unmarshal value)

def deleteNodeTableHook (key : Key) : TableM Unit := remove key

/-- The `PutHook` of `GetCRDTStore`. The record is marshalled again with the `Connected` of the row. -/
def putHook (node : Node) (key : Key) (value : Bytes) : TableM Unit :=
  if key = peerKey node.myID then return ()
  else do
    let row ← get key
    hookRecord node key { node.unmarshal value with connected := row.elim false Peer.connected }.published

/-- The `DeleteHook` of `GetCRDTStore`. -/
def deleteHook (key : Key) : TableM Unit := deleteNodeTableHook key

/-- The record the hook accepts, if it does. -/
def Node.accepts (node : Node) (table : NodeTable) (peer : Peer) : Option Peer :=
  match node.vetted peer with
  | none => none
  | some p => if p.status = LEFT ∧ p.evictedBy ≠ "" ∧ isKnownHeadPeer table p.evictedBy = false then none else some p

/-- The hook on its own writes the accepted record, and nothing else. -/
theorem hookRecord_run {τ : Type} (node : Node) (clock : ℕ → ℤ) (i : τ) (key : Key) (peer : Peer) (w : TableWorld τ) :
    ∃ u, (hookRecord node key peer).run (execTable clock i) w = some (.ok (), u) ∧
      u.table = (node.accepts w.table peer).elim w.table
        (fun p => w.table.insert key (stored (w.table.lookup key) p (clock w.ticks))) := by
  cases admitted : node.vetted peer with
  | none =>
    refine ⟨w, ?_, by simp [Node.accepts, admitted]⟩
    simp only [hookRecord, admitted]
    rfl
  | some p =>
    by_cases evicted : p.status = LEFT ∧ p.evictedBy ≠ ""
    · have program : hookRecord node key peer =
          (knownHead p.evictedBy).bind (fun known => if known then record key p else pure ()) := by
        simp only [hookRecord, admitted, if_pos evicted]
        rfl
      have step : ((knownHead p.evictedBy).bind (fun known => if known then record key p else pure ())).run
          (execTable clock i) w =
          (if isKnownHeadPeer w.table p.evictedBy then record key p else pure ()).run (execTable clock i) w := rfl
      rw [program, step]
      cases known : isKnownHeadPeer w.table p.evictedBy with
      | true => exact ⟨w.recorded clock i key p, rfl, by simp [Node.accepts, admitted, known, TableWorld.recorded]⟩
      | false => exact ⟨w, rfl, by simp [Node.accepts, admitted, evicted, known]⟩
    · have program : hookRecord node key peer = record key p := by
        simp only [hookRecord, admitted, if_neg evicted]
      have unchecked : ¬ (p.status = LEFT ∧ p.evictedBy ≠ "" ∧ isKnownHeadPeer w.table p.evictedBy = false) :=
        fun ignored => evicted ⟨ignored.1, ignored.2.1⟩
      rw [program]
      exact ⟨w.recorded clock i key p, rfl, by simp only [Node.accepts, admitted, if_neg unchecked]; rfl⟩

end OpenTela
