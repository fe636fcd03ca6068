import OpenTela.Lib.Crew
import OpenTela.Crdt.Set
import Mathlib.Data.Finset.Insert
import Mathlib.Data.Finset.Erase

namespace OpenTela

/-- A block is named by the datastore key of its multihash; all are CIDv1 of the same codec. -/
abbrev Cid := Id

/-- A node of the DAG: a delta on top of the heads its author had. -/
structure Block where
  delta : Delta
  links : List Cid
  deriving DecidableEq

/-- What a replica finds around it: the block each cid names, the order of `heads.List`,
the threshold of the auto-ban, and what the set needs. Blocks that have been merged stay
with the local DAG service, so the set finds the delta of every one of them. -/
structure Net where
  block : Cid → Block
  headOrder : List Cid → List Cid
  headOrder_perm : ∀ heads, (headOrder heads).Perm heads
  maxFetchFailures : ℕ
  env : Env
  serves : ∀ c, env.dag c = some (block c).delta

def Net.priority (net : Net) (c : Cid) : ℕ := (net.block c).delta.priority

def Net.links (net : Net) (c : Cid) : List Cid := (net.block c).links

/-- These blocks, with everything listed in the order in which it is stored. -/
def Net.plain (block : Cid → Block) : Net where
  block := block
  headOrder := id
  headOrder_perm := fun _ => .refl _
  maxFetchFailures := 50
  env := .plain (fun c => some (block c).delta)
  serves := fun _ => rfl

/-- The work a replica has under way: a received broadcast, one of its heads, a `dagJob`,
the timer of `repair`, a call of `Repair`, the loop of `repairDAG` before its next round,
and the calls of `Put` and `Delete`. -/
inductive Task where
  | receive (heads : List Cid)
  | head (c : Cid)
  | job (session : ℕ) (root : Cid) (rootPrio : ℕ) (node : Cid)
  | repairTimer
  | repairCall
  | sweep (nodes : List (Cid × Cid)) (queued : List Cid)
  | put (key : Key) (value : Bytes)
  | delete (key : Key)

/-- What the code does to the state it shares: the set's own operations, the head set, the
processed and queued blocks, the dirty bit, the auto-ban, block fetches, sessions, the
broadcaster, and `go`. `enterMerge` only notes which block a thread is merging. -/
inductive DagOp where
  | set (o : SetOp)
  | enterMerge (c : Cid)
  | isProcessed (c : Cid)
  | markProcessed (c : Cid)
  | visit (c : Cid)
  | dequeue (c : Cid)
  | isHead (c : Cid)
  | headCount
  | listHeads
  | addHead (c : Cid) (height : ℕ)
  | replaceHead (h c : Cid) (height : ℕ)
  | isDirty
  | markDirty
  | markClean
  | isBanned (c : Cid)
  | recordFailure (c : Cid)
  | clearFailure (c : Cid)
  | fetch (c : Cid)
  | getDeltas (children : List Cid)
  | putBlock (b : Block)
  | branch (head c : Cid)
  | sessionAdd (session : ℕ)
  | sessionDone (session : ℕ)
  | sessionWait (session : ℕ)
  | broadcast (c : Cid)
  | go (task : Task)

def DagOp.Res : DagOp → Type
  | .set o => o.Res
  | .isProcessed _ | .visit _ | .isDirty | .isBanned _ | .recordFailure _ | .fetch _ | .broadcast _ => Bool
  | .isHead _ => Option ℕ
  | .headCount | .branch _ _ => ℕ
  | .listHeads => List Cid × ℕ
  | .getDeltas _ => List Cid
  | .putBlock _ => Option Cid
  | _ => Unit

/-- A datastore: the set and its world, the cached heads with their heights, and the
bookkeeping of block processing. `sessions` counts the pending jobs of each session. -/
structure Replica where
  set : World ℕ := .empty
  heads : Store Cid ℕ := ∅
  processed : Finset Cid := ∅
  queuedChildren : Finset Cid := ∅
  dirty : Bool := false
  banned : Finset Cid := ∅
  failures : Store Cid ℕ := ∅
  sessions : List ℕ := []
  merging : Store ℕ Cid := ∅

/-- The second result of `heads.List`. -/
def maxHeight (heads : Store Cid ℕ) : ℕ := heads.entries.foldr (fun e height => max e.2 height) 0

/-- What the code does not decide: whether a fetch, a broadcast or a block write succeeds and
whether a failure is old enough, the cid of a new block, the children that arrive before an
error does. -/
structure Choice where
  ok : Bool := true
  cid : Cid := ""
  arrived : List Cid := []

/-- One operation of thread `i`. `none` is one that has to wait, or that nobody chooses so. -/
def Net.exec (net : Net) (i : ℕ) (choice : Choice) : (o : DagOp) → Replica → Option (o.Res × Replica)
  | .set o, w => (OpenTela.exec net.env i o w.set).map (fun out => (out.1, { w with set := out.2 }))
  | .enterMerge c, w => some ((), { w with merging := w.merging.insert i c })
  | .isProcessed c, w => some (decide (c ∈ w.processed), w)
  | .markProcessed c, w => some ((), { w with processed := insert c w.processed, merging := w.merging.erase i })
  | .visit c, w => some (decide (c ∉ w.queuedChildren), { w with queuedChildren := insert c w.queuedChildren })
  | .dequeue c, w => some ((), { w with queuedChildren := w.queuedChildren.erase c })
  | .isHead c, w => some (w.heads.lookup c, w)
  | .headCount, w => some (w.heads.keys.length, w)
  | .listHeads, w => some ((net.headOrder w.heads.keys, maxHeight w.heads), w)
  | .addHead c height, w => some ((), { w with heads := w.heads.insert c height })
  | .replaceHead h c height, w => some ((), { w with heads := (w.heads.erase h).insert c height })
  | .isDirty, w => some (w.dirty, w)
  | .markDirty, w => some ((), { w with dirty := true })
  | .markClean, w => some ((), { w with dirty := false })
  | .isBanned c, w => some (decide (c ∈ w.banned), w)
  | .recordFailure c, w =>
    if net.maxFetchFailures = 0 ∨ c ∈ w.banned then some (false, w)
    else
      let count := (w.failures.lookup c).getD 0 + 1
      if count < net.maxFetchFailures ∨ choice.ok = false then
        some (false, { w with failures := w.failures.insert c count })
      else some (true, { w with banned := insert c w.banned, failures := w.failures.erase c })
  | .clearFailure c, w => some ((), { w with failures := w.failures.erase c })
  | .fetch _, w => some (choice.ok, w)
  | .getDeltas children, w => if choice.arrived ⊆ children then some (choice.arrived, w) else none
  | .putBlock b, w =>
    if choice.ok = false then some (none, w)
    else if net.block choice.cid = b then some (some choice.cid, w) else none
  | .branch _ _, w => some (w.sessions.length, { w with sessions := w.sessions ++ [0] })
  | .sessionAdd session, w => some ((), { w with sessions := w.sessions.modify session (· + 1) })
  | .sessionDone session, w => some ((), { w with sessions := w.sessions.modify session (· - 1) })
  | .sessionWait session, w => if w.sessions[session]?.getD 0 = 0 then some ((), w) else none
  | .broadcast _, w => some (choice.ok, w)
  | .go _, w => some ((), w)

end OpenTela
