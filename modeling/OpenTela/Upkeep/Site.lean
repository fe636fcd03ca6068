import OpenTela.Dag.Walk
import OpenTela.NodeTable.Departed
import OpenTela.NodeTable.Mirror

namespace OpenTela

/-- `probeVerdict`. -/
inductive Verdict where
  | alive
  | deadAuthoritative
  | unknown
  deriving DecidableEq

/-- `peerSweepAction`. -/
inductive SweepAction where
  | keep
  | markDisconnected
  | delete
  deriving DecidableEq

/-- `2 * time.Minute`, in seconds. -/
def peerDisconnectAfter : ℤ := 120

/-- `10 * time.Minute`, in seconds. -/
def peerStaleAfter : ℤ := 600

/-- `time.Unix(seconds, 0).Before(now)`, with `now` in nanoseconds. -/
def unixBefore (seconds now : ℤ) : Bool := decide (seconds * 10 ^ 9 < now)

def decideSweepAction (p : Peer) (verdict : Verdict) (now : ℤ) : SweepAction :=
  if p.lastSeen = 0 then .keep
  else if p.connected then
    if verdict = .deadAuthoritative then .markDisconnected
    else if !p.service.isEmpty then .keep
    else if unixBefore (p.lastSeen + peerDisconnectAfter) now then .markDisconnected
    else .keep
  else if !p.service.isEmpty then .keep
  else if unixBefore (p.lastSeen + peerStaleAfter) now then .delete
  else .keep

/-- `time.Now().Add(-retention).Unix()`, with both times in nanoseconds. -/
def retentionLimit (retention now : ℤ) : ℤ := (now - retention) / 10 ^ 9

def collectCandidates (limit : ℤ) (table : NodeTable) : List Key :=
  ((getAllPeers table).filter (fun r => decide (r.2.status = LEFT ∧ r.2.lastSeen < limit))).map Prod.fst

/-- The work of a node's upkeep: a received block, an update of one row, a pass of the liveness
probe and its goroutine for one row, the sweep, and `CleanupLeftNodes`. -/
inductive Upkeep where
  | receive (root : Cid) (rootPrio : ℕ) (node : Cid)
  | update (job : Job)
  | probe
  | retire (key : Key) (p : Peer) (now : ℤ)
  | sweep
  | cleanup

/-- What the upkeep does to what it shares: the steps on the table, copies of all rows, local
writes and received blocks with the hook calls they make, and what it asks the network. -/
inductive SiteOp where
  | table (o : TableOp)
  | time
  | getAllPeers
  | collectCandidates
  | logFailure (key : Key)
  | isDirectlyConnected (key : Key)
  | acquire
  | dial (key : Key) (relay : String)
  | rmv (key : Key)
  | publish (elements tombstones : List Element)
  | process (root : Cid) (rootPrio : ℕ) (node : Cid)
  | go (task : Upkeep)

def SiteOp.Res : SiteOp → Type
  | .table o => o.Res
  | .time => ℤ
  | .getAllPeers => List (Key × Peer)
  | .collectCandidates => List Key
  | .isDirectlyConnected _ | .acquire => Bool
  | .dial .. => Verdict
  | .rmv _ => List Element
  | .publish .. | .process .. => Except String Unit
  | .logFailure _ | .go _ => Unit

abbrev SiteM := Prog SiteOp SiteOp.Res String

/-- The settings of a node's upkeep, and how it writes a record. -/
structure Setup where
  node : Node
  net : Net
  clock : ℕ → ℤ
  marshal : Peer → Bytes
  role : String
  livenessEnforced : Bool
  retention : ℤ

/-- A node: its datastore and its table. The rest is only noted: the last record of a key that
came with a received block, the candidates each cleanup has still before it with the limit it
found them by, and the `LastSeen` of the LEFT records that stand. -/
structure Site where
  replica : Replica := {}
  table : TableWorld Unit := .empty
  latest : Store Key Bytes := ∅
  doomed : ℕ → List (Key × ℤ) := fun _ => []
  left : Store Key ℤ := ∅

/-- What the code does not decide: the time, what the network answers, and how local writes fare. -/
structure Chance where
  nanos : ℤ := 0
  direct : Bool := false
  inBudget : Bool := true
  verdict : Verdict := .unknown
  dag : List Choice := []

/-- A LEFT record stands from when it is written until one that is not LEFT is. -/
def noteRow (left : Store Key ℤ) : TableEvent Unit → Store Key ℤ
  | .read .. => left
  | .wrote _ key row => if row.status = LEFT then left.insert key row.lastSeen else left.erase key

/-- It also ends when the store has deleted the key, if that `counts`. -/
def noteDelete (store : SetStore) (counts : Key → ℤ → Bool) (left : Store Key ℤ) : Hook → Store Key ℤ
  | .put .. => left
  | .delete key =>
    if store.has (valueKey key) then left
    else if (left.lookup key).elim false (counts key) then left.erase key else left

def notePut (latest : Store Key Bytes) : Hook → Store Key Bytes
  | .put key value => latest.insert key value
  | .delete _ => latest

/-- The site with this table. -/
def Site.tabled (s : Site) (t : TableWorld Unit) : Site :=
  { s with table := t, left := (t.history.drop s.table.history.length).foldl noteRow s.left }

/-- Thread `i` has done with a candidate. -/
def Site.spare (s : Site) (i : ℕ) (key : Key) : Site :=
  { s with doomed := Function.update s.doomed i ((s.doomed i).filter (fun d => d.1 ≠ key)) }

/-- The limit by which thread `i` found the key, if it did, is above. -/
def Site.overdue (s : Site) (i : ℕ) (key : Key) (seen : ℤ) : Bool :=
  (s.doomed i).any (fun d => d.1 = key && decide (seen < d.2))

/-- The site once a write or a received block has run on the datastore, with the hook calls of thread `i`. -/
def Site.settle (setup : Setup) (i : ℕ) (received : Bool) (s : Site) (r : Replica) : Option Site :=
  let calls := (r.set.hooks i).drop (s.replica.set.hooks i).length
  (runHooks setup.node setup.clock calls s.table).map (fun t =>
    Site.tabled { s with
      replica := r
      latest := if received then calls.foldl notePut s.latest else s.latest
      left := calls.foldl (noteDelete r.set.store (if received then fun _ _ => true else s.overdue i)) s.left } t)

/-- One operation of thread `i`. Local writes and received blocks run without interruption. -/
def Site.exec (setup : Setup) (i : ℕ) (chance : Chance) : (o : SiteOp) → Site → Option (o.Res × Site)
  | .table (.remove key), s =>
    let left := noteDelete s.replica.set.store (s.overdue i) s.left (.delete key)
    (execTable setup.clock () (.remove key) s.table).map (fun out => (out.1, (Site.tabled { s with left } out.2).spare i key))
  | .table o, s => (execTable setup.clock () o s.table).map (fun out => (out.1, s.tabled out.2))
  | .time, s => some (chance.nanos, s)
  | .getAllPeers, s => some (OpenTela.getAllPeers s.table.table, s)
  | .collectCandidates, s =>
    let limit := retentionLimit setup.retention chance.nanos
    let candidates := OpenTela.collectCandidates limit s.table.table
    some (candidates, { s with doomed := Function.update s.doomed i (candidates.map (fun key => (key, limit))) })
  | .logFailure key, s => some ((), s.spare i key)
  | .isDirectlyConnected _, s => some (chance.direct, s)
  | .acquire, s => some (chance.inBudget, s)
  | .dial .., s => some (chance.verdict, s)
  | .rmv key, s =>
    match (OpenTela.rmv key).run (OpenTela.exec setup.net.env i) s.replica.set with
    | some (.ok tombstones, _) => some (tombstones, s)
    | _ => none
  | .publish elements tombstones, s =>
    ((OpenTela.publish setup.net elements tombstones).runWith (setup.net.exec i) chance.dag s.replica).bind (fun out =>
      (s.settle setup i false out.2).map (fun s' => (out.1, s')))
  | .process root rootPrio node, s =>
    ((processNode setup.net root rootPrio node >>= fun _ => pure ()).runWith (setup.net.exec i) chance.dag s.replica).bind
      (fun out => (s.settle setup i true out.2).map (fun s' => (out.1, s')))
  | .go _, s => some ((), s)

end OpenTela
