import OpenTela.Dag.Replica

namespace OpenTela

abbrev DagM := Prog DagOp DagOp.Res String

namespace DagM

def set {α : Type} (p : SetM α) : DagM α := Prog.embed DagOp.set (fun _ r => r) p
def enterMerge (c : Cid) : DagM Unit := Prog.perform (DagOp.enterMerge c)
def isProcessed (c : Cid) : DagM Bool := Prog.perform (DagOp.isProcessed c)
def markProcessed (c : Cid) : DagM Unit := Prog.perform (DagOp.markProcessed c)
def visit (c : Cid) : DagM Bool := Prog.perform (DagOp.visit c)
def dequeue (c : Cid) : DagM Unit := Prog.perform (DagOp.dequeue c)
def isHead (c : Cid) : DagM (Option ℕ) := Prog.perform (DagOp.isHead c)
def headCount : DagM ℕ := Prog.perform DagOp.headCount
def listHeads : DagM (List Cid × ℕ) := Prog.perform DagOp.listHeads
def addHead (c : Cid) (height : ℕ) : DagM Unit := Prog.perform (DagOp.addHead c height)
def replaceHead (h c : Cid) (height : ℕ) : DagM Unit := Prog.perform (DagOp.replaceHead h c height)
def isDirty : DagM Bool := Prog.perform DagOp.isDirty
def markDirty : DagM Unit := Prog.perform DagOp.markDirty
def markClean : DagM Unit := Prog.perform DagOp.markClean
def isBanned (c : Cid) : DagM Bool := Prog.perform (DagOp.isBanned c)
def recordFailure (c : Cid) : DagM Bool := Prog.perform (DagOp.recordFailure c)
def clearFailure (c : Cid) : DagM Unit := Prog.perform (DagOp.clearFailure c)
def fetch (c : Cid) : DagM Bool := Prog.perform (DagOp.fetch c)
def getDeltas (children : List Cid) : DagM (List Cid) := Prog.perform (DagOp.getDeltas children)
def putBlock (b : Block) : DagM (Option Cid) := Prog.perform (DagOp.putBlock b)
def branch (head c : Cid) : DagM ℕ := Prog.perform (DagOp.branch head c)
def sessionAdd (session : ℕ) : DagM Unit := Prog.perform (DagOp.sessionAdd session)
def sessionDone (session : ℕ) : DagM Unit := Prog.perform (DagOp.sessionDone session)
def sessionWait (session : ℕ) : DagM Unit := Prog.perform (DagOp.sessionWait session)
def broadcast (c : Cid) : DagM Bool := Prog.perform (DagOp.broadcast c)
def go (task : Task) : DagM Unit := Prog.perform (DagOp.go task)

end DagM

open DagM

section Jobs

variable (net : Net)

/-- `heads.Add` of the root, unless that has been done. -/
def processNode.addOnce (root : Cid) (rootPrio : ℕ) (addedAsHead : Bool) : DagM Bool :=
  if addedAsHead then return true
  else do
    addHead root rootPrio
    return true

/-- A child that is a head gives way to the root, but never to a lower one. -/
def processNode.replaceChild (root : Cid) (rootPrio : ℕ) (child : Cid) (existing : Option ℕ) (addedAsHead : Bool) :
    DagM Bool :=
  match existing with
  | none => return addedAsHead
  | some existingHeight =>
    if existingHeight ≤ rootPrio then do
      replaceHead child root rootPrio
      return true
    else processNode.addOnce root rootPrio addedAsHead

/-- `isProcessed || !queuedChildren.Visit(child)`. -/
def processNode.taken (child : Cid) (isProcessed : Bool) : DagM Bool :=
  if isProcessed then return true
  else do
    let reserved ← visit child
    return !reserved

/-- The loop of `processNode` over the links, with its `addedAsHead` and `children`. -/
def processNode.loop (root : Cid) (rootPrio : ℕ) : List Cid → Bool → List Cid → DagM (List Cid)
  | [], _, children => return children
  | child :: rest, addedAsHead, children => do
    let existing ← isHead child
    let processed ← isProcessed child
    let addedAsHead ← processNode.replaceChild root rootPrio child existing addedAsHead
    if existing.isSome && processed then loop root rootPrio rest addedAsHead children
    else
      if ← processNode.taken child processed then
        let addedAsHead ← processNode.addOnce root rootPrio addedAsHead
        loop root rootPrio rest addedAsHead children
      else loop root rootPrio rest addedAsHead (children ++ [child])

/-- `processNode`: merges the delta of a node and returns the children left to fetch. -/
def processNode (root : Cid) (rootPrio : ℕ) (node : Cid) : DagM (List Cid) := do
  enterMerge node
  set (merge (net.block node).delta node)
  markProcessed node
  dequeue node
  if (net.links node).isEmpty then addHead root rootPrio
  processNode.loop root rootPrio (net.links node) false []

def sendNewJobs.start (session : ℕ) (root : Cid) (rootPrio : ℕ) : List Cid → DagM Unit
  | [] => return ()
  | node :: rest => do
    sessionAdd session
    go (.job session root rootPrio node)
    start session root rootPrio rest

def sendNewJobs.clearUp (goodDeltas : List Cid) : List Cid → DagM Unit
  | [] => return ()
  | child :: rest =>
    if child ∈ goodDeltas then clearUp goodDeltas rest
    else do
      dequeue child
      clearUp goodDeltas rest

/-- The special case for the root: its priority is that of the first child. -/
def sendNewJobs.rootPriority (rootPrio : ℕ) (first : Cid) : DagM ℕ :=
  if rootPrio = 0 then do
    if ← fetch first then return net.priority first
    else .fail "error getting root delta priority"
  else return rootPrio

/-- `sendNewJobs`. `GetMany` hands over every child or an error. -/
def sendNewJobs (session : ℕ) (root : Cid) (rootPrio : ℕ) (children : List Cid) : DagM Unit :=
  match children with
  | [] => return ()
  | first :: _ => do
    let rootPrio ← sendNewJobs.rootPriority net rootPrio first
    let goodDeltas ← getDeltas children
    sendNewJobs.start session root rootPrio goodDeltas
    sendNewJobs.clearUp goodDeltas children
    if children ⊆ goodDeltas then return () else .fail "error getting delta"

/-- The goroutine in which `dagWorker` sends the new jobs. -/
def dagWorker.send (session : ℕ) (root : Cid) (rootPrio : ℕ) (children : List Cid) : DagM Unit := do
  match ← (sendNewJobs net session root rootPrio children).attempt with
  | .error _ =>
    markDirty
    sessionDone session
  | .ok () => sessionDone session

def dagWorker.finish (session : ℕ) (root : Cid) (rootPrio : ℕ) : Except String (List Cid) → DagM Unit
  | .error _ => do
    markDirty
    sessionDone session
  | .ok children => dagWorker.send net session root rootPrio children

/-- What `dagWorker` does with one job. -/
def dagWorker (session : ℕ) (root : Cid) (rootPrio : ℕ) (node : Cid) : DagM Unit := do
  dagWorker.finish net session root rootPrio (← (processNode net root rootPrio node).attempt)

/-- `handleBranch`: walks down from `c` in a branch headed by `head`. -/
def handleBranch (head c : Cid) : DagM Unit := do
  let session ← branch head c
  let result ← (sendNewJobs net session head 0 [c]).attempt
  sessionWait session
  Prog.rethrow result

def handleBlock (c : Cid) : DagM Unit := do
  if ← isBanned c then return ()
  else if ← isProcessed c then return ()
  else handleBranch net c c

/-- The closure `processHead` of `handleNext`. -/
def processHead (c : Cid) : DagM Unit := do
  match ← (handleBlock net c).attempt with
  | .error _ =>
    let _ ← recordFailure c
    return ()
  | .ok () => clearFailure c

/-- With no heads yet, those of a broadcast become heads at once. -/
def handleNext.adopt : List Cid → DagM Unit
  | [] => return ()
  | head :: rest => do
    if ← isBanned head then adopt rest
    else if ← fetch head then do
      addHead head (net.priority head)
      adopt rest
    else do
      let _ ← recordFailure head
      adopt rest

def handleNext.process : List Cid → DagM Unit
  | [] => return ()
  | head :: rest => do
    go (.head head)
    process rest

/-- One round of `handleNext`, on a decoded broadcast, with `MultiHeadProcessing`. -/
def handleNext (bCastHeads : List Cid) : DagM Unit := do
  if (← headCount) = 0 then handleNext.adopt net bCastHeads
  handleNext.process bCastHeads

end Jobs

section Repair

variable (net : Net)

def repairDAG.unbanned : List Cid → DagM (List Cid)
  | [] => return []
  | h :: rest => do
    if ← isBanned h then unbanned rest
    else return h :: (← unbanned rest)

/-- `repairDAG` up to its loop. -/
def repairDAG : DagM Unit := do
  let (heads, _) ← listHeads
  let nodes ← repairDAG.unbanned heads
  go (.sweep (nodes.map (fun h => (h, h))) nodes)

/-- The links of a node that are neither banned nor queued join the nodes of the pass. -/
def repairDAG.enqueue (head : Cid) : List Cid → List (Cid × Cid) → List Cid → DagM (List (Cid × Cid) × List Cid)
  | [], nodes, queued => return (nodes, queued)
  | l :: rest, nodes, queued => do
    if ← isBanned l then enqueue head rest nodes queued
    else if l ∈ queued then enqueue head rest nodes queued
    else enqueue head rest (nodes ++ [(head, l)]) (l :: queued)

/-- One round of the loop of `repairDAG`, and on to the next. -/
def repairDAG.loop : List (Cid × Cid) → List Cid → DagM Unit
  | [], _ => markClean
  | (head, cur) :: nodes, queued => do
    if ← fetch cur then
      if ← isProcessed cur then pure () else handleBranch net head cur
      let (nodes, queued) ← enqueue head (net.links cur) nodes queued
      go (.sweep nodes queued)
    else .fail "error getting node for reprocessing"

/-- What `repair` does each time its timer fires. -/
def repair : DagM Unit := do
  if ← isDirty then repairDAG

end Repair

section Writes

variable (net : Net)

/-- The delta `addDAGNode` makes a block of: its height is above that of every head. -/
def newDelta (elements tombstones : List Element) (height : ℕ) : Delta := .of elements tombstones (height + 1)

def addDAGNode.finish (c : Cid) : Except String (List Cid) → DagM Cid
  | .error e => do
    markDirty
    .fail e
  | .ok _ => return c

def addDAGNode (elements tombstones : List Element) : DagM Cid := do
  let (heads, height) ← listHeads
  match ← putBlock ⟨newDelta elements tombstones height, heads⟩ with
  | none => .fail "error writing new block"
  | some c => addDAGNode.finish c (← (processNode net c ((height + 1) % word) c).attempt)

def publish.send (c : Cid) : DagM Unit := do
  if ← broadcast c then return () else .fail "error broadcasting"

def publish (elements tombstones : List Element) : DagM Unit := do
  publish.send (← addDAGNode net elements tombstones)

/-- `Datastore.Put`. -/
def put (key : Key) (value : Bytes) : DagM Unit := publish net (add key value) []

/-- `Datastore.Delete`. -/
def delete (key : Key) : DagM Unit := do
  let tombstones ← set (rmv key)
  if tombstones.isEmpty then return () else publish net [] tombstones

end Writes

/-- What each task runs. -/
def Net.body (net : Net) : Task → DagM Unit
  | .receive heads => handleNext net heads
  | .head c => processHead net c
  | .job session root rootPrio node => dagWorker net session root rootPrio node
  | .repairTimer => repair
  | .repairCall => repairDAG
  | .sweep nodes queued => repairDAG.loop net nodes queued
  | .put key value => put net key value
  | .delete key => delete net key

/-- Broadcasts, timer and callers come from outside; the rest is started by `go`. -/
def Task.outside : Task → Bool
  | .receive _ | .repairTimer | .repairCall | .put _ _ | .delete _ => true
  | _ => false

def DagOp.starts : DagOp → List Task
  | .go task => [task]
  | _ => []

/-- A replica with everything that runs on it. -/
def Net.system (net : Net) : Prog.System DagOp DagOp.Res String Replica Choice Task where
  exec := net.exec
  starts := DagOp.starts
  body := net.body
  entry := Task.outside

abbrev DagThread := Prog.Thread DagOp DagOp.Res String Task

abbrev Crew := Prog.Crew DagOp DagOp.Res String Replica Task

/-- A new replica. -/
def Crew.fresh : Crew := ⟨{}, []⟩

/-- The crew once thread `i` has performed `o`, with `rest` left to do. -/
abbrev stepped (net : Net) (c : Crew) (i : ℕ) (s : Replica) (task : Task) (o : DagOp) (rest : DagM Unit) : Crew :=
  c.after i s ⟨task, rest⟩ (o.starts.map net.system.start)

end OpenTela
