import OpenTela.Lib.Prog
import OpenTela.Crdt.Keys
import Mathlib.Data.Int.Basic

namespace OpenTela

/-- `pb.Element`. An element of a delta has a key and a value, a tombstone a key and an id. -/
structure Element where
  key : Key
  id : Id := ""
  value : Bytes := []
  deriving DecidableEq

/-- `pb.Delta`, whose priority is a `uint64`. -/
structure Delta where
  elements : List Element
  tombstones : List Element
  priority : ℕ
  priority_lt : priority < word
  deriving DecidableEq

/-- The delta with this priority, as far as a `uint64` holds it. -/
def Delta.of (elements tombstones : List Element) (prio : ℕ) : Delta where
  elements := elements
  tombstones := tombstones
  priority := prio % word
  priority_lt := Nat.mod_lt prio word_pos

/-- The calls the set makes to the hooks it was given. -/
inductive Hook where
  | put (key : Key) (value : Bytes)
  | delete (key : Key)
  deriving DecidableEq

/-- Everything the set does outside itself: datastore reads, atomic batch commits,
block fetches, clock readings, the iteration order of a Go map, the mutex, the hooks. -/
inductive SetOp where
  | get (path : Path)
  | has (path : Path)
  | query (pre : Path)
  | fetch (id : Id)
  | now
  | range (keys : List Key)
  | lock
  | unlock
  | commit (batch : Batch Path Bytes)
  | hook (h : Hook)

def SetOp.Res : SetOp → Type
  | .get _ => Option Bytes
  | .has _ => Bool
  | .query _ => List (Path × Bytes)
  | .fetch _ => Option Delta
  | .now => ℤ
  | .range _ => List Key
  | .lock | .unlock | .commit _ | .hook _ => Unit

abbrev SetM := Prog SetOp SetOp.Res String

namespace SetM

def get (path : Path) : SetM (Option Bytes) := Prog.perform (SetOp.get path)
def has (path : Path) : SetM Bool := Prog.perform (SetOp.has path)
def query (pre : Path) : SetM (List (Path × Bytes)) := Prog.perform (SetOp.query pre)
def fetch (id : Id) : SetM (Option Delta) := Prog.perform (SetOp.fetch id)
def now : SetM ℤ := Prog.perform SetOp.now
def range (keys : List Key) : SetM (List Key) := Prog.perform (SetOp.range keys)
def lock : SetM Unit := Prog.perform SetOp.lock
def unlock : SetM Unit := Prog.perform SetOp.unlock
def commit (batch : Batch Path Bytes) : SetM Unit := Prog.perform (SetOp.commit batch)
def hook (h : Hook) : SetM Unit := Prog.perform (SetOp.hook h)

end SetM

open OpenTela.SetM

def inTombsKeyID (key : Key) (id : Id) : SetM Bool := has (tombsKey key id)

/-- `set.Element`. -/
def element (key : Key) : SetM (Option Bytes) := get (valueKey key)

/-- `set.InSet`. -/
def inSet (key : Key) : SetM Bool := has (valueKey key)

def getPriority (key : Key) : SetM ℕ := do
  match ← get (priorityKey key) with
  | none => return 0
  | some data =>
    match uvarint data with
    | none => .fail "error decoding priority"
    | some prio => return (prio + (word - 1)) % word

def setPriority (writeStore : Batch Path Bytes) (key : Key) (prio : ℕ) : Batch Path Bytes :=
  writeStore.put (priorityKey key) (putUvarint ((prio + 1) % word))

/-- On equal priority the stored value stays when `bytes.Compare(curValue, value) >= 0`. -/
def keepsCurrent (key : Key) (value : Bytes) (prio curPrio : ℕ) : SetM Bool :=
  if prio = curPrio then do
    let curValue ← get (valueKey key)
    return !decide (curValue.getD [] < value)
  else return false

/-- `set.setValue`. It reads the store, and writes to the batch it is given. -/
def setValue (writeStore : Batch Path Bytes) (key : Key) (id : Id) (value : Bytes) (prio : ℕ) :
    SetM (Batch Path Bytes) := do
  if ← inTombsKeyID key id then return writeStore
  else
    let curPrio ← getPriority key
    if prio < curPrio then return writeStore
    else
      if ← keepsCurrent key value prio curPrio then return writeStore
      else
        hook (.put key value)
        return setPriority (writeStore.put (valueKey key) value) key prio

/-- `crdtNodeGetter.GetDelta` on the block of an id. -/
def getDelta (id : Id) : SetM Delta := do
  match ← fetch id with
  | none => .fail "block not found"
  | some delta => return delta

/-- The greatest value a delta gives to a key. `none` is Go's `nil`. -/
def greatestValueInDelta (key : Key) (delta : Delta) : Option Bytes :=
  delta.elements.foldl (fun greatest elem =>
    if elem.key = key then
      if greatest.getD [] < elem.value then some elem.value else greatest
    else greatest) none

/-- One round of the loop of `findBestValue`, once the block's delta is there. -/
def preferDelta (key : Key) (delta : Delta) (best : Option Bytes × ℕ) : Option Bytes × ℕ :=
  if delta.priority < best.2 then best
  else if best.2 < delta.priority then (greatestValueInDelta key delta, delta.priority)
  else if best.1.getD [] < (greatestValueInDelta key delta).getD [] then
    (greatestValueInDelta key delta, best.2)
  else best

def findBestValue.loop (key : Key) (pendingTombIDs : List Id) :
    List Path → Option Bytes × ℕ → SetM (Option Bytes × ℕ)
  | [], best => return best
  | r :: rest, best =>
    match topLevel (elemsPrefix key) r with
    | none => loop key pendingTombIDs rest best
    | some id =>
      if id ∈ pendingTombIDs then loop key pendingTombIDs rest best
      else do
        if ← inTombsKeyID key id then loop key pendingTombIDs rest best
        else
          let delta ← getDelta id
          loop key pendingTombIDs rest (preferDelta key delta best)

/-- `set.findBestValue`. -/
def findBestValue (key : Key) (pendingTombIDs : List Id) : SetM (Option Bytes × ℕ) := do
  let results ← query (elemsPrefix key)
  findBestValue.loop key pendingTombIDs (results.map Prod.fst) (none, 0)

def putElems.loop (id : Id) (prio : ℕ) : List Element → Batch Path Bytes → SetM (Batch Path Bytes)
  | [], store => return store
  | e :: rest, store => do
    let store ← setValue (store.put (elemsKey e.key id) []) e.key id e.value prio
    loop id prio rest store

/-- `set.putElems`, on a batching datastore. -/
def putElems (elems : List Element) (id : Id) (prio : ℕ) : SetM Unit := do
  lock
  Prog.ensure unlock
    (if elems.isEmpty then return ()
     else do
      let store ← putElems.loop id prio elems []
      commit store)

/-- `uint64(time.Now().Unix())` of a clock reading in nanoseconds. -/
def unixSeconds (now : ℤ) : ℕ := (now / 10 ^ 9 % (word : ℤ)).toNat

/-- What `putTombs` has gathered so far. The tombstones of one call share the buffer
`tsBuf`, so each of them is committed with the last reading put there. -/
structure TombBatch where
  store : Batch Path Bytes := []
  tombs : List Path := []
  tsBuf : Bytes := []
  deletedElems : Store Key (List Id) := ∅

def TombBatch.writes (b : TombBatch) : Batch Path Bytes :=
  b.tombs.map (fun path => (path, some b.tsBuf)) ++ b.store

def putTombs.loop : List Element → TombBatch → SetM TombBatch
  | [], b => return b
  | e :: rest, b => do
    let ids := (b.deletedElems.lookup e.key).getD [] ++ [e.id]
    let (v, p) ← findBestValue e.key ids
    let store := match v with
      | none => (b.store.delete (valueKey e.key)).delete (priorityKey e.key)
      | some v => setPriority (b.store.put (valueKey e.key) v) e.key p
    let t ← now
    loop rest
      { store, tombs := tombsKey e.key e.id :: b.tombs, tsBuf := putUint64 (unixSeconds t),
        deletedElems := b.deletedElems.insert e.key ids }

def runDeleteHooks : List Key → SetM Unit
  | [] => return ()
  | key :: rest => do
    hook (.delete key)
    runDeleteHooks rest

/-- `set.putTombs`, on a batching datastore. -/
def putTombs (tombs : List Element) : SetM Unit :=
  if tombs.isEmpty then return ()
  else do
    let b ← putTombs.loop tombs {}
    commit b.writes
    runDeleteHooks (← range b.deletedElems.keys)

/-- `set.Merge`. -/
def merge (d : Delta) (id : Id) : SetM Unit := do
  putTombs d.tombstones
  putElems d.elements id d.priority

/-- `set.Add`. -/
def add (key : Key) (value : Bytes) : List Element := [{ key, value }]

def rmv.loop (key : Key) : List Path → List Element → SetM (List Element)
  | [], tombstones => return tombstones
  | r :: rest, tombstones =>
    match topLevel (elemsPrefix key) r with
    | none => loop key rest tombstones
    | some id => do
      if ← inTombsKeyID key id then loop key rest tombstones
      else loop key rest (tombstones ++ [{ key, id }])

/-- `set.Rmv`: the tombstones of a new delta that removes the key. -/
def rmv (key : Key) : SetM (List Element) := do
  let results ← query (elemsPrefix key)
  rmv.loop key (results.map Prod.fst) []

/-- What the set finds around it: the blocks the DAG service returns, the successive
readings of the clock, and the orders in which queries and maps are iterated. -/
structure Env where
  dag : Id → Option Delta
  clock : ℕ → ℤ
  queryOrder : List (Path × Bytes) → List (Path × Bytes)
  queryOrder_perm : ∀ results, (queryOrder results).Perm results
  mapOrder : List Key → List Key
  mapOrder_perm : ∀ keys, (mapOrder keys).Perm keys

/-- These blocks, and everything iterated in the order in which it is stored. -/
def Env.plain (dag : Id → Option Delta) : Env where
  dag := dag
  clock := fun n => n
  queryOrder := id
  queryOrder_perm := fun _ => .refl _
  mapOrder := id
  mapOrder_perm := fun _ => .refl _

/-- The datastore and the mutex, shared by the threads `τ` that call the set. -/
structure Core (τ : Type) where
  store : Store Path Bytes
  mutex : Option τ

/-- The state the set works on: the shared part, the clock's position and, for each
thread, the hook calls it has made so far. -/
structure World (τ : Type) extends Core τ where
  ticks : ℕ
  hooks : τ → List Hook

/-- A new set in an empty datastore. -/
def World.empty {τ : Type} : World τ := { store := ∅, mutex := none, ticks := 0, hooks := fun _ => [] }

/-- One operation of thread `i`. `none` is a thread that has to wait for the mutex. -/
def exec {τ : Type} [DecidableEq τ] (env : Env) (i : τ) :
    (o : SetOp) → World τ → Option (o.Res × World τ)
  | .get path, w => some (w.store.lookup path, w)
  | .has path, w => some (w.store.has path, w)
  | .query pre, w => some (env.queryOrder (w.store.select (below pre)), w)
  | .fetch id, w => some (env.dag id, w)
  | .now, w => some (env.clock w.ticks, { w with ticks := w.ticks + 1 })
  | .range keys, w => some (env.mapOrder keys, w)
  | .lock, w =>
    match w.mutex with
    | none => some ((), { w with mutex := some i })
    | some _ => none
  | .unlock, w => some ((), { w with mutex := none })
  | .commit batch, w => some ((), { w with store := batch.apply w.store })
  | .hook h, w => some ((), { w with hooks := Function.update w.hooks i (w.hooks i ++ [h]) })

end OpenTela
