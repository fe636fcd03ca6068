import OpenTela.Lib.Crew
import OpenTela.Upkeep.Site

namespace OpenTela

open Prog

namespace SiteM

def table {α : Type} (p : TableM α) : SiteM α := Prog.embed SiteOp.table (fun _ r => r) p
def time : SiteM ℤ := Prog.perform SiteOp.time
def getAllPeers : SiteM (List (Key × Peer)) := Prog.perform SiteOp.getAllPeers
def collectCandidates : SiteM (List Key) := Prog.perform SiteOp.collectCandidates
def logFailure (key : Key) : SiteM Unit := Prog.perform (SiteOp.logFailure key)
def isDirectlyConnected (key : Key) : SiteM Bool := Prog.perform (SiteOp.isDirectlyConnected key)
def acquire : SiteM Bool := Prog.perform SiteOp.acquire
def dial (key : Key) (relay : String) : SiteM Verdict := Prog.perform (SiteOp.dial key relay)
def rmv (key : Key) : SiteM (List Element) := Prog.perform (SiteOp.rmv key)
def publish (elements tombstones : List Element) : SiteM (Except String Unit) := Prog.perform (SiteOp.publish elements tombstones)
def process (root : Cid) (rootPrio : ℕ) (node : Cid) : SiteM (Except String Unit) :=
  Prog.perform (SiteOp.process root rootPrio node)
def go (task : Upkeep) : SiteM Unit := Prog.perform (SiteOp.go task)

end SiteM

open SiteM

section Programs

variable (setup : Setup)

/-- `ProbePeerLiveness`: without an advertised relay there is nobody to ask. -/
def probePeerLiveness (key : Key) : SiteM Verdict := do
  match ← table (TableM.get key) with
  | none => return .unknown
  | some entry => if entry.relayPeer = "" then return .unknown else dial key entry.relayPeer

/-- `publishEviction`. An error is only logged. -/
def publishEviction (key : Key) (p : Peer) : SiteM Unit :=
  if setup.role ≠ "head" then return ()
  else do
    let record := { p with status := LEFT, connected := false, evictedBy := setup.node.myID }
    let _ ← SiteM.publish (add key (setup.marshal record)) []
    return ()

/-- The goroutine of `probeUnreachableServicePeers` for one row, on the row as it was copied. -/
def retire (key : Key) (p : Peer) (now : ℤ) : SiteM Unit := do
  if ← acquire then
    let verdict ← probePeerLiveness key
    let action := decideSweepAction p verdict now
    if !setup.livenessEnforced then return ()
    else if action ≠ .markDisconnected then return ()
    else
      let p := { p with connected := false }
      table (hookRecord setup.node key p.published)
      publishEviction setup key p
  else return ()

def probeUnreachableServicePeers.loop (now : ℤ) : List (Key × Peer) → SiteM Unit
  | [] => return ()
  | (key, p) :: rest =>
    if !p.connected || p.service.isEmpty then loop now rest
    else do
      if ← SiteM.isDirectlyConnected key then loop now rest
      else
        go (.retire key p now)
        loop now rest

def probeUnreachableServicePeers : SiteM Unit := do
  let now ← time
  let rows ← SiteM.getAllPeers
  probeUnreachableServicePeers.loop now rows

/-- The maintenance of the two-minute ticker, for the rows as they were copied. -/
def sweep.loop (now : ℤ) : List (Key × Peer) → SiteM Unit
  | [] => return ()
  | (key, p) :: rest =>
    match decideSweepAction p .unknown now with
    | .delete => do
      table (deleteNodeTableHook key)
      loop now rest
    | .markDisconnected => do
      table (hookRecord setup.node key { p with connected := false }.published)
      loop now rest
    | .keep => loop now rest

def sweep : SiteM Unit := do
  let now ← time
  let rows ← SiteM.getAllPeers
  sweep.loop setup now rows

/-- `Datastore.Delete`, in the two steps between which others may write. -/
def storeDelete (key : Key) : SiteM (Except String Unit) := do
  let tombstones ← SiteM.rmv key
  if tombstones.isEmpty then return .ok () else SiteM.publish [] tombstones

def cleanupLeftNodes.loop : List Key → ℕ → SiteM ℕ
  | [], removedCount => return removedCount
  | key :: rest, removedCount => do
    match ← storeDelete key with
    | .error _ =>
      logFailure key
      loop rest removedCount
    | .ok () =>
      table (deleteNodeTableHook key)
      loop rest (removedCount + 1)

/-- `CleanupLeftNodes`. -/
def cleanupLeftNodes : SiteM ℕ := do
  let candidates ← SiteM.collectCandidates
  cleanupLeftNodes.loop candidates 0

end Programs

/-- What each task runs. -/
def Setup.body (setup : Setup) : Upkeep → SiteM Unit
  | .receive root rootPrio node => do
    let _ ← process root rootPrio node
    return ()
  | .update job => table (job.program setup.node)
  | .probe => probeUnreachableServicePeers
  | .retire key p now => retire setup key p now
  | .sweep => sweep setup
  | .cleanup => do
    let _ ← cleanupLeftNodes
    return ()

def SiteOp.starts : SiteOp → List Upkeep
  | .go task => [task]
  | _ => []

/-- A node with its upkeep; `entry` says which tasks come from outside. -/
def Setup.system (setup : Setup) (entry : Upkeep → Bool) : System SiteOp SiteOp.Res String Site Chance Upkeep where
  exec := Site.exec setup
  starts := SiteOp.starts
  body := setup.body
  entry := entry

abbrev SiteCrew := Prog.Crew SiteOp SiteOp.Res String Site Upkeep

/-- A new node. -/
def SiteCrew.fresh : SiteCrew := ⟨{}, []⟩

end OpenTela
