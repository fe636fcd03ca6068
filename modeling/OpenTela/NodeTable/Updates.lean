import OpenTela.NodeTable.Table

namespace OpenTela

open TableM

/-- What all liveness updaters do: read the row, edit it, and write the whole record back. -/
def refresh (node : Node) (id : String) (edit : Option Peer → TableM (Option Peer)) : TableM Unit := do
  match ← edit (← get (peerKey id)) with
  | none => return ()
  | some p => hookRecord node (peerKey id) p.published

/-- One peer of the ticker's ping loop. -/
def pingTick (node : Node) (id : String) (reachable : Bool) : TableM Unit :=
  if id = node.myID then return ()
  else refresh node id (fun
    | none => return none
    | some p => do
      if reachable then
        let t ← now
        return some { p with connected := true, lastSeen := t }
      else return some { p with connected := false })

/-- `ConnectedF`: an unknown peer gets a minimal entry. -/
def connectedF (node : Node) (id : String) : TableM Unit :=
  if id = node.myID then return ()
  else refresh node id (fun row => do
    let t ← now
    return some { row.getD { id := id } with connected := true, lastSeen := t })

/-- `DisconnectedF`: an unknown peer is ignored. -/
def disconnectedF (node : Node) (id : String) : TableM Unit :=
  if id = node.myID then return ()
  else refresh node id (fun row => return row.map (fun p => { p with connected := false }))

/-- A message on the gossip topic: an unknown author gets a minimal entry if it is connected. -/
def gossipMessage (node : Node) (author : String) (isConnected : Bool) : TableM Unit :=
  refresh node author (fun
    | none => do
      if isConnected then
        let t ← now
        return some { id := author, connected := true, lastSeen := t }
      else return none
    | some p => do
      let t ← now
      return some { p with lastSeen := t, connected := true })

inductive Job where
  | deliver (key : Key) (value : Bytes)
  | ping (id : String) (reachable : Bool)
  | connect (id : String)
  | disconnect (id : String)
  | gossip (author : String) (isConnected : Bool)

def Job.program (node : Node) : Job → TableM Unit
  | .deliver key value => putHook node key value
  | .ping id reachable => pingTick node id reachable
  | .connect id => connectedF node id
  | .disconnect id => disconnectedF node id
  | .gossip author isConnected => gossipMessage node author isConnected

/-- The job delivers a record of the CRDT store. -/
def Job.fromStore : Job → Bool
  | .deliver .. => true
  | _ => false

/-- The structural fields of a record. -/
structure Shape where
  service : List Service
  status : String
  role : List String
  relayPeer : String
  owner : String
  deriving DecidableEq

def Peer.shape (p : Peer) : Shape :=
  { service := p.service, status := p.status, role := p.role, relayPeer := p.relayPeer, owner := p.owner }

variable {τ : Type}

def TableEvent.thread : TableEvent τ → τ
  | .read i _ => i
  | .wrote i _ _ => i

/-- The key of a row that was read. -/
def TableEvent.readKey : TableEvent τ → Option Key
  | .read _ key => some key
  | .wrote .. => none

section History

variable (jobs : τ → Job)

/-- The event is a record of the store accepted for the key. -/
def TableEvent.accepts (key : Key) : TableEvent τ → Option Shape
  | .read .. => none
  | .wrote i k p => if (jobs i).fromStore = true ∧ k = key then some p.shape else none

/-- The structural fields of the last record of the store that was accepted for the key. -/
def lastAccepted (history : List (TableEvent τ)) (key : Key) : Option Shape :=
  (history.filterMap (TableEvent.accepts jobs key)).getLast?

/-- No record of the store is accepted for a key between an updater's read of that key and its write. -/
def Undisturbed (history : List (TableEvent τ)) : Prop :=
  ∀ before between after i key p, history = before ++ .read i key :: between ++ .wrote i key p :: after →
    (jobs i).fromStore = false → ∀ e ∈ between, e.accepts jobs key = none

/-- The rows have the structural fields of the last accepted records. -/
def Current (w : TableWorld τ) : Prop :=
  ∀ key shape, lastAccepted jobs w.history key = some shape → (w.table.lookup key).map Peer.shape = some shape

def Kept (w : TableWorld τ) : Prop := Undisturbed jobs w.history → Current jobs w

/-- What a thread tolerates, and what it does itself: the history grows, and stays kept. -/
structure Grows (mine : τ → Prop) (w u : TableWorld τ) : Prop where
  history : ∃ new, u.history = w.history ++ new ∧ ∀ e ∈ new, mine e.thread
  kept : Kept jobs w → Kept jobs u

end History

section Lemmas

variable {jobs : τ → Job} {w u : TableWorld τ} {mine : τ → Prop}

theorem Undisturbed.initial {before after : List (TableEvent τ)} (undisturbed : Undisturbed jobs (before ++ after)) :
    Undisturbed jobs before := by
  rintro first between rest i key p rfl updater e member
  exact undisturbed first between (rest ++ after) i key p (by simp) updater e member

theorem lastAccepted_append (history : List (TableEvent τ)) {new : List (TableEvent τ)} {key : Key}
    (none : ∀ e ∈ new, e.accepts jobs key = none) : lastAccepted jobs (history ++ new) key = lastAccepted jobs history key := by
  have nothing : new.filterMap (TableEvent.accepts jobs key) = [] := List.filterMap_eq_nil_iff.mpr none
  rw [lastAccepted, lastAccepted, List.filterMap_append, nothing, List.append_nil]

theorem lastAccepted_wrote (history : List (TableEvent τ)) {i : τ} {key : Key} (p : Peer)
    (fromStore : (jobs i).fromStore = true) : lastAccepted jobs (history ++ [.wrote i key p]) key = some p.shape := by
  simp [lastAccepted, TableEvent.accepts, fromStore]

theorem Grows.refl (w : TableWorld τ) : Grows jobs mine w w := ⟨⟨[], by simp, by simp⟩, fun kept => kept⟩

theorem Grows.trans {t : TableWorld τ} (first : Grows jobs mine w t) (second : Grows jobs mine t u) :
    Grows jobs mine w u := by
  obtain ⟨new, grown, own⟩ := first.history
  obtain ⟨new', grown', own'⟩ := second.history
  refine ⟨⟨new ++ new', by rw [grown', grown, List.append_assoc], fun e member => ?_⟩,
    fun kept => second.kept (first.kept kept)⟩
  exact (List.mem_append.mp member).elim (own e) (own' e)

/-- A step that leaves the rows alone and records no write. -/
theorem Grows.silent (new : List (TableEvent τ)) (table : u.table = w.table) (history : u.history = w.history ++ new)
    (own : ∀ e ∈ new, mine e.thread) (none : ∀ e ∈ new, ∀ key, e.accepts jobs key = none) : Grows jobs mine w u := by
  refine ⟨⟨new, history, own⟩, fun kept undisturbed key shape last => ?_⟩
  rw [history] at undisturbed last
  rw [lastAccepted_append _ (fun e member => none e member key)] at last
  rw [table]
  exact kept undisturbed.initial key shape last

theorem stored_shape (existing : Option Peer) (p : Peer) (now : ℤ) : (stored existing p now).shape = p.shape := by
  unfold stored
  split <;> rfl

theorem admit_shape {node : Node} {peer p : Peer} (admitted : node.vetted peer = some p) : p.shape = peer.shape := by
  unfold Node.vetted at admitted
  split at admitted
  · cases admitted
  · cases admitted
    rfl

/-- A write that keeps the row of its key current. -/
theorem Grows.recorded {clock : ℕ → ℤ} {i : τ} {key : Key} {p : Peer} (own : mine i)
    (fits : Kept jobs w → Undisturbed jobs (w.history ++ [.wrote i key (stored (w.table.lookup key) p (clock w.ticks))]) →
      ∀ shape, lastAccepted jobs (w.history ++ [.wrote i key (stored (w.table.lookup key) p (clock w.ticks))]) key = some shape →
        p.shape = shape) : Grows jobs mine w (w.recorded clock i key p) := by
  refine ⟨⟨_, rfl, by simpa [TableEvent.thread] using own⟩, fun kept undisturbed k shape last => ?_⟩
  simp only [TableWorld.recorded] at undisturbed last ⊢
  by_cases same : k = key
  · subst same
    rw [AList.lookup_insert, Option.map_some, stored_shape, fits kept undisturbed shape last]
  · rw [AList.lookup_insert_ne same]
    rw [lastAccepted_append] at last
    · exact kept undisturbed.initial k shape last
    · simp [TableEvent.accepts, Ne.symm same]

end Lemmas

end OpenTela
