import OpenTela.Lib.Crew
import OpenTela.NodeTable.Discipline

namespace OpenTela

open Prog

/-- A notification of the network about one of the connections to a peer. -/
inductive Notice where
  | opened (conn : ℕ)
  | closed (conn : ℕ)

def Notice.opens : Notice → Bool
  | .opened _ => true
  | .closed _ => false

/-- The callback that a notification starts in a goroutine of its own. -/
def Notice.callback (node : Node) (id : String) : Notice → TableM Unit
  | .opened _ => connectedF node id
  | .closed _ => disconnectedF node id

/-- The connections that are open after the notifications. -/
def openAfter (conns : List ℕ) : List Notice → List ℕ
  | [] => conns
  | .opened conn :: rest => openAfter (conn :: conns) rest
  | .closed conn :: rest => openAfter (conns.erase conn) rest

/-- The notifications about one peer, and their callbacks on the node table. -/
def callbacks (node : Node) (clock : ℕ → ℤ) (id : String) :
    System TableOp TableOp.Res String (TableWorld ℕ) Unit Notice where
  exec := fun i _ => execTable clock i
  starts := fun _ => []
  body := Notice.callback node id
  entry := fun _ => true

abbrev Callbacks := Prog.Crew TableOp TableOp.Res String (TableWorld ℕ) Notice

/-- The notifications so far. -/
def Callbacks.notices (c : Callbacks) : List Notice := c.threads.map Thread.task

def Callbacks.start (table : NodeTable) (ticks : ℕ) : Callbacks := ⟨{ table, ticks, history := [] }, []⟩

/-- A row of the key that was written, and by whom. -/
def TableEvent.writes {τ : Type} (key : Key) : TableEvent τ → Option (τ × Peer)
  | .read .. => none
  | .wrote i k p => if k = key then some (i, p) else none

def lastWrite {τ : Type} (history : List (TableEvent τ)) (key : Key) : Option (τ × Peer) :=
  (history.filterMap (TableEvent.writes key)).getLast?

/-- The callback to write the row last is one for an opened connection; if none has
written it, the row was connected before. -/
def Callbacks.lastOpens (c : Callbacks) (id : String) (row : Peer) : Bool :=
  match lastWrite c.state.history (peerKey id) with
  | none => row.connected
  | some (i, _) => c.notices[i]?.elim false Notice.opens

/-- The row is the last one written, as its callback wants it. -/
structure Callbacks.Tracks (id : String) (row : Peer) (c : Callbacks) : Prop where
  row : c.state.table.lookup (peerKey id) = some (((lastWrite c.state.history (peerKey id)).map Prod.snd).getD row)
  wrote : ∀ i p, (i, p) ∈ c.state.history.filterMap (TableEvent.writes (peerKey id)) →
    p.status ≠ LEFT ∧ ∃ notice, c.notices[i]? = some notice ∧ p.connected = notice.opens

section Discipline

variable {id : String}

/-- The row of the peer is there, and it has not left. -/
def found (id : String) : (o : TableOp) → o.Res → Prop
  | .get key, r => key = peerKey id → ∃ p : Peer, r = some p ∧ p.status ≠ LEFT
  | _, _ => True

/-- Only this row is written, with this flag, and not as that of a peer that has left. -/
def Notice.safe (id : String) (notice : Notice) : TableOp → Prop
  | .record key p => key = peerKey id ∧ p.status ≠ LEFT ∧ p.connected = notice.opens
  | .remove _ => False
  | _ => True

theorem Notice.callback_minds (node : Node) (notice : Notice) :
    Minds (found id) (notice.safe id) (notice.callback node id) := by
  have write : ∀ p : Peer, p.status ≠ LEFT → p.connected = notice.opens →
      Minds (found id) (notice.safe id) (hookRecord node (peerKey id) p.published) := by
    intro p stays flag
    refine hookRecord_minds (fun _ => trivial) (fun q vetted => ?_)
    rw [vetted_fields vetted]
    exact ⟨rfl, stays, flag⟩
  cases notice with
  | opened conn =>
    simp only [Notice.callback, connectedF]
    split
    · trivial
    · intro row here
      obtain ⟨p, rfl, stays⟩ := here rfl
      exact ⟨trivial, fun t _ => ⟨trivial, write { p with connected := true, lastSeen := t } stays rfl⟩⟩
  | closed conn =>
    simp only [Notice.callback, disconnectedF]
    split
    · trivial
    · intro row here
      obtain ⟨p, rfl, stays⟩ := here rfl
      exact ⟨trivial, write { p with connected := false } stays rfl⟩

end Discipline

section Runs

variable {node : Node} {clock : ℕ → ℤ} {id : String} {row : Peer} {c : Callbacks}

theorem lastWrite_silent {τ : Type} (history : List (TableEvent τ)) {new : List (TableEvent τ)} {key : Key}
    (none : ∀ e ∈ new, e.writes key = none) : lastWrite (history ++ new) key = lastWrite history key := by
  have nothing : new.filterMap (TableEvent.writes key) = [] := List.filterMap_eq_nil_iff.mpr none
  rw [lastWrite, lastWrite, List.filterMap_append, nothing, List.append_nil]

/-- The row that is found has not left, if the first one had not. -/
theorem Callbacks.Tracks.stays (tracks : c.Tracks id row) (stays : row.status ≠ LEFT) :
    ∃ p, c.state.table.lookup (peerKey id) = some p ∧ p.status ≠ LEFT := by
  refine ⟨_, tracks.row, ?_⟩
  cases last : lastWrite c.state.history (peerKey id) with
  | none => exact stays
  | some write => exact (tracks.wrote write.1 write.2 (List.mem_of_getLast? last)).1

theorem Callbacks.Tracks.enter (tracks : c.Tracks id row) (notice : Notice) :
    Callbacks.Tracks id row ⟨c.state, c.threads ++ [(callbacks node clock id).start notice]⟩ := by
  refine ⟨tracks.row, fun i p member => ?_⟩
  obtain ⟨stays, other, here, flag⟩ := tracks.wrote i p member
  refine ⟨stays, other, ?_, flag⟩
  have bound : i < c.notices.length := (List.getElem?_eq_some_iff.mp here).choose
  simp only [Callbacks.notices, List.map_append] at here bound ⊢
  rw [List.getElem?_append_left bound]
  exact here

theorem Callbacks.notices_after {i : ℕ} {notice : Notice} {p q : TableM Unit} {s : TableWorld ℕ}
    (present : c.threads[i]? = some ⟨notice, p⟩) : Callbacks.notices (c.after i s ⟨notice, q⟩ []) = c.notices := by
  have same : (c.threads.map Thread.task)[i]? = some notice := by rw [List.getElem?_map, present, Option.map_some]
  obtain ⟨bound, value⟩ := List.getElem?_eq_some_iff.mp same
  simp only [Callbacks.notices, Crew.after, List.append_nil, List.map_set]
  rw [← value]
  exact List.set_getElem_self bound

/-- One step of a callback: it leaves the row alone, or writes it as it wants it. -/
theorem Callbacks.Tracks.step (tracks : c.Tracks id row) {i : ℕ} {notice : Notice} {o : TableOp} {r : o.Res}
    {next : o.Res → TableM Unit} {s : TableWorld ℕ} (present : c.threads[i]? = some ⟨notice, .op o next⟩)
    (executed : execTable clock i o c.state = some (r, s)) (safe : notice.safe id o) :
    Callbacks.Tracks id row (c.after i s ⟨notice, next r⟩ []) := by
  have notices := Callbacks.notices_after (q := next r) (s := s) present
  have silent : ∀ new, s.table = c.state.table → s.history = c.state.history ++ new →
      (∀ e ∈ new, e.writes (peerKey id) = none) → Callbacks.Tracks id row (c.after i s ⟨notice, next r⟩ []) := by
    intro new table history none
    refine ⟨?_, fun j p member => ?_⟩
    · rw [Crew.after_state, table, history, lastWrite_silent _ none]
      exact tracks.row
    · rw [Crew.after_state, history, List.filterMap_append, List.filterMap_eq_nil_iff.mpr none, List.append_nil] at member
      rw [notices]
      exact tracks.wrote j p member
  cases o with
  | get key =>
    obtain ⟨_, rfl⟩ := Prod.mk.inj (Option.some.inj executed)
    exact silent [.read i key] rfl rfl (by simp [TableEvent.writes])
  | knownHead _ | now =>
    obtain ⟨_, rfl⟩ := Prod.mk.inj (Option.some.inj executed)
    exact silent [] rfl (by simp) (by simp)
  | remove key => exact safe.elim
  | record key p =>
    obtain ⟨rfl, stays, flag⟩ := safe
    obtain ⟨_, rfl⟩ := Prod.mk.inj (Option.some.inj executed)
    have written : (c.state.recorded clock i (peerKey id) p).history.filterMap (TableEvent.writes (peerKey id)) =
        c.state.history.filterMap (TableEvent.writes (peerKey id)) ++
          [(i, stored (c.state.table.lookup (peerKey id)) p (clock c.state.ticks))] := by
      simp [TableWorld.recorded, TableEvent.writes]
    have kept : (stored (c.state.table.lookup (peerKey id)) p (clock c.state.ticks)).status ≠ LEFT ∧
        (stored (c.state.table.lookup (peerKey id)) p (clock c.state.ticks)).connected = notice.opens := by
      simp only [stored, if_neg stays]
      exact ⟨stays, flag⟩
    refine ⟨?_, fun j q member => ?_⟩
    · rw [Crew.after_state, lastWrite, written, List.getLast?_append_of_ne_nil _ (List.cons_ne_nil _ _)]
      exact AList.lookup_insert _
    · rw [Crew.after_state, written] at member
      rw [notices]
      rcases List.mem_append.mp member with old | new
      · exact tracks.wrote j q old
      · obtain ⟨rfl, rfl⟩ := Prod.mk.inj (List.mem_singleton.mp new)
        refine ⟨kept.1, notice, ?_, kept.2⟩
        rw [Callbacks.notices, List.getElem?_map, present]
        rfl

end Runs

/-- At every moment, and so once all callbacks have run, the row says whether a connection is
open exactly when the callback that wrote it last does. -/
theorem connected_follows_last (node : Node) (clock : ℕ → ℤ) (id : String) (table : NodeTable) (ticks : ℕ) (row : Peer)
    (present : table.lookup (peerKey id) = some row) (stays : row.status ≠ LEFT) (conns : List ℕ) (c : Callbacks)
    (reach : Crew.Reach (callbacks node clock id) Crew.Anyhow (Callbacks.start table ticks) c) :
    ∃ p, c.state.table.lookup (peerKey id) = some p ∧
      ((p.connected = true ↔ openAfter conns c.notices ≠ []) ↔
        (c.lastOpens id row = true ↔ openAfter conns c.notices ≠ [])) := by
  have tracks : c.Tracks id row := by
    have begins : Callbacks.Tracks id row (Callbacks.start table ticks) := by
      refine ⟨present, fun i p none => ?_⟩
      cases none
    refine reach.keeps (found id) (Notice.safe id) (Callbacks.Tracks id row) (fun t none => nomatch none) begins
      (fun notice _ => Notice.callback_minds node notice) ?_ (fun c notice tracks => tracks.enter notice)
      (fun c i _ notice o next r s tracks here executed _ safe => tracks.step here executed safe)
    intro c i _ o r s tracks executed
    cases o with
    | get key =>
      rintro rfl
      obtain ⟨p, here, stays⟩ := tracks.stays stays
      obtain ⟨rfl, _⟩ := Prod.mk.inj (Option.some.inj executed)
      exact ⟨p, here, stays⟩
    | _ => trivial
  refine ⟨_, tracks.row, ?_⟩
  have same : (((lastWrite c.state.history (peerKey id)).map Prod.snd).getD row).connected = c.lastOpens id row := by
    unfold Callbacks.lastOpens
    cases last : lastWrite c.state.history (peerKey id) with
    | none => rfl
    | some write =>
      obtain ⟨_, notice, here, flag⟩ := tracks.wrote write.1 write.2 (List.mem_of_getLast? last)
      simp only [here]
      exact flag
  rw [same]

namespace Relayed

def node : Node where
  myID := "me"
  crypto := { base58 := fun _ => none, base64 := fun _ => none, hex := fun _ => none, identityPayload := fun _ _ _ => [],
              verify := fun _ _ _ => false }
  unmarshal := fun _ => { id := "worker" }

def clock : ℕ → ℤ := fun _ => 1700000010

def row : Peer := { id := "worker", service := [{ name := "llm" }], lastSeen := 1700000000 }

def table : NodeTable := AList.insert ["worker"] row ∅

def run (schedule : List (Crew.Move Unit Notice)) : Callbacks :=
  (Callbacks.start table 0).play (callbacks node clock "worker") (fun _ _ => true) schedule

theorem reach (schedule : List (Crew.Move Unit Notice)) :
    Crew.Reach (callbacks node clock "worker") Crew.Anyhow (Callbacks.start table 0) (run schedule) :=
  .of_play (fun _ _ => true) (fun _ _ _ _ _ _ => trivial) schedule .start

/-- A relayed connection is opened, and its callback runs. -/
def relayed : List (Crew.Move Unit Notice) := [.enter (.opened 1), .act 0 (), .act 0 (), .act 0 ()]

/-- A direct one is opened as well, and the relayed one is closed. -/
def upgraded : List (Crew.Move Unit Notice) :=
  relayed ++ [.enter (.opened 2), .act 1 (), .act 1 (), .act 1 (), .enter (.closed 1), .act 2 (), .act 2 ()]

end Relayed

open Relayed in
/-- With one connection the flag follows it. -/
theorem connected_follows_last_relayed :
    ∃ p, (run relayed).state.table.lookup ["worker"] = some p ∧ (∀ t ∈ (run relayed).threads, t.prog.Ended) ∧
      openAfter [] (run relayed).notices = [1] ∧ p.connected = true := by
  obtain ⟨p, found, exact⟩ := connected_follows_last node clock "worker" table 0 row (by decide) (by decide) []
    (run relayed) (reach relayed)
  have opened : openAfter [] (run relayed).notices = [1] := by decide
  have last : (run relayed).lastOpens "worker" row = true := by decide
  refine ⟨p, found, by decide, opened, ?_⟩
  rw [last, opened] at exact
  simpa using exact

open Relayed in
/-- One of two connections is closed, and the peer is marked disconnected. -/
theorem connected_lost : ¬ ∀ (node : Node) (clock : ℕ → ℤ) (id : String) (table : NodeTable) (ticks : ℕ) (row : Peer) (conns : List ℕ)
    (c : Callbacks), table.lookup (peerKey id) = some row → row.status ≠ LEFT → (row.connected = true ↔ conns ≠ []) →
    Crew.Reach (callbacks node clock id) Crew.Anyhow (Callbacks.start table ticks) c → (∀ t ∈ c.threads, t.prog.Ended) →
    ∃ p, c.state.table.lookup (peerKey id) = some p ∧ (p.connected = true ↔ openAfter conns c.notices ≠ []) := by
  intro always
  obtain ⟨p, found, follows⟩ := always node clock "worker" table 0 row [] (run upgraded) (by decide) (by decide) (by decide)
    (reach upgraded) (by decide)
  have marked : ((run upgraded).state.table.lookup (peerKey "worker")).map Peer.connected = some false := by decide
  have opened : openAfter [] (run upgraded).notices = [2] := by decide
  rw [found, Option.map_some, Option.some.injEq] at marked
  rw [marked, opened] at follows
  exact absurd (follows.mpr (by simp)) (by simp)

end OpenTela
