import OpenTela.Snapshot.Writer
import OpenTela.Swim.Records

namespace OpenTela.Snapshot

open OpenTela.Swim (PeerID MemberEvent MemberState MemberStatus SWIM SwimOp Turn Chance)

inductive RoleType where
  | worker
  | head
  | relay
  | unknown
  deriving DecidableEq

def RoleType.names : RoleType → List String
  | .worker => ["worker"]
  | .head => ["head"]
  | .relay => ["relay"]
  | .unknown => []

/-- What rides on an event, decoded. -/
structure Metadata where
  role : RoleType
  identityGroups : List String
  activeRequests : UInt16
  regionHint : UInt16

/-- Any other status leaves the type at its zero value, which is that of a join. -/
def eventType : MemberStatus → EventType
  | .join => .swimJoin
  | .alive => .swimAlive
  | .suspect => .swimSuspect
  | .dead => .swimDead
  | .unknown => .swimJoin

variable {ι : Type}

def nodeEvent (ev : MemberEvent) (now : ℤ) (metadata : Option Metadata) : NodeEvent ι :=
  { type := eventType ev.status
    peerID := ev.peer
    timestamp := now
    peerData := metadata.map (fun m =>
      { role := m.role.names, identityGroups := m.identityGroups, activeRequests := m.activeRequests, regionHint := m.regionHint }) }

def swimChanSize : ℕ := 1024

/-- A node's membership, the events on the way to the table, and its writer. `unsent` are the
deaths that `processSuspects` has found and not sent yet. -/
structure Bridge (ι : Type) where
  swim : SWIM
  unsent : List MemberEvent := []
  writer : Writer ι := {}

/-- What sends to a full channel is dropped. -/
def capped (s : SWIM) : SWIM := { s with eventCh := s.eventCh.take swimChanSize }

namespace Bridge

inductive Act (ι : Type) where
  | turn (t : Turn)
  | emit
  | forward (now : ℤ) (metadata : Option Metadata)
  | write (s : Writer.Step ι)

/-- Only `processSuspects` sends on its own, and only the forwarding goroutine feeds the writer. -/
def step (b : Bridge ι) : Act ι → Bridge ι
  | .turn t =>
    match t.op with
    | .emit _ => b
    | .processSuspects =>
      { b with swim := capped (b.swim.turn t), unsent := b.unsent ++ (b.swim.processSuspects t.chance.now t.chance.order).1.1 }
    | _ => { b with swim := capped (b.swim.turn t) }
  | .emit =>
    match b.unsent with
    | [] => b
    | ev :: rest => { b with swim := capped (b.swim.emit ev), unsent := rest }
  | .forward now metadata =>
    match b.swim.eventCh with
    | [] => b
    | ev :: rest => { b with swim := { b.swim with eventCh := rest }, writer := b.writer.send (nodeEvent ev now metadata) }
  | .write (.send _) => b
  | .write s => { b with writer := b.writer.step s }

def run (b : Bridge ι) (acts : List (Act ι)) : Bridge ι := acts.foldl step b

/-- Every event has made its way into the table. -/
def Applied (b : Bridge ι) : Prop := b.unsent = [] ∧ b.swim.eventCh = [] ∧ b.writer.events = [] ∧ b.writer.batch = []

def Connected (b : Bridge ι) (p : PeerID) : Prop := ∃ r, b.writer.table.peers.lookup p = some r ∧ r.connected = true

def Member (b : Bridge ι) (p : PeerID) : Prop := ∃ m, b.swim.members.lookup p = some m

/-- An act that can put a peer into the member table: its `AddMember`, or an `Alive` or `Join` about it. -/
def Act.admits (a : Act ι) (self : PeerID) (p : PeerID) : Prop :=
  ∃ t, a = .turn t ∧ (t.op = .addMember p ∨
    p ≠ self ∧ ∃ events, t.op = .processEvents events ∧ ∃ e ∈ events, e.peer = p ∧ (e.status = .alive ∨ e.status = .join))

end Bridge

section Deaths

/-- Nothing but deaths is on its way to the table. -/
structure Bridge.Deadly (b : Bridge ι) : Prop where
  unsent : ∀ ev ∈ b.unsent, ev.status = .dead
  queued : ∀ ev ∈ b.swim.eventCh, ev.status = .dead
  sent : ∀ e ∈ b.writer.sent, e.type = .swimDead
  sound : b.writer.Sound

theorem markSuspects_eventCh (now : ℤ) (seqs : List ℕ) (s : SWIM) :
    (seqs.foldl (SWIM.markSuspect now) s).eventCh = s.eventCh := by
  refine List.foldlRecOn (motive := fun s' : SWIM => s'.eventCh = s.eventCh) seqs _ rfl (fun s' same seq _ => ?_)
  rw [← same]
  unfold SWIM.markSuspect
  split <;> rfl

theorem prepareIndirects_eventCh (now : ℤ) (shuffle : ℕ → PeerID → ℕ) (seqs : List ℕ) (work : List SWIM.IndirectWork × SWIM) :
    (seqs.foldl (SWIM.prepareIndirect now shuffle) work).2.eventCh = work.2.eventCh := by
  refine List.foldlRecOn (motive := fun work' : List SWIM.IndirectWork × SWIM => work'.2.eventCh = work.2.eventCh) seqs _ rfl (fun work' same seq _ => ?_)
  rw [← same]
  unfold SWIM.prepareIndirect
  split <;> rfl

theorem buries_eventCh (dead : List MemberEvent) (s : SWIM) : (dead.foldl SWIM.bury s).eventCh = s.eventCh :=
  List.foldlRecOn (motive := fun s' : SWIM => s'.eventCh = s.eventCh) dead _ rfl (fun _ same _ _ => same)

/-- An event that is processed is sent on only when it is a death. -/
theorem processEvent_eventCh (now : ℤ) (s : SWIM) (e : MemberEvent) :
    ∀ ev ∈ (SWIM.processEvent now s e).eventCh, ev ∈ s.eventCh ∨ ev.status = .dead := by
  intro ev member
  unfold SWIM.processEvent at member
  split at member
  · split at member
    · exact Or.inl member
    · exact Or.inl member
  · rw [s.noteDeath e] at member
    dsimp only at member
    split at member
    · unfold SWIM.meet at member
      split at member
      · exact Or.inl member
      · exact Or.inl member
    · split at member
      · exact Or.inl member
      · change ev ∈ (SWIM.accept now { s with history := e.death ++ s.history } e).eventCh at member
        unfold SWIM.accept at member
        split at member
        · exact Or.inl member
        · exact Or.inl member
        · exact Or.inl member
        · rename_i dead
          rcases List.mem_append.mp member with before | last
          · exact Or.inl before
          · rw [List.mem_singleton.mp last]
            exact Or.inr dead
        · exact Or.inl member

theorem processEvents_eventCh (now : ℤ) (events : List MemberEvent) (s : SWIM) :
    ∀ ev ∈ (s.processEvents now events).eventCh, ev ∈ s.eventCh ∨ ev.status = .dead := by
  refine List.foldlRecOn (motive := fun s' : SWIM => ∀ ev ∈ s'.eventCh, ev ∈ s.eventCh ∨ ev.status = .dead) events _
    (fun ev member => Or.inl member) (fun s' known e _ ev member => ?_)
  rcases processEvent_eventCh now s' e ev member with before | dead
  · exact known ev before
  · exact Or.inr dead

theorem turn_eventCh (s : SWIM) (t : Turn) (unsent : ∀ ev, t.op ≠ .emit ev) :
    ∀ ev ∈ (s.turn t).eventCh, ev ∈ s.eventCh ∨ ev.status = .dead := by
  intro ev member
  unfold SWIM.turn at member
  cases op : t.op with
  | emit e => exact absurd op (unsent e)
  | processEvents events =>
    rw [op] at member
    exact processEvents_eventCh _ _ _ ev member
  | processPendingProbes =>
    rw [op] at member
    change ev ∈ (s.processPendingProbes t.chance.now t.chance.seqOrder t.chance.shuffle).2.eventCh at member
    unfold SWIM.processPendingProbes at member
    rw [prepareIndirects_eventCh, markSuspects_eventCh] at member
    exact Or.inl member
  | processSuspects =>
    rw [op] at member
    change ev ∈ (s.processSuspects t.chance.now t.chance.order).2.eventCh at member
    unfold SWIM.processSuspects at member
    rw [buries_eventCh] at member
    exact Or.inl member
  | probeOnce =>
    rw [op] at member
    change ev ∈ (s.probeOnce t.chance.now t.chance.pick).2.eventCh at member
    unfold SWIM.probeOnce at member
    split at member
    · exact Or.inl member
    · exact Or.inl member
  | ack seq =>
    rw [op] at member
    change ev ∈ (s.ack seq).2.eventCh at member
    unfold SWIM.ack at member
    split at member
    · exact Or.inl member
    · exact Or.inl member
  | addMember pid => rw [op] at member; exact Or.inl member
  | removeMember pid => rw [op] at member; exact Or.inl member
  | updateN n => rw [op] at member; exact Or.inl member
  | getPiggyback maxEvents => rw [op] at member; exact Or.inl member
  | pingReq requester seq => rw [op] at member; exact Or.inl member

theorem overdue_dead (s : SWIM) (now : ℤ) (order : PeerID → ℕ) : ∀ ev ∈ s.overdue now order, ev.status = .dead := by
  intro ev member
  obtain ⟨_, _, found⟩ := List.mem_filterMap.mp member
  obtain ⟨ms, _, given⟩ := Option.bind_eq_some_iff.mp found
  split at given
  · cases given
    rfl
  · cases given

theorem Writer.send_sent (w : Writer ι) (e : NodeEvent ι) : ∀ e' ∈ (w.send e).sent, e' ∈ w.sent ∨ e' = e := by
  intro e' member
  unfold Writer.send at member
  split at member
  · exact (List.mem_append.mp member).imp_right List.mem_singleton.mp
  · exact Or.inl member

theorem Writer.step_sent (w : Writer ι) (s : Writer.Step ι) (own : ∀ e, s ≠ .send e) : (w.step s).sent = w.sent := by
  cases s with
  | send e => exact absurd rfl (own e)
  | receive order =>
    simp only [Writer.step]
    split
    · split <;> rfl
    · rfl
  | tick order =>
    simp only [Writer.step]
    split <;> rfl
  | stop =>
    simp only [Writer.step]
    split <;> rfl
  | drain =>
    simp only [Writer.step]
    split <;> rfl
  | finish order =>
    simp only [Writer.step]
    split
    · split <;> rfl
    · rfl

namespace Bridge

variable {b : Bridge ι}

theorem Deadly.step (deadly : b.Deadly) (a : Act ι) : (b.step a).Deadly := by
  have capped_queued : ∀ s : SWIM, (∀ ev ∈ s.eventCh, ev ∈ b.swim.eventCh ∨ ev.status = .dead) →
      ∀ ev ∈ (capped s).eventCh, ev.status = .dead := by
    intro s from_before ev member
    exact (from_before ev (List.mem_of_mem_take member)).elim (deadly.queued ev) id
  cases a with
  | turn t =>
    cases op : t.op with
    | emit ev => simpa [Bridge.step, op] using deadly
    | processSuspects =>
      simp only [Bridge.step, op]
      exact { deadly with
        queued := capped_queued _ (turn_eventCh b.swim t (by simp [op]))
        unsent := fun ev member => (List.mem_append.mp member).elim (deadly.unsent ev) (overdue_dead _ _ _ ev) }
    | _ =>
      simp only [Bridge.step, op]
      exact { deadly with queued := capped_queued _ (turn_eventCh b.swim t (by simp [op])) }
  | emit =>
    simp only [Bridge.step]
    split
    · exact deadly
    · rename_i ev rest first
      have dead : ev.status = .dead := deadly.unsent ev (by rw [first]; exact List.mem_cons_self ..)
      refine { deadly with
        unsent := fun ev' member => deadly.unsent ev' (by rw [first]; exact List.mem_cons_of_mem _ member)
        queued := capped_queued _ (fun ev' member => ?_) }
      rcases List.mem_append.mp member with before | last
      · exact Or.inl before
      · rw [List.mem_singleton.mp last]
        exact Or.inr dead
  | forward now metadata =>
    simp only [Bridge.step]
    split
    · exact deadly
    · rename_i ev rest first
      have dead : ev.status = .dead := deadly.queued ev (by rw [first]; exact List.mem_cons_self ..)
      refine { deadly with
        queued := fun ev' member => deadly.queued ev' (by rw [first]; exact List.mem_cons_of_mem _ member)
        sent := fun e member => ?_
        sound := deadly.sound.send _ }
      rcases b.writer.send_sent _ e member with before | rfl
      · exact deadly.sent e before
      · simp [nodeEvent, eventType, dead]
  | write s =>
    have stepped : (∀ e, s ≠ .send e) → ({ b with writer := b.writer.step s } : Bridge ι).Deadly := fun own =>
      { deadly with sent := by rw [b.writer.step_sent s own]; exact deadly.sent, sound := deadly.sound.step s }
    cases s with
    | send e => exact deadly
    | _ => exact stepped (by simp)

theorem Deadly.run (deadly : b.Deadly) (acts : List (Act ι)) : (b.run acts).Deadly := by
  induction acts generalizing b with
  | nil => exact deadly
  | cons a rest ih => exact ih (deadly.step a)

theorem Deadly.start (self : PeerID) (config : Swim.Config) : ({ swim := .new self config } : Bridge ι).Deadly :=
  ⟨fun _ member => (List.not_mem_nil member).elim, fun _ member => (List.not_mem_nil member).elim,
    fun _ member => (List.not_mem_nil member).elim, Writer.Sound.start⟩

theorem foldl_dead (events : List (NodeEvent ι)) (dead : ∀ e ∈ events, e.type = .swimDead) {peers : Peers ι} {p : PeerID}
    (unknown : peers.lookup p = none) : (events.foldl applyEvent peers).lookup p = none := by
  refine List.foldlRecOn (motive := fun peers : Peers ι => peers.lookup p = none) events _ unknown (fun peers unknown e member => ?_)
  unfold applyEvent
  rw [dead e member]
  by_cases same : p = e.peerID
  · subst same
    exact AList.lookup_erase _ _
  · exact (AList.lookup_erase_ne same).trans unknown

/-- Deaths alone make no peer known to the table. -/
theorem Deadly.unconnected (deadly : b.Deadly) (p : PeerID) : ¬ b.Connected p := by
  rintro ⟨r, found, _⟩
  obtain ⟨done, split, peers⟩ := deadly.sound.shown
  have unknown : (done.foldl applyEvent ∅).lookup p = none :=
    foldl_dead done (fun e member => deadly.sent e (by simp [split, member])) rfl
  rw [← peers, found] at unknown
  cases unknown

end Bridge

end Deaths

section Membership

variable {now : ℤ} {s : SWIM} {p : PeerID}

theorem markSuspects_unknown (seqs : List ℕ) (unknown : s.members.lookup p = none) :
    (seqs.foldl (SWIM.markSuspect now) s).members.lookup p = none := by
  refine List.foldlRecOn (motive := fun s' : SWIM => s'.members.lookup p = none) seqs _ unknown (fun s' unknown seq _ => ?_)
  unfold SWIM.markSuspect
  split
  · exact unknown
  · rename_i pp _
    cases known : s'.members.lookup pp.target with
    | none => exact unknown
    | some ms =>
      have different : p ≠ pp.target := fun same => by
        rw [← same, unknown] at known
        cases known
      exact (AList.lookup_insert_ne different).trans unknown

theorem prepareIndirects_members (shuffle : ℕ → PeerID → ℕ) (seqs : List ℕ) (work : List SWIM.IndirectWork × SWIM) :
    (seqs.foldl (SWIM.prepareIndirect now shuffle) work).2.members = work.2.members := by
  refine List.foldlRecOn (motive := fun work' : List SWIM.IndirectWork × SWIM => work'.2.members = work.2.members) seqs _ rfl (fun work' same seq _ => ?_)
  rw [← same]
  unfold SWIM.prepareIndirect
  split <;> rfl

theorem buries_unknown (dead : List MemberEvent) (unknown : s.members.lookup p = none) :
    (dead.foldl SWIM.bury s).members.lookup p = none := by
  refine List.foldlRecOn (motive := fun s' : SWIM => s'.members.lookup p = none) dead _ unknown (fun s' unknown ev _ => ?_)
  by_cases same : p = ev.peer
  · subst same
    exact AList.lookup_erase _ _
  · exact (AList.lookup_erase_ne same).trans unknown

theorem processEvent_unknown {e : MemberEvent} (unadmitted : p ≠ s.self → e.peer = p → ¬ (e.status = .alive ∨ e.status = .join))
    (unknown : s.members.lookup p = none) : (SWIM.processEvent now s e).members.lookup p = none := by
  unfold SWIM.processEvent
  split
  · split <;> exact unknown
  · rename_i other
    rw [s.noteDeath e]
    dsimp only
    by_cases same : p = e.peer
    · subst same
      rw [unknown]
      dsimp only
      rw [SWIM.meet_eq_self _ (unadmitted (Ne.symm (Ne.symm other)) rfl)]
      exact unknown
    · split
      · unfold SWIM.meet
        split
        · exact (AList.lookup_insert_ne same).trans unknown
        · exact unknown
      · split
        · exact unknown
        · exact (SWIM.accept_lookup_ne _ now same).trans unknown

theorem processEvents_unknown {events : List MemberEvent}
    (unadmitted : p ≠ s.self → ∀ e ∈ events, e.peer = p → ¬ (e.status = .alive ∨ e.status = .join))
    (unknown : s.members.lookup p = none) : (s.processEvents now events).members.lookup p = none := by
  induction events generalizing s with
  | nil => exact unknown
  | cons e rest ih =>
    have self := s.processEvent_self now e
    exact ih (fun other e' member => unadmitted (self ▸ other) e' (List.mem_cons_of_mem _ member))
      (processEvent_unknown (fun other => unadmitted other e (List.mem_cons_self ..)) unknown)

/-- A peer that is in no table and is not admitted by a turn is in no table after it. -/
theorem turn_unknown {t : Turn} (unadmitted : ¬ (Bridge.Act.turn t : Bridge.Act ι).admits s.self p)
    (unknown : s.members.lookup p = none) : (s.turn t).members.lookup p = none := by
  unfold SWIM.turn
  cases op : t.op with
  | addMember pid =>
    have different : p ≠ pid := fun same => unadmitted ⟨t, rfl, Or.inl (by rw [op, same])⟩
    exact (AList.lookup_insert_ne different).trans unknown
  | removeMember pid =>
    by_cases same : p = pid
    · subst same
      exact AList.lookup_erase _ _
    · exact (AList.lookup_erase_ne same).trans unknown
  | processEvents events =>
    refine processEvents_unknown (fun other e member here added => ?_) unknown
    exact unadmitted ⟨t, rfl, Or.inr ⟨other, events, op, e, member, here, added⟩⟩
  | processPendingProbes =>
    change (s.processPendingProbes t.chance.now t.chance.seqOrder t.chance.shuffle).2.members.lookup p = none
    unfold SWIM.processPendingProbes
    rw [prepareIndirects_members]
    exact markSuspects_unknown _ unknown
  | processSuspects => exact buries_unknown _ unknown
  | probeOnce =>
    change (s.probeOnce t.chance.now t.chance.pick).2.members.lookup p = none
    unfold SWIM.probeOnce
    split <;> exact unknown
  | ack seq =>
    change (s.ack seq).2.members.lookup p = none
    unfold SWIM.ack
    split <;> exact unknown
  | updateN n => exact unknown
  | emit ev => exact unknown
  | getPiggyback maxEvents => exact unknown
  | pingReq requester seq => exact unknown

end Membership

namespace Bridge

variable {b : Bridge ι} {p : PeerID}

theorem step_self (b : Bridge ι) (a : Act ι) : (b.step a).swim.self = b.swim.self := by
  cases a with
  | turn t =>
    have same : (b.swim.turn t).self = b.swim.self := (b.swim.turn_moves t).self
    cases op : t.op with
    | emit ev => simp only [step, op]
    | _ =>
      simp only [step, op]
      exact same
  | emit =>
    simp only [step]
    split <;> rfl
  | forward now metadata =>
    simp only [step]
    split <;> rfl
  | write s => cases s <;> rfl

theorem step_unknown {a : Act ι} (unadmitted : ¬ a.admits b.swim.self p) (unknown : b.swim.members.lookup p = none) :
    (b.step a).swim.members.lookup p = none := by
  cases a with
  | turn t =>
    have after := turn_unknown unadmitted unknown
    cases op : t.op with
    | emit ev => simpa [step, op] using unknown
    | _ =>
      simp only [step, op]
      exact after
  | emit =>
    simp only [step]
    split <;> exact unknown
  | forward now metadata =>
    simp only [step]
    split <;> exact unknown
  | write s => cases s <;> exact unknown

theorem run_unknown (acts : List (Act ι)) (unadmitted : ∀ a ∈ acts, ¬ a.admits b.swim.self p)
    (unknown : b.swim.members.lookup p = none) : (b.run acts).swim.members.lookup p = none := by
  induction acts generalizing b with
  | nil => exact unknown
  | cons a rest ih =>
    refine ih (fun a' member => ?_) (step_unknown (unadmitted a (List.mem_cons_self ..)) unknown)
    rw [step_self]
    exact unadmitted a' (List.mem_cons_of_mem _ member)

end Bridge

/-- The table follows the membership of a peer as long as no act admits the peer, and in no state in
which the peer is a member: the only events that reach the table are deaths. -/
theorem routing_follows (self : PeerID) (config : Swim.Config) (p : PeerID) (acts : List (Bridge.Act ι)) :
    let b := ({ swim := .new self config } : Bridge ι).run acts
    ((∀ a ∈ acts, ¬ a.admits self p) → b.Applied → (b.Connected p ↔ b.Member p)) ∧
      ((b.Connected p ↔ b.Member p) ↔ ¬ b.Member p) := by
  intro b
  have unconnected : ¬ b.Connected p := ((Bridge.Deadly.start self config).run acts).unconnected p
  refine ⟨fun unadmitted _ => ?_, ?_⟩
  · have unknown : b.swim.members.lookup p = none := Bridge.run_unknown acts unadmitted rfl
    refine iff_of_false unconnected ?_
    rintro ⟨m, found⟩
    rw [unknown] at found
    cases found
  · rw [iff_false_left unconnected]

namespace Unrouted

def config : Swim.Config :=
  { probeTimeout := 500, indirectProbeTimeout := 500, indirectProbes := 3, suspectTimeout := 5000, retransmitLimit := fun n => n }

/-- A connection that is there at the start, and a join that is heard of. -/
def acts : List (Bridge.Act Unit) :=
  [.turn ⟨{}, .addMember "b"⟩, .turn ⟨{}, .processEvents [{ peer := "c", status := .join }, { peer := "d", status := .suspect }]⟩]

def bridge : Bridge Unit := ({ swim := .new "a" config } : Bridge Unit).run acts

end Unrouted

theorem routing_follows_unadmitted : Unrouted.bridge.Connected "d" ↔ Unrouted.bridge.Member "d" := by
  refine (routing_follows "a" Unrouted.config "d" Unrouted.acts).1 (fun a member => ?_) ⟨rfl, rfl, rfl, rfl⟩
  rintro ⟨t, rfl, same | ⟨_, events, same, e, here, about, added⟩⟩
  · simp only [Unrouted.acts, List.mem_cons, List.not_mem_nil, or_false, Bridge.Act.turn.injEq] at member
    rcases member with rfl | rfl
    · exact absurd same (by decide)
    · exact absurd same (by decide)
  · simp only [Unrouted.acts, List.mem_cons, List.not_mem_nil, or_false, Bridge.Act.turn.injEq] at member
    rcases member with rfl | rfl
    · cases same
    · cases same
      simp only [List.mem_cons, List.not_mem_nil, or_false] at here
      rcases here with rfl | rfl
      · exact absurd about (by decide)
      · exact absurd added (by decide)

/-- Both are members, and every event has been applied: none was sent. -/
theorem members_unrouted :
    Unrouted.bridge.Applied ∧ Unrouted.bridge.Member "b" ∧ Unrouted.bridge.Member "c" ∧
      ¬ Unrouted.bridge.Connected "b" ∧ ¬ Unrouted.bridge.Connected "c" := by
  have nobody : ∀ p, ¬ Unrouted.bridge.Connected p := by
    rintro p ⟨r, found, _⟩
    cases found
  exact ⟨⟨rfl, rfl, rfl, rfl⟩, ⟨.alive 0, by decide⟩, ⟨.alive 0, by decide⟩, nobody "b", nobody "c"⟩

end OpenTela.Snapshot
