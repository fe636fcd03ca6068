import OpenTela.Swim.Limits
import OpenTela.Swim.Records

namespace OpenTela.Swim

open Prog

/-- Nothing in the state of a node is longer than this. -/
structure SWIM.Short (idBytes metaBytes : ℕ) (s : SWIM) : Prop where
  entries : s.disseminator.entries.All (fun _ entry => entry.event.Short idBytes metaBytes)
  members : s.members.All (fun p m => (PeerID.bytes p).length ≤ idBytes ∧ m.incarnation < wordSize)
  probes : s.pendingProbes.All (fun seq pp => seq < wordSize ∧ (PeerID.bytes pp.target).length ≤ idBytes)
  relays : s.pendingRelays.All (fun _ relay => relay.originalSeq < wordSize)

section Buffer

variable {idBytes metaBytes : ℕ} {d : Disseminator}

theorem Disseminator.enqueue_short (short : d.entries.All (fun _ entry => entry.event.Short idBytes metaBytes)) {e : MemberEvent}
    (new : e.Short idBytes metaBytes) : (d.enqueue e).entries.All (fun _ entry => entry.event.Short idBytes metaBytes) := by
  intro p entry found
  rw [d.lookup_enqueue] at found
  split at found
  · cases found
    exact new
  · exact short p entry found

theorem Disseminator.getPiggyback_short (short : d.entries.All (fun _ entry => entry.event.Short idBytes metaBytes))
    (order : PeerID → ℕ) (n : ℕ) : (d.getPiggyback order n).2.entries.All (fun _ entry => entry.event.Short idBytes metaBytes) := by
  obtain ⟨taken, spent, entries, g, after⟩ := d.getPiggyback_gathered order n
  intro p entry found
  rw [after] at found
  split at found
  · cases found
  · have left := g.left p
    rw [found] at left
    obtain ⟨old, here, same⟩ := Option.map_eq_some_iff.mp left.symm
    have short := short p old here
    subst same
    split
    · exact short
    · exact short

/-- A message that is itself short has room for any five events of a short buffer. -/
theorem Disseminator.room_of_short (short : d.entries.All (fun _ entry => entry.event.Short idBytes metaBytes))
    (bound : 405 + 6 * (4 * ((idBytes + 2) / 3)) + 5 * (4 * ((metaBytes + 2) / 3)) ≤ readLimit) {m : Message} (seq : m.seq < wordSize)
    (target : (PeerID.bytes m.target).length ≤ idBytes) : d.HasRoom 5 m := by
  intro peers _ few _
  have events : ∀ e ∈ peers.filterMap d.spreads, e.Short idBytes metaBytes := by
    intro e member
    obtain ⟨p, _, spread⟩ := List.mem_filterMap.mp member
    obtain ⟨entry, found, rfl⟩ := Option.map_eq_some_iff.mp spread
    exact short p entry found
  have fits := @Message.marshal_length_le idBytes metaBytes { m with events := peers.filterMap d.spreads } seq target
    ((List.length_filterMap_le _ _).trans few) events
  exact fits.trans bound

end Buffer

namespace SWIM

variable {idBytes metaBytes : ℕ} {s : SWIM}

theorem Short.enqueue (short : s.Short idBytes metaBytes) {e : MemberEvent} (new : e.Short idBytes metaBytes) :
    ({ s with disseminator := s.disseminator.enqueue e } : SWIM).Short idBytes metaBytes :=
  { short with entries := Disseminator.enqueue_short short.entries new }

theorem Short.put (short : s.Short idBytes metaBytes) {p : PeerID} {m : MemberState} (id : (PeerID.bytes p).length ≤ idBytes)
    (word : m.incarnation < wordSize) : ({ s with members := s.members.insert p m } : SWIM).Short idBytes metaBytes :=
  { short with members := short.members.insert ⟨id, word⟩ }

theorem Short.remove (short : s.Short idBytes metaBytes) (p : PeerID) :
    ({ s with members := s.members.erase p } : SWIM).Short idBytes metaBytes :=
  { short with members := short.members.erase p }

theorem succ_lt (n : ℕ) : succ n < wordSize := Nat.mod_lt _ (by decide)

theorem suspicion_short {pp : PendingProbe} (target : (PeerID.bytes pp.target).length ≤ idBytes) :
    (suspicion pp).Short idBytes metaBytes :=
  ⟨target, show 0 < wordSize by decide, Nat.zero_le _⟩

theorem Short.markSuspect (short : s.Short idBytes metaBytes) (now : ℤ) (seq : ℕ) :
    (markSuspect now s seq).Short idBytes metaBytes := by
  unfold SWIM.markSuspect
  split
  · exact short
  · rename_i pp found
    have target := (short.probes seq pp found).2
    refine ⟨Disseminator.enqueue_short short.entries (suspicion_short target), ?_, short.probes.erase seq, short.relays⟩
    dsimp only
    cases known : s.members.lookup pp.target with
    | none => exact short.members
    | some ms => exact short.members.insert (short.members pp.target ms known)

theorem Short.prepareIndirect {work : List IndirectWork × SWIM} (short : work.2.Short idBytes metaBytes) (now : ℤ)
    (shuffle : ℕ → PeerID → ℕ) (seq : ℕ) : (prepareIndirect now shuffle work seq).2.Short idBytes metaBytes := by
  unfold SWIM.prepareIndirect
  split
  · exact short
  · rename_i pp found
    exact { short with probes := short.probes.insert (short.probes seq pp found) }

theorem Short.processPendingProbes (short : s.Short idBytes metaBytes) (now : ℤ) (order : ℕ → ℕ) (shuffle : ℕ → PeerID → ℕ) :
    (s.processPendingProbes now order shuffle).2.Short idBytes metaBytes := by
  have marked : ((s.due now order .suspect).foldl (SWIM.markSuspect now) s).Short idBytes metaBytes :=
    List.foldlRecOn _ _ short (fun _ here seq _ => here.markSuspect now seq)
  exact List.foldlRecOn (motive := fun work : List IndirectWork × SWIM => work.2.Short idBytes metaBytes) _ _ marked
    (fun _ here seq _ => here.prepareIndirect now shuffle seq)

theorem Short.bury (short : s.Short idBytes metaBytes) {ev : MemberEvent} (new : ev.Short idBytes metaBytes) :
    (s.bury ev).Short idBytes metaBytes where
  entries := Disseminator.enqueue_short short.entries new
  members := short.members.erase ev.peer
  probes := short.probes
  relays := short.relays

theorem Short.overdue (short : s.Short idBytes metaBytes) (now : ℤ) (order : PeerID → ℕ) :
    ∀ ev ∈ s.overdue now order, ev.Short idBytes metaBytes := by
  intro ev member
  obtain ⟨pid, _, late⟩ := List.mem_filterMap.mp member
  obtain ⟨ms, found, late⟩ := Option.bind_eq_some_iff.mp late
  obtain ⟨id, word⟩ := short.members pid ms found
  split at late
  · cases late
    exact ⟨id, word, Nat.zero_le _⟩
  · cases late

theorem Short.processSuspects (short : s.Short idBytes metaBytes) (now : ℤ) (order : PeerID → ℕ) :
    (s.processSuspects now order).2.Short idBytes metaBytes :=
  List.foldlRecOn _ _ short (fun _ here ev member => here.bury (short.overdue now order ev member))

theorem Short.accept (short : s.Short idBytes metaBytes) (now : ℤ) {ev : MemberEvent} (new : ev.Short idBytes metaBytes) :
    (accept now s ev).Short idBytes metaBytes := by
  unfold SWIM.accept
  split
  · exact short.put new.peer new.incarnation
  · exact short.put new.peer new.incarnation
  · exact short.put new.peer new.incarnation
  · have resized : (s.resize (s.members.erase ev.peer)).Short idBytes metaBytes :=
      ⟨short.entries, short.members.erase ev.peer, short.probes, short.relays⟩
    exact { resized.enqueue new with }
  · exact short

theorem Short.processEvent (short : s.Short idBytes metaBytes) (now : ℤ) {ev : MemberEvent} (new : ev.Short idBytes metaBytes)
    (own : (PeerID.bytes s.self).length ≤ idBytes) : (processEvent now s ev).Short idBytes metaBytes := by
  unfold SWIM.processEvent
  split
  · split
    · have alive : ({ peer := s.self, status := .alive, incarnation := succ s.incarnation } : MemberEvent).Short idBytes metaBytes :=
        ⟨own, succ_lt _, Nat.zero_le _⟩
      exact { short.enqueue alive with }
    · exact short
  · have noted : (if ev.status = .dead then s.noting (.died ev.peer ev.incarnation) else s).Short idBytes metaBytes := by
      split
      · exact { short with }
      · exact short
    dsimp only
    generalize (if ev.status = .dead then s.noting (.died ev.peer ev.incarnation) else s) = t at noted ⊢
    split
    · unfold meet
      split
      · exact { noted with members := noted.members.insert ⟨new.peer, new.incarnation⟩ }
      · exact noted
    · split
      · exact noted
      · exact { noted.accept now new with }

theorem Short.processEvents (short : s.Short idBytes metaBytes) (now : ℤ) {events : List MemberEvent}
    (new : ∀ e ∈ events, e.Short idBytes metaBytes) (own : (PeerID.bytes s.self).length ≤ idBytes) :
    (s.processEvents now events).Short idBytes metaBytes := by
  have kept : ∀ t : SWIM, t.Short idBytes metaBytes ∧ t.self = s.self → ∀ e ∈ events,
      (SWIM.processEvent now t e).Short idBytes metaBytes ∧ (SWIM.processEvent now t e).self = s.self := by
    rintro t ⟨here, same⟩ e member
    exact ⟨here.processEvent now (new e member) (same ▸ own), (processEvent_self t now e).trans same⟩
  exact (List.foldlRecOn (motive := fun t : SWIM => t.Short idBytes metaBytes ∧ t.self = s.self) events _ ⟨short, rfl⟩ kept).1

/-- What a critical section at a node is handed is short. -/
def Given (idBytes metaBytes : ℕ) (self : PeerID) : SwimOp → Prop
  | .addMember pid => (PeerID.bytes pid).length ≤ idBytes
  | .pingReq _ originalSeq => originalSeq < wordSize
  | .processEvents events => (PeerID.bytes self).length ≤ idBytes ∧ ∀ e ∈ events, e.Short idBytes metaBytes
  | _ => True

theorem Short.exec (short : s.Short idBytes metaBytes) (c : Chance) {o : SwimOp} (given : Given idBytes metaBytes s.self o) :
    (SWIM.exec c o s).2.Short idBytes metaBytes := by
  cases o with
  | addMember pid => exact { short with members := short.members.insert ⟨given, show 0 < wordSize by decide⟩ }
  | removeMember pid => exact { short.remove pid with }
  | probeOnce =>
    change (s.probeOnce c.now c.pick).2.Short idBytes metaBytes
    unfold SWIM.probeOnce
    split
    · exact short
    · rename_i target picked
      obtain ⟨m, id, _⟩ := short.members.of_mem_keys (List.mem_of_getElem? picked)
      exact { short with probes := short.probes.insert ⟨succ_lt _, id⟩ }
  | processPendingProbes => exact short.processPendingProbes c.now c.seqOrder c.shuffle
  | processSuspects => exact short.processSuspects c.now c.order
  | updateN n => exact { short with }
  | emit ev => exact { short with }
  | getPiggyback n => exact { short with entries := Disseminator.getPiggyback_short short.entries c.order n }
  | ack seq =>
    change (s.ack seq).2.Short idBytes metaBytes
    unfold SWIM.ack
    split
    · exact { short with relays := short.relays.erase seq }
    · exact { short with probes := short.probes.erase seq }
  | pingReq requester originalSeq => exact { short with relays := short.relays.insert given }
  | processEvents events => exact short.processEvents c.now given.2 given.1

end SWIM

/-- What a thread got and is about to send is short. -/
structure Plan.Short (idBytes metaBytes : ℕ) (k : Plan) : Prop where
  dest : ∀ p ∈ k.got, (PeerID.bytes p.dest).length ≤ idBytes
  seq : ∀ p ∈ k.got, p.message.seq < wordSize
  target : ∀ p ∈ k.got, (PeerID.bytes p.message.target).length ≤ idBytes
  events : ∀ p ∈ k.got, ∀ e ∈ p.message.events, e.Short idBytes metaBytes
  bare : ∀ p ∈ k.bare, p.message.seq < wordSize ∧ (PeerID.bytes p.message.target).length ≤ idBytes

section Plan

variable {idBytes metaBytes : ℕ} {k : Plan} {s : SWIM}

/-- A message other than a `PingReq` has no target. -/
theorem no_target : (PeerID.bytes "").length ≤ idBytes := Nat.zero_le _

theorem Plan.Short.learn (short : k.Short idBytes metaBytes) (node : s.Short idBytes metaBytes) (self : PeerID) (c : Chance) (o : SwimOp) :
    (k.learn (.swim self o) (SWIM.exec c o s).1).Short idBytes metaBytes := by
  cases o with
  | addMember | removeMember | processSuspects | updateN | emit | processEvents => exact short
  | getPiggyback n => exact { short with }
  | probeOnce =>
    refine { short with bare := fun p member => ?_ }
    obtain ⟨⟨target, seq⟩, picked, rfl⟩ := List.mem_map.mp member
    have begun := (s.probeOnce_some c.now (Prod.ext (Option.mem_toList.mp picked) rfl)).1
    exact ⟨begun ▸ SWIM.succ_lt _, no_target⟩
  | processPendingProbes =>
    refine { short with bare := fun p member => ?_ }
    obtain ⟨w, here, sent⟩ := List.mem_flatMap.mp member
    obtain ⟨relay, _, rfl⟩ := List.mem_map.mp sent
    obtain ⟨pp, found, same⟩ := (s.processPendingProbes_tends c.now c.seqOrder c.shuffle).2 w here
    obtain ⟨word, target⟩ := node.probes w.seq pp found
    exact ⟨word, same ▸ target⟩
  | ack seq =>
    refine { short with bare := fun p member => ?_ }
    obtain ⟨relay, completed, rfl⟩ := List.mem_map.mp member
    have found : s.pendingRelays.lookup seq = some relay := by
      have given : (s.ack seq).1 = some relay := Option.mem_toList.mp completed
      cases found : s.pendingRelays.lookup seq with
      | none =>
        rw [SWIM.ack_none found] at given
        cases given
      | some other =>
        rw [SWIM.ack_some found] at given
        exact given
    exact ⟨node.relays seq relay found, no_target⟩
  | pingReq requester originalSeq =>
    refine { short with bare := fun p member => ?_ }
    obtain ⟨q, _, rfl⟩ := List.mem_map.mp member
    exact ⟨SWIM.succ_lt _, no_target⟩

end Plan

/-- What comes into the network from outside is short: the ids of the nodes that take something in and of the members
that are added, and in every message its target, the ids in its events and their metadata. -/
def Brief (idBytes metaBytes : ℕ) (_ : OpenCrew) (_ : ℕ) (_ : NetTask) : (o : NetOp) → o.Res → Prop
  | .receive self, (p : Packet) => (PeerID.bytes self).length ≤ idBytes ∧ (PeerID.bytes p.message.target).length ≤ idBytes ∧
      ∀ e ∈ p.message.events, (PeerID.bytes e.peer).length ≤ idBytes ∧ e.metadata.length ≤ metaBytes
  | .swim _ (.addMember pid), _ => (PeerID.bytes pid).length ≤ idBytes
  | _, _ => True

structure OpenNetwork.Short (idBytes metaBytes : ℕ) (w : OpenNetwork) : Prop where
  self : ∀ a, (w.node a).self = a
  node : ∀ a, (w.node a).Short idBytes metaBytes
  plan : ∀ i, (w.plan i).Short idBytes metaBytes

section Runs

variable {idBytes metaBytes : ℕ}

theorem received_short {self : PeerID} {p : Packet} {crew : OpenCrew} {i : ℕ} {task : NetTask} {k : Plan} (dest : p.dest = self)
    (decodable : p.message.Decodable) (brief : Brief idBytes metaBytes crew i task (.receive self) p) :
    (k.learn (.receive self) p).Short idBytes metaBytes := by
  obtain ⟨own, target, events⟩ := brief
  refine ⟨fun q got => ?_, fun q got => ?_, fun q got => ?_, fun q got => ?_, fun q bare => ?_⟩
  · rw [List.mem_singleton.mp got, dest]
    exact own
  · rw [List.mem_singleton.mp got]
    exact decodable.1
  · rw [List.mem_singleton.mp got]
    exact target
  · rw [List.mem_singleton.mp got]
    exact fun e member => ⟨(events e member).1, decodable.2 e member, (events e member).2⟩
  · simp only [Plan.learn] at bare
    split at bare
    · rw [List.mem_singleton.mp bare]
      exact ⟨decodable.1, no_target⟩
    · cases bare

theorem given_of_brief {self : PeerID} {o : SwimOp} {r : o.Res} {crew : OpenCrew} {i : ℕ} {task : NetTask}
    (short : crew.state.Short idBytes metaBytes) (allows : (crew.state.plan i).Allows (.swim self o))
    (brief : Brief idBytes metaBytes crew i task (.swim self o) r) : SWIM.Given idBytes metaBytes (crew.state.node self).self o := by
  rw [short.self self]
  cases o with
  | addMember pid => exact brief
  | pingReq requester originalSeq =>
    obtain ⟨p, got, rfl⟩ := allows
    exact (short.plan i).seq p got
  | processEvents events =>
    obtain ⟨p, got, rfl, rfl⟩ := allows
    exact ⟨(short.plan i).dest p got, (short.plan i).events p got⟩
  | removeMember | probeOnce | processPendingProbes | processSuspects | updateN | emit | getPiggyback | ack => exact trivial

theorem OpenNetwork.Short.exec {i : ℕ} {c : Chance × Packet} {task : NetTask} {o : NetOp} {crew : OpenCrew} {w' : OpenNetwork} {r : o.Res}
    (short : crew.state.Short idBytes metaBytes) (executed : crew.state.exec i c o = some (r, w')) (allows : (crew.state.plan i).Allows o)
    (brief : Brief idBytes metaBytes crew i task o r) : w'.Short idBytes metaBytes := by
  obtain ⟨learned, others⟩ := exec_plan executed
  have plans : ((crew.state.plan i).learn o r).Short idBytes metaBytes → ∀ j, (w'.plan j).Short idBytes metaBytes := by
    intro own j
    by_cases here : j = i
    · rw [here, learned]
      exact own
    · rw [others j here]
      exact short.plan j
  cases o with
  | receive self =>
    simp only [OpenNetwork.exec, effect] at executed
    split at executed
    · rename_i here
      cases executed
      exact ⟨short.self, short.node, plans (received_short here.1 here.2 brief)⟩
    · cases executed
  | swim self o =>
    have learns := (short.plan i).learn (short.node self) self c.1 o
    have given := given_of_brief short allows brief
    have self_kept : (SWIM.exec c.1 o (crew.state.node self)).2.self = self :=
      ((crew.state.node self).turn_moves ⟨c.1, o⟩).self.trans (short.self self)
    have node_kept := (short.node self).exec c.1 given
    cases executed
    exact ⟨(Function.forall_update_iff _ (fun a (s : SWIM) => s.self = a)).mpr ⟨self_kept, fun a _ => short.self a⟩,
      (Function.forall_update_iff _ (fun _ (s : SWIM) => s.Short idBytes metaBytes)).mpr ⟨node_kept, fun a _ => short.node a⟩, plans learns⟩
  | send p =>
    cases executed
    exact ⟨short.self, short.node, plans (short.plan i)⟩

theorem OpenNetwork.Short.fresh (config : PeerID → Config) : (OpenCrew.fresh config).state.Short idBytes metaBytes where
  self _ := rfl
  node _ := ⟨.empty, .empty, .empty, .empty⟩
  plan _ := ⟨fun _ none => (nomatch none), fun _ none => (nomatch none), fun _ none => (nomatch none), fun _ none => (nomatch none),
    fun _ none => (nomatch none)⟩

/-- Short input leaves room for every message. -/
theorem roomy_of_brief (bound : 405 + 6 * (4 * ((idBytes + 2) / 3)) + 5 * (4 * ((metaBytes + 2) / 3)) ≤ readLimit)
    {config : PeerID → Config} {c : OpenCrew} (reach : Crew.Reach openNetwork (Brief idBytes metaBytes) (OpenCrew.fresh config) c) :
    Crew.Reach openNetwork Roomy (OpenCrew.fresh config) c ∧ c.state.Short idBytes metaBytes ∧
      Crew.Follows Addressed Plan.learn (fun k (_ : NetTask) o => k.Allows o) OpenNetwork.plan {} c := by
  induction reach with
  | start => exact ⟨.start, .fresh config, fun _ _ none => (nomatch none), fun _ _ => rfl⟩
  | next _ step ih =>
    obtain ⟨roomy, short, follows⟩ := ih
    cases step with
    | enter task outside => exact ⟨.next roomy (.enter task outside), short, follows.enter (body_plans task)⟩
    | @act i choice task o next r w present executed brief =>
      obtain ⟨learned, others⟩ := OpenNetwork.exec_plan executed
      obtain ⟨allows, onward⟩ := follows.act present (OpenNetwork.exec_addressed executed) learned others
        (fun _ task (none : task ∈ openNetwork.starts o) => absurd none List.not_mem_nil)
      refine ⟨.next roomy (.act i choice present executed ?_), short.exec executed allows brief, onward⟩
      unfold Roomy
      split
      · rename_i self n _
        intro p bare
        obtain rfl : n = 5 := allows
        obtain ⟨seq, target⟩ := (short.plan i).bare p bare
        exact Disseminator.room_of_short (short.node self).entries bound seq target
      · exact trivial

end Runs

theorem sent_readable (config : PeerID → Config) :
    (∀ c, Crew.Reach openNetwork Roomy (OpenCrew.fresh config) c → ∀ p ∈ c.state.sent, p.message.Fits) ∧
    (∀ idBytes metaBytes, 405 + 6 * (4 * ((idBytes + 2) / 3)) + 5 * (4 * ((metaBytes + 2) / 3)) ≤ readLimit →
      ∀ c, Crew.Reach openNetwork (Brief idBytes metaBytes) (OpenCrew.fresh config) c → ∀ p ∈ c.state.sent, p.message.Fits) ∧
    ∀ (d : Disseminator) (n : ℕ) (m : Message),
      d.HasRoom n m ↔ ∀ order, ({ m with events := (d.getPiggyback order n).1 } : Message).Fits :=
  ⟨fun _ => sent_fits, fun _ _ bound _ reach => sent_fits (roomy_of_brief bound reach).1, Disseminator.hasRoom_iff⟩

section Alone

variable {a : PeerID} {p : Packet} (i : ℕ) (w : OpenNetwork)

theorem receive_alone (dest : p.dest = a) (decodable : p.message.Decodable) :
    ∃ w', w.exec i ({}, p) (.receive a) = some (p, w') ∧ w'.node = w.node ∧ w'.received = w.received ++ [p.message] ∧ w'.sent = w.sent := by
  have executed : w.exec i ({}, p) (.receive a) = some (p, { w with
      received := w.received ++ [p.message], plan := Function.update w.plan i ((w.plan i).learn (.receive a) p) }) := by
    simp only [OpenNetwork.exec, OpenNetwork.effect, if_pos (And.intro dest decodable), Option.map_some]
  exact ⟨_, executed, rfl, rfl, rfl⟩

theorem swim_alone (o : SwimOp) :
    ∃ w', w.exec i ({}, p) (.swim a o) = some ((SWIM.exec {} o (w.node a)).1, w') ∧ w'.node a = (SWIM.exec {} o (w.node a)).2 ∧
      w'.received = w.received ∧ w'.sent = w.sent :=
  ⟨_, rfl, Function.update_self .., rfl, rfl⟩

theorem send_alone (q : Packet) :
    ∃ w', w.exec i ({}, p) (.send q) = some ((), w') ∧ w'.received = w.received ∧ w'.sent = w.sent ++ [q] :=
  ⟨_, rfl, rfl, rfl⟩

/-- A node on its own that takes in an `Ack` of which it knows nothing, with some events. -/
theorem handle_ack_alone (dest : p.dest = a) (decodable : p.message.Decodable) (type : p.message.type = .ack)
    (unknown : (w.node a).pendingRelays.lookup p.message.seq = none) (carries : 0 < p.message.events.length) :
    ∃ w', (handle a).runWith (OpenNetwork.exec i) [({}, p), ({}, p), ({}, p)] w = some (.ok (), w') ∧
      w'.node a = (w.node a).play [⟨{}, .ack p.message.seq⟩, ⟨{}, .processEvents p.message.events⟩] ∧
      w'.received = w.received ++ [p.message] ∧ w'.sent = w.sent := by
  obtain ⟨w₁, first, node₁, received₁, sent₁⟩ := receive_alone i w dest decodable
  obtain ⟨w₂, second, node₂, received₂, sent₂⟩ := @swim_alone a p i w₁ (.ack p.message.seq)
  obtain ⟨w₃, third, node₃, received₃, sent₃⟩ := @swim_alone a p i w₂ (.processEvents p.message.events)
  have nothing : (SWIM.exec {} (.ack p.message.seq) (w₁.node a)).1 = none := by
    rw [node₁]
    exact congrArg Prod.fst (SWIM.ack_none unknown)
  have form : handleMessage a p.source p.message =
      (handleAck a p.message.seq).bind (fun _ => NetM.swim a (.processEvents p.message.events)) := by
    simp only [handleMessage, handleType, type, handleEvents, if_pos carries]
    rfl
  refine ⟨w₃, ?_, ?_, ?_, ?_⟩
  · refine (runWith_step first).trans ?_
    change (handleMessage a p.source p.message).runWith _ _ _ = _
    rw [form]
    refine (runWith_step second).trans ?_
    rw [nothing]
    exact runWith_step third
  · rw [node₃, node₂, node₁]
    rfl
  · rw [received₃, received₂, received₁]
  · rw [sent₃, sent₂, sent₁]

/-- A node on its own that takes in a `Ping` without events. -/
theorem handle_ping_alone (dest : p.dest = a) (decodable : p.message.Decodable) (type : p.message.type = .ping)
    (none : p.message.events = []) :
    ∃ w', (handle a).runWith (OpenNetwork.exec i) [({}, p), ({}, p), ({}, p)] w = some (.ok (), w') ∧
      w'.received = w.received ++ [p.message] ∧
      w'.sent = w.sent ++ [sendAck a p.source p.message.seq ((w.node a).disseminator.getPiggyback (fun _ => 0) 5).1] := by
  obtain ⟨w₁, first, node₁, received₁, sent₁⟩ := receive_alone i w dest decodable
  obtain ⟨w₂, second, node₂, received₂, sent₂⟩ := @swim_alone a p i w₁ (.getPiggyback 5)
  obtain ⟨w₃, third, received₃, sent₃⟩ := @send_alone p i w₂
    (sendAck a p.source p.message.seq ((w₁.node a).disseminator.getPiggyback (fun _ => 0) 5).1)
  have form : handleMessage a p.source p.message = handlePing a p.source p.message.seq := by
    simp only [handleMessage, handleType, type, handleEvents, none, List.length_nil, if_neg (Nat.lt_irrefl 0)]
    rfl
  refine ⟨w₃, ?_, ?_, ?_⟩
  · refine (runWith_step first).trans ?_
    change (handleMessage a p.source p.message).runWith _ _ _ = _
    rw [form]
    exact (runWith_step second).trans (runWith_step third)
  · rw [received₃, received₂, received₁]
  · rw [sent₃, sent₂, sent₁, node₁]

end Alone

namespace Oversized

def config (_ : PeerID) : Config :=
  { probeTimeout := 500, indirectProbeTimeout := 1000, indirectProbes := 3, suspectTimeout := 5000, retransmitLimit := fun n => 3 * n }

def death (p : PeerID) (metadata : List UInt8) : MemberEvent := { peer := p, status := .dead, incarnation := 1, metadata }

/-- A member comes and goes, and there is something in the account of its death. -/
def news (p : PeerID) (metadata : List UInt8) : Message :=
  { type := .ack, seq := 0, events := [{ peer := p, status := .alive }, death p metadata] }

def request : Message := { type := .ping, seq := 1 }

def answer (metadata : List UInt8) : Packet := sendAck "a" "b" 1 [death "c" metadata, death "b" metadata]

theorem gathers (metadata : List UInt8) : ((((SWIM.new "a" (config "a")).play
    [⟨{}, .ack 0⟩, ⟨{}, .processEvents (news "b" metadata).events⟩]).play
    [⟨{}, .ack 0⟩, ⟨{}, .processEvents (news "c" metadata).events⟩]).disseminator.getPiggyback (fun _ => 0) 5).1 =
      [death "c" metadata, death "b" metadata] := rfl

theorem reach (metadata : List UInt8) : ∃ c, Crew.Reach openNetwork Crew.Anyhow (OpenCrew.fresh config) c ∧
    c.state.received = [news "b" metadata, news "c" metadata, request] ∧ c.state.sent = [answer metadata] := by
  have decodable (p : PeerID) : (news p metadata).Decodable := by
    refine ⟨show 0 < wordSize by decide, fun e member => ?_⟩
    rcases List.mem_pair.mp member with rfl | rfl
    · exact show 0 < wordSize by decide
    · exact show 1 < wordSize by decide
  let first : OpenCrew := .fresh config
  have begun : Crew.Reach openNetwork Crew.Anyhow first first := .start
  obtain ⟨w₁, ran₁, node₁, received₁, sent₁⟩ := @handle_ack_alone "a" ⟨"b", "a", news "b" metadata⟩ first.threads.length first.state
    rfl (decodable "b") rfl rfl (Nat.succ_pos 1)
  obtain ⟨c₁, reach₁, rfl⟩ := begun.entered (NetTask.handle "a") rfl ran₁
  obtain ⟨w₂, ran₂, node₂, received₂, sent₂⟩ := @handle_ack_alone "a" ⟨"b", "a", news "c" metadata⟩ c₁.threads.length c₁.state
    rfl (decodable "c") rfl (by rw [node₁]; rfl) (Nat.succ_pos 1)
  obtain ⟨c₂, reach₂, rfl⟩ := reach₁.entered (NetTask.handle "a") rfl ran₂
  obtain ⟨w₃, ran₃, received₃, sent₃⟩ := @handle_ping_alone "a" ⟨"b", "a", request⟩ c₂.threads.length c₂.state
    rfl ⟨show 1 < wordSize by decide, fun _ none => (nomatch none)⟩ rfl rfl
  obtain ⟨c₃, reach₃, rfl⟩ := reach₂.entered (NetTask.handle "a") rfl ran₃
  refine ⟨c₃, reach₃, ?_, ?_⟩
  · rw [received₃, received₂, received₁]
    rfl
  · rw [sent₃, sent₂, sent₁, node₂, node₁]
    change [] ++ [sendAck "a" "b" 1 _] = [sendAck "a" "b" 1 _]
    rw [← gathers metadata]
    rfl

theorem one_digit : (Wire.number 0).length = 1 ∧ (Wire.number 1).length = 1 := ⟨rfl, rfl⟩

theorem death_length {metadata : List UInt8} (some : metadata ≠ []) {p : PeerID} (short : (PeerID.bytes p).length = 1) :
    (death p metadata).json.length = 52 + 4 * ((metadata.length + 2) / 3) := by
  simp only [MemberEvent.json_length, death, if_neg some, short, one_digit]
  omega

theorem news_length {metadata : List UInt8} (some : metadata ≠ []) {p : PeerID} (short : (PeerID.bytes p).length = 1) :
    (news p metadata).marshal.length = 129 + 4 * ((metadata.length + 2) / 3) := by
  have alive : ({ peer := p, status := .alive } : MemberEvent).json.length = 42 := by
    simp only [MemberEvent.json_length, short, one_digit, if_true]
  rw [Message.marshal_length_eq]
  simp [news, one_digit, death_length some short, alive, Wire.commas, PeerID.bytes]
  omega

theorem answer_length {metadata : List UInt8} (some : metadata ≠ []) :
    (answer metadata).message.marshal.length = 139 + 8 * ((metadata.length + 2) / 3) := by
  have first := @death_length metadata some "c" rfl
  have second := @death_length metadata some "b" rfl
  rw [Message.marshal_length_eq]
  simp [answer, sendAck, one_digit, first, second, Wire.commas, PeerID.bytes]
  omega

end Oversized

theorem sent_oversized : ¬ ∀ (config : PeerID → Config) (c : OpenCrew), Crew.Reach openNetwork Crew.Anyhow (OpenCrew.fresh config) c →
    (∀ m ∈ c.state.received, m.Fits) → ∀ p ∈ c.state.sent, p.message.Fits := by
  intro readable
  have size : (List.replicate 25000 (0 : UInt8)).length = 25000 := List.length_replicate
  generalize List.replicate 25000 (0 : UInt8) = metadata at size
  have some : metadata ≠ [] := by
    rintro rfl
    cases size
  obtain ⟨c, reach, received, sent⟩ := Oversized.reach metadata
  have limit : readLimit = 65536 := rfl
  have fits : ∀ m ∈ c.state.received, m.Fits := by
    have short (p : PeerID) (one : (PeerID.bytes p).length = 1) : (Oversized.news p metadata).Fits := by
      have length := Oversized.news_length some one
      unfold Message.Fits
      omega
    rw [received]
    intro m member
    simp only [List.mem_cons, List.not_mem_nil, or_false] at member
    rcases member with rfl | rfl | rfl
    · exact short "b" rfl
    · exact short "c" rfl
    · decide +kernel
  have answered := readable Oversized.config c reach fits (Oversized.answer metadata) (by rw [sent]; exact List.mem_singleton_self _)
  have length := Oversized.answer_length some
  unfold Message.Fits at answered
  omega

namespace Oversized

def short : List UInt8 := List.replicate 4 0

def told : Packet := ⟨"b", "a", news "b" short⟩

def asked : Packet := ⟨"b", "a", request⟩

theorem told_brief : ∀ c i task, Brief 1 256 c i task (.receive "a") told := by
  refine fun _ _ _ => ⟨by decide +kernel, by decide +kernel, fun e member => ?_⟩
  rcases List.mem_pair.mp member with rfl | rfl
  · decide +kernel
  · decide +kernel

theorem reach_short : ∃ c, Crew.Reach openNetwork (Brief 1 256) (OpenCrew.fresh config) c ∧
    c.state.sent = [sendAck "a" "b" 1 [death "b" short]] := by
  have asked_brief : ∀ c i task, Brief 1 256 c i task (.receive "a") asked :=
    fun _ _ _ => ⟨by decide +kernel, by decide +kernel, fun _ none => (nomatch none)⟩
  exact ⟨_, .next (.next (.next (.next (.next (.next (.next (.next .start
    (.enter (NetTask.handle "a") rfl))
    (.act 0 ({}, told) rfl rfl (by exact told_brief _ _ _))) (.act 0 ({}, told) rfl rfl (by exact trivial)))
    (.act 0 ({}, told) rfl rfl (by exact trivial)))
    (.enter (NetTask.handle "a") rfl))
    (.act 1 ({}, asked) rfl rfl (by exact asked_brief _ _ _))) (.act 1 ({}, asked) rfl rfl (by exact trivial)))
    (.act 1 ({}, asked) rfl rfl (by exact trivial)), rfl⟩

end Oversized

theorem sent_readable_short : ∃ c, Crew.Reach openNetwork (Brief 1 256) (OpenCrew.fresh Oversized.config) c ∧
    c.state.sent = [sendAck "a" "b" 1 [Oversized.death "b" Oversized.short]] ∧ ∀ p ∈ c.state.sent, p.message.Fits := by
  obtain ⟨c, reach, sent⟩ := Oversized.reach_short
  exact ⟨c, reach, sent, (sent_readable Oversized.config).2.1 1 256 (by decide) c reach⟩

end OpenTela.Swim
