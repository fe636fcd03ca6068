import OpenTela.Swim.Buffer
import OpenTela.Swim.Probing
import OpenTela.Swim.Wire

namespace OpenTela.Swim

open Prog

/-- A packet with some events on it. -/
def Packet.carrying (p : Packet) (events : List MemberEvent) : Packet := { p with message := { p.message with events } }

/-- What a thread is about to send: the packets without their events, and with the events it
last gathered. -/
structure Plan where
  got : List Packet := []
  bare : List Packet := []
  ready : List Packet := []

def Plan.learn (k : Plan) : (o : NetOp) → o.Res → Plan
  | .receive self, (p : Packet) =>
    { got := [p]
      bare := if p.message.type = .ping then [sendAck self p.source p.message.seq []] else [] }
  | .swim self .probeOnce, picked => { k with bare := picked.toList.map (fun ping => sendPing self ping.1 ping.2 []) }
  | .swim self .processPendingProbes, work => { k with bare := indirectPings self work [] }
  | .swim self (.ack _), relay => { k with bare := relay.toList.map (fun relay => sendAck self relay.requester relay.originalSeq []) }
  | .swim self (.pingReq requester originalSeq), (localSeq : ℕ) =>
    { k with
      bare := (k.got.filter (fun p => p.isPingReq self requester originalSeq)).map (fun p => sendPing self p.message.target localSeq []) }
  | .swim _ (.getPiggyback _), events => { k with ready := k.bare.map (fun p => p.carrying events) }
  | _, _ => k

/-- Nodes that take in whatever anybody sends them. -/
structure OpenNetwork where
  node : PeerID → SWIM
  received : List Message := []
  sent : List Packet := []
  plan : ℕ → Plan := fun _ => {}

/-- The numbers of a message are within the 64 bits that the decoder allows. -/
def Message.Decodable (m : Message) : Prop := m.seq < wordSize ∧ ∀ e ∈ m.events, e.incarnation < wordSize

instance (m : Message) : Decidable m.Decodable := inferInstanceAs (Decidable (_ ∧ _))

namespace OpenNetwork

/-- Any packet may arrive, at the node that it is for. -/
def effect (c : Chance) (arriving : Packet) : (o : NetOp) → OpenNetwork → Option (o.Res × OpenNetwork)
  | .receive self, w =>
    if arriving.dest = self ∧ arriving.message.Decodable then
      some (arriving, { w with received := w.received ++ [arriving.message] })
    else none
  | .swim self o, w =>
    let out := SWIM.exec c o (w.node self)
    some (out.1, { w with node := Function.update w.node self out.2 })
  | .send p, w => some ((), { w with sent := w.sent ++ [p] })

def exec (i : ℕ) (c : Chance × Packet) (o : NetOp) (w : OpenNetwork) : Option (o.Res × OpenNetwork) :=
  (w.effect c.1 c.2 o).map (fun out => (out.1, { out.2 with plan := Function.update w.plan i ((w.plan i).learn o out.1) }))

end OpenNetwork

/-- The same tasks as in `network`. -/
def openNetwork : System NetOp NetOp.Res Empty OpenNetwork (Chance × Packet) NetTask where
  exec := OpenNetwork.exec
  starts := fun _ => []
  body := NetTask.body
  entry := fun _ => true

abbrev OpenCrew := Prog.Crew NetOp NetOp.Res Empty OpenNetwork NetTask

def OpenCrew.fresh (config : PeerID → Config) : OpenCrew := ⟨{ node := fun a => .new a (config a) }, []⟩

/-- A peer whose event is still to be sent. -/
def Disseminator.Live (d : Disseminator) (p : PeerID) : Prop := ∃ entry, d.entries.lookup p = some entry ∧ 0 < entry.remaining

/-- The message fits with any `n` of the events that are still to be sent, or fewer. -/
def Disseminator.HasRoom (d : Disseminator) (n : ℕ) (m : Message) : Prop :=
  ∀ peers : List PeerID, peers.Nodup → peers.length ≤ n → (∀ p ∈ peers, d.Live p) →
    ({ m with events := peers.filterMap d.spreads } : Message).Fits

/-- Where a thread gathers events, there is room for them on each message it is about to send. -/
def Roomy (c : OpenCrew) (i : ℕ) (_ : NetTask) : (o : NetOp) → o.Res → Prop
  | .swim self (.getPiggyback n), _ => ∀ p ∈ (c.state.plan i).bare, (c.state.node self).disseminator.HasRoom n p.message
  | _, _ => True

section Conduct

/-- A thread sends what it has ready, gathers five events at a time, and goes by the packet it got. -/
def Plan.Allows (k : Plan) : NetOp → Prop
  | .send p => p ∈ k.ready
  | .swim _ (.getPiggyback n) => n = 5
  | .swim _ (.pingReq _ seq) => ∃ p ∈ k.got, p.message.seq = seq
  | .swim self (.processEvents events) => ∃ p ∈ k.got, p.dest = self ∧ p.message.events = events
  | _ => True

abbrev Plans {α : Type} (post : Plan → Prop) (k : Plan) (p : NetM α) : Prop :=
  Always Addressed Plan.learn (fun k o _ _ => k.Allows o) (fun k _ => post k) k p

theorem Plans.bind {α β : Type} {mid post : Plan → Prop} {k : Plan} {p : NetM α} {f : α → NetM β} (first : Plans mid k p)
    (second : ∀ k a, mid k → Plans post k (f a)) : Plans post k (p.bind f) := by
  refine Always.bind (first.mono (fun _ _ _ _ _ fine => fine) ?_)
  rintro k (e | a) done
  · exact e.elim
  · exact second k a done

variable (self : PeerID) {k : Plan}

theorem probe_plans : Plans (fun _ => True) k (probe self) := by
  intro picked _
  refine ⟨trivial, ?_⟩
  cases picked with
  | none => exact trivial
  | some out =>
    intro events _
    exact ⟨rfl, fun _ _ => ⟨List.mem_cons_self, trivial⟩⟩

theorem indirectPings_carrying (work : List SWIM.IndirectWork) (events : List MemberEvent) :
    indirectPings self work events = (indirectPings self work []).map (fun p => p.carrying events) := by
  simp only [indirectPings, List.map_flatMap, List.map_map]
  rfl

theorem expireProbes_plans : Plans (fun _ => True) k (expireProbes self) := by
  intro work _
  refine ⟨trivial, fun events _ => ⟨rfl, ?_⟩⟩
  refine sendAll_always (fun _ _ => rfl) (fun p member => ?_) trivial
  rw [indirectPings_carrying] at member
  exact member

theorem expireSuspects_plans : Plans (fun _ => True) k (expireSuspects self) :=
  expireSuspects_always self (fun _ _ => ⟨trivial, rfl⟩) (fun _ _ => ⟨trivial, rfl⟩) (fun _ _ => ⟨trivial, rfl⟩) trivial

theorem handleType_plans {p : Packet} (got : k.got = [p]) (dest : p.dest = self)
    (bare : p.message.type = .ping → k.bare = [sendAck self p.source p.message.seq []]) :
    Plans (fun k => k.got = [p]) k (handleType self p.source p.message) := by
  unfold handleType
  cases type : p.message.type with
  | ping =>
    refine fun events _ => ⟨rfl, fun _ _ => ⟨?_, got⟩⟩
    simp only [Plan.Allows, Plan.learn, bare type]
    exact List.mem_cons_self
  | ack =>
    intro relay _
    refine ⟨trivial, ?_⟩
    cases relay with
    | none => exact got
    | some relay =>
      intro events _
      exact ⟨rfl, fun _ _ => ⟨List.mem_cons_self, got⟩⟩
  | pingReq =>
    have asked : p.isPingReq self p.source p.message.seq = true := by simp [Packet.isPingReq, dest, type]
    intro localSeq _
    refine ⟨⟨p, by rw [got]; exact List.mem_cons_self, rfl⟩, fun events _ => ⟨rfl, fun _ _ => ⟨?_, got⟩⟩⟩
    simp only [Plan.Allows, Plan.learn, got, List.filter_cons, asked, if_true]
    exact List.mem_cons_self
  | unknown => exact got

theorem handleEvents_plans {p : Packet} (got : k.got = [p]) (dest : p.dest = self) :
    Plans (fun _ => True) k (handleEvents self p.message.events) := by
  unfold handleEvents
  split
  · exact fun _ _ => ⟨⟨p, by rw [got]; exact List.mem_cons_self, dest, rfl⟩, trivial⟩
  · exact trivial

theorem handle_plans : Plans (fun _ => True) k (handle self) := by
  intro p dest
  refine ⟨trivial, ?_⟩
  have learned : Plans (fun k => k.got = [p]) (k.learn (.receive self) p) (handleType self p.source p.message) :=
    handleType_plans self rfl dest (fun ping => if_pos ping)
  exact learned.bind (fun _ _ got => handleEvents_plans self got dest)

theorem body_plans (task : NetTask) : Plans (fun _ => True) k task.body := by
  cases task with
  | handle self => exact handle_plans self
  | round self =>
    exact (probe_plans self).bind (fun _ _ _ => (expireProbes_plans self).bind (fun _ _ _ => expireSuspects_plans self))
  | addMember self pid => exact fun _ _ => ⟨trivial, trivial⟩
  | removeMember self pid => exact fun _ _ => ⟨trivial, trivial⟩

end Conduct

/-- All that is sent, and all that a thread has ready, fits. -/
structure OpenNetwork.Fitting (w : OpenNetwork) : Prop where
  sent : ∀ p ∈ w.sent, p.message.Fits
  ready : ∀ i, ∀ p ∈ (w.plan i).ready, p.message.Fits

namespace Disseminator

/-- The peers whose event is still to be sent, as a test. -/
def live (entries : Store PeerID DisseminationEntry) (p : PeerID) : Bool := (entries.lookup p).any (fun entry => 0 < entry.remaining)

theorem live_iff {d : Disseminator} {p : PeerID} : live d.entries p = true ↔ d.Live p := by
  simp only [live, Option.any_eq_true, decide_eq_true_eq, Live]

/-- The events of the first live peers, in the order in which they come. -/
theorem gather_events (maxEvents : ℕ) {pids : List PeerID} (distinct : pids.Nodup) (events : List MemberEvent) (expired : List PeerID)
    (entries : Store PeerID DisseminationEntry) :
    (gather maxEvents pids events expired entries).1 =
      events ++ ((pids.filter (live entries)).take (maxEvents - events.length)).filterMap
        (fun p => (entries.lookup p).map DisseminationEntry.event) := by
  induction pids generalizing events expired entries with
  | nil => simp [gather]
  | cons pid rest ih =>
    obtain ⟨fresh, distinct⟩ := List.nodup_cons.mp distinct
    unfold gather
    split
    · rename_i full
      rw [Nat.sub_eq_zero_of_le full, List.take_zero, List.filterMap_nil, List.append_nil]
    · rename_i room
      cases found : entries.lookup pid with
      | none =>
        have dead : live entries pid = false := by simp [live, found]
        rw [List.filter_cons_of_neg (by simp [dead])]
        exact ih distinct events expired entries
      | some entry =>
        dsimp only
        split
        · rename_i nothing
          have dead : live entries pid = false := by simp [live, found, nothing]
          rw [List.filter_cons_of_neg (by simp [dead])]
          exact ih distinct events (expired ++ [pid]) entries
        · rename_i some
          have alive : live entries pid = true := by simp [live, found]; omega
          have elsewhere : ∀ p ∈ rest, AList.lookup p (entries.insert pid { entry with remaining := entry.remaining - 1 }) = entries.lookup p :=
            fun p member => AList.lookup_insert_ne (fun same => fresh (same ▸ member))
          have spent : rest.filter (live (entries.insert pid { entry with remaining := entry.remaining - 1 })) = rest.filter (live entries) :=
            List.filter_congr (fun p member => by simp only [live, elsewhere p member])
          obtain ⟨k, left⟩ : ∃ k, maxEvents - events.length = k + 1 := ⟨maxEvents - events.length - 1, by omega⟩
          have next : maxEvents - (events ++ [entry.event]).length = k := by
            simp only [List.length_append, List.length_cons, List.length_nil]
            omega
          rw [ih distinct, spent, next, List.filter_cons_of_pos alive, left, List.take_succ_cons,
            List.filterMap_cons_some (b := entry.event) (by simp only [found, Option.map_some]), List.append_assoc]
          refine congrArg (fun later => events ++ entry.event :: later) (List.filterMap_congr (fun p member => ?_))
          rw [elsewhere p (List.mem_of_mem_filter (List.mem_of_mem_take member))]

theorem getPiggyback_events (d : Disseminator) (order : PeerID → ℕ) (n : ℕ) :
    (d.getPiggyback order n).1 = (((ordered order d.entries.keys).filter (live d.entries)).take n).filterMap d.spreads :=
  (gather_events n (ordered_nodup d.entries.keys_nodup) [] [] d.entries).trans (List.nil_append _)

end Disseminator

/-- A list in the order of a test has what passes it first. -/
theorem sorted_split {α : Type} (first : α → Bool) {l : List α} (sorted : l.Pairwise (fun a b => first b = true → first a = true)) :
    l = l.filter first ++ l.filter (fun a => !first a) := by
  induction l with
  | nil => rfl
  | cons a rest ih =>
    obtain ⟨before, sorted⟩ := List.pairwise_cons.mp sorted
    cases here : first a with
    | true =>
      rw [List.filter_cons_of_pos here, List.filter_cons_of_neg (by simp [here]), List.cons_append, ← ih sorted]
    | false =>
      have none : rest.filter first = [] := by
        rw [List.filter_eq_nil_iff]
        intro b member passes
        rw [before b member passes] at here
        cases here
      have all : rest.filter (fun a => !first a) = rest := by
        conv_rhs => rw [ih sorted, none, List.nil_append]
      rw [List.filter_cons_of_neg (by simp [here]), List.filter_cons_of_pos (by simp [here]), none, all, List.nil_append]

namespace Disseminator

/-- What is gathered are the events of some live peers. -/
theorem HasRoom.gathered {d : Disseminator} {n : ℕ} {m : Message} (room : d.HasRoom n m) (order : PeerID → ℕ) :
    ({ m with events := (d.getPiggyback order n).1 } : Message).Fits := by
  rw [getPiggyback_events]
  refine room _ ?_ (List.length_take_le _ _) (fun p member => ?_)
  · exact ((ordered_nodup d.entries.keys_nodup).filter _).take
  · exact live_iff.mp (List.mem_filter.mp (List.mem_of_mem_take member)).2

/-- There is room exactly if what is gathered fits in whatever order the map is traversed. -/
theorem hasRoom_iff (d : Disseminator) (n : ℕ) (m : Message) :
    d.HasRoom n m ↔ ∀ order, ({ m with events := (d.getPiggyback order n).1 } : Message).Fits := by
  refine ⟨fun room order => room.gathered order, fun fits peers distinct few alive => ?_⟩
  -- the map may be traversed with these peers first
  let order : PeerID → ℕ := fun p => if p ∈ peers then 0 else 1
  let listed := (ordered order d.entries.keys).filter (live d.entries)
  have sorted : listed.Pairwise (fun a b => decide (b ∈ peers) = true → decide (a ∈ peers) = true) := by
    have inOrder : (ordered order d.entries.keys).Pairwise (fun a b => order a ≤ order b) := List.pairwise_insertionSort _ _
    refine (inOrder.filter _).imp (fun {a b} less wanted => ?_)
    by_contra unwanted
    have first : order b = 0 := if_pos (of_decide_eq_true wanted)
    have second : order a = 1 := if_neg (fun member => unwanted (decide_eq_true member))
    omega
  have front : (listed.filter (fun p => decide (p ∈ peers))).Perm peers := by
    have once : listed.Nodup := (ordered_nodup d.entries.keys_nodup).filter _
    rw [List.perm_ext_iff_of_nodup (once.filter _) distinct]
    intro p
    rw [List.mem_filter, decide_eq_true_eq, and_iff_right_iff_imp]
    intro wanted
    obtain ⟨entry, found, _⟩ := alive p wanted
    have known : p ∈ d.entries.keys := AList.mem_keys.mp (AList.lookup_isSome.mp (by rw [found]; rfl))
    exact List.mem_filter.mpr ⟨mem_ordered.mpr known, live_iff.mpr (alive p wanted)⟩
  have split := sorted_split (fun p => decide (p ∈ peers)) sorted
  have taken : listed.take n = listed.filter (fun p => decide (p ∈ peers)) ++
      (listed.filter (fun p => !decide (p ∈ peers))).take (n - peers.length) := by
    conv_lhs => rw [split]
    rw [List.take_append, front.length_eq, List.take_of_length_le (by rw [front.length_eq]; exact few)]
  have events : (d.getPiggyback order n).1 = (listed.filter (fun p => decide (p ∈ peers))).filterMap d.spreads ++
      ((listed.filter (fun p => !decide (p ∈ peers))).take (n - peers.length)).filterMap d.spreads := by
    rw [d.getPiggyback_events order n, ← List.filterMap_append]
    exact congrArg (List.filterMap d.spreads) taken
  have whole := fits order
  rw [events] at whole
  unfold Message.Fits at whole ⊢
  rw [m.marshal_length_perm (front.symm.filterMap d.spreads)]
  exact (m.marshal_length_append _ _).trans whole

end Disseminator

theorem OpenNetwork.exec_plan {i : ℕ} {c : Chance × Packet} {o : NetOp} {w w' : OpenNetwork} {r : o.Res}
    (executed : w.exec i c o = some (r, w')) : w'.plan i = (w.plan i).learn o r ∧ ∀ j, j ≠ i → w'.plan j = w.plan j := by
  obtain ⟨out, _, same⟩ := Option.map_eq_some_iff.mp executed
  obtain ⟨rfl, rfl⟩ := Prod.mk.inj same
  exact ⟨Function.update_self .., fun j different => Function.update_of_ne different ..⟩

theorem OpenNetwork.exec_addressed {i : ℕ} {c : Chance × Packet} {o : NetOp} {w w' : OpenNetwork} {r : o.Res}
    (executed : w.exec i c o = some (r, w')) : Addressed o r := by
  cases o with
  | receive self =>
    simp only [exec, effect] at executed
    split at executed
    · rename_i here
      cases executed
      exact here.1
    · cases executed
  | swim self o => exact trivial
  | send p => exact trivial

/-- Only gathering makes a thread ready to send something else. -/
theorem Plan.learn_ready (k : Plan) {o : NetOp} (r : o.Res) (other : ∀ self n, o ≠ .swim self (.getPiggyback n)) {p : Packet}
    (ready : p ∈ (k.learn o r).ready) : p ∈ k.ready := by
  cases o with
  | receive self => cases ready
  | send p => exact ready
  | swim self o =>
    cases o with
    | getPiggyback n => exact absurd rfl (other self n)
    | addMember | removeMember | probeOnce | processPendingProbes | processSuspects | updateN | emit | ack | pingReq | processEvents =>
      exact ready

theorem OpenNetwork.exec_sent {i : ℕ} {c : Chance × Packet} {o : NetOp} {w w' : OpenNetwork} {r : o.Res}
    (executed : w.exec i c o = some (r, w')) {p : Packet} (member : p ∈ w'.sent) : p ∈ w.sent ∨ o = .send p := by
  cases o with
  | receive self =>
    simp only [exec, effect] at executed
    split at executed
    · cases executed
      exact Or.inl member
    · cases executed
  | swim self o =>
    cases executed
    exact Or.inl member
  | send q =>
    cases executed
    rcases List.mem_append.mp member with old | new
    · exact Or.inl old
    · rw [List.mem_singleton.mp new]
      exact Or.inr rfl

theorem OpenNetwork.Fitting.exec {i : ℕ} {c : Chance × Packet} {o : NetOp} {w w' : OpenNetwork} {r : o.Res} (fitting : w.Fitting)
    (executed : w.exec i c o = some (r, w')) (allows : (w.plan i).Allows o)
    (roomy : ∀ self n, o = .swim self (.getPiggyback n) → ∀ p ∈ (w.plan i).bare, (w.node self).disseminator.HasRoom n p.message) :
    w'.Fitting := by
  obtain ⟨learned, others⟩ := exec_plan executed
  refine ⟨fun p member => ?_, fun j p ready => ?_⟩
  · rcases exec_sent executed member with old | rfl
    · exact fitting.sent p old
    · exact fitting.ready i p allows
  by_cases here : j = i
  · subst here
    rw [learned] at ready
    by_cases gathers : ∃ self n, o = .swim self (.getPiggyback n)
    · obtain ⟨self, n, rfl⟩ := gathers
      cases executed
      obtain ⟨q, bare, rfl⟩ := List.mem_map.mp ready
      exact (roomy self n rfl q bare).gathered c.1.order
    · exact fitting.ready j p ((w.plan j).learn_ready r (fun self n same => gathers ⟨self, n, same⟩) ready)
  · rw [others j here] at ready
    exact fitting.ready j p ready

theorem sent_fits {config : PeerID → Config} {c : OpenCrew} (reach : Crew.Reach openNetwork Roomy (OpenCrew.fresh config) c) :
    ∀ p ∈ c.state.sent, p.message.Fits := by
  have follows : Crew.Follows Addressed Plan.learn (fun k (_ : NetTask) o => k.Allows o) OpenNetwork.plan {} (OpenCrew.fresh config) :=
    ⟨fun _ _ none => (nomatch none), fun _ _ => rfl⟩
  refine (reach.follows (fun k _ o => k.Allows o) OpenNetwork.plan {} (fun c => c.state.Fitting)
    ⟨fun _ none => (nomatch none), fun _ _ none => (nomatch none)⟩ follows
    (fun task _ => body_plans task) (fun _ _ _ _ _ _ _ executed => OpenNetwork.exec_addressed executed)
    (fun _ _ _ _ _ _ _ executed => OpenNetwork.exec_plan executed) (fun _ _ now => now) ?_).1.sent
  intro c i choice task o next r w fitting _ executed meeting allows
  refine fitting.exec executed allows (fun self n same => ?_)
  subst same
  exact meeting

end OpenTela.Swim
