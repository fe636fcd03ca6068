import OpenTela.Lib.Crew
import OpenTela.Swim.Turns

namespace OpenTela.Swim

open Prog

/-- Any other code of a type that comes in counts as `unknown`. -/
inductive MessageType where
  | ping
  | ack
  | pingReq
  | unknown
  deriving DecidableEq

structure Message where
  type : MessageType
  seq : ℕ
  target : PeerID := ""
  events : List MemberEvent := []

structure Packet where
  source : PeerID
  dest : PeerID
  message : Message

/-- A packet without the events that ride on it. -/
def Packet.bare (p : Packet) : Packet := { p with message := { p.message with events := [] } }

def sendPing (source dest : PeerID) (seq : ℕ) (events : List MemberEvent) : Packet := ⟨source, dest, { type := .ping, seq, events }⟩

def sendAck (source dest : PeerID) (seq : ℕ) (events : List MemberEvent) : Packet := ⟨source, dest, { type := .ack, seq, events }⟩

def sendPingReq (source dest target : PeerID) (seq : ℕ) (events : List MemberEvent) : Packet :=
  ⟨source, dest, { type := .pingReq, seq, target, events }⟩

/-- What the tasks of a node do: take in a packet, enter a critical section, send a packet. -/
inductive NetOp where
  | receive (self : PeerID)
  | swim (self : PeerID) (o : SwimOp)
  | send (p : Packet)

abbrev NetOp.Res : NetOp → Type
  | receive _ => Packet
  | swim _ o => o.Res
  | send _ => Unit

abbrev NetM := Prog NetOp NetOp.Res Empty

namespace NetM

def receive (self : PeerID) : NetM Packet := perform (NetOp.receive self)

def swim (self : PeerID) (o : SwimOp) : NetM o.Res := perform (NetOp.swim self o)

def send (p : Packet) : NetM Unit := perform (NetOp.send p)

def sendAll : List Packet → NetM Unit
  | [] => return ()
  | p :: rest => do
    send p
    sendAll rest

end NetM

section Operations

open NetM

variable (self : PeerID)

def probe : NetM Unit := do
  match ← swim self .probeOnce with
  | none => return ()
  | some (target, seq) => do
    let events ← swim self (.getPiggyback 5)
    send (sendPing self target seq events)

def indirectPings (work : List SWIM.IndirectWork) (events : List MemberEvent) : List Packet :=
  work.flatMap (fun w => w.relays.map (fun relay => sendPingReq self relay w.target w.seq events))

def expireProbes : NetM Unit := do
  let work ← swim self .processPendingProbes
  let events ← swim self (.getPiggyback 5)
  sendAll (indirectPings self work events)

def emitAll : List MemberEvent → NetM Unit
  | [] => return ()
  | ev :: rest => do
    swim self (.emit ev)
    emitAll rest

def expireSuspects : NetM Unit := do
  let (dead, n) ← swim self .processSuspects
  if dead ≠ [] then swim self (.updateN n)
  emitAll self dead

/-- One round of `Run`. -/
def round : NetM Unit := do
  probe self
  expireProbes self
  expireSuspects self

def handlePing (source : PeerID) (seq : ℕ) : NetM Unit := do
  let events ← swim self (.getPiggyback 5)
  send (sendAck self source seq events)

def handleAck (seq : ℕ) : NetM Unit := do
  match ← swim self (.ack seq) with
  | none => return ()
  | some relay => do
    let events ← swim self (.getPiggyback 5)
    send (sendAck self relay.requester relay.originalSeq events)

def handlePingReq (source : PeerID) (target : PeerID) (seq : ℕ) : NetM Unit := do
  let localSeq ← swim self (.pingReq source seq)
  let events ← swim self (.getPiggyback 5)
  send (sendPing self target localSeq events)

def handleType (source : PeerID) (msg : Message) : NetM Unit :=
  match msg.type with
  | .ping => handlePing self source msg.seq
  | .ack => handleAck self msg.seq
  | .pingReq => handlePingReq self source msg.target msg.seq
  | .unknown => return ()

def handleEvents (events : List MemberEvent) : NetM Unit :=
  if 0 < events.length then swim self (.processEvents events) else return ()

def handleMessage (source : PeerID) (msg : Message) : NetM Unit := do
  handleType self source msg
  handleEvents self msg.events

def handle : NetM Unit := do
  let p ← receive self
  handleMessage self p.source p.message

end Operations

/-- What a node takes a number for: a probe of its own, or a relay of another's `PingReq`. -/
inductive Use where
  | probe (t : PeerID)
  | relay (a : PeerID) (n : ℕ)
  deriving DecidableEq

/-- What is worth telling of a run; nobody reads it. -/
inductive Mark where
  /-- `x` took number `m` -/
  | took (x : PeerID) (m : ℕ) (use : Use)
  /-- `t` processed a `Ping` of `x` with number `m` -/
  | pinged (t x : PeerID) (m : ℕ)
  /-- an `Ack` with number `n` cleared the pending probe of `t` at `a` -/
  | cleared (a : PeerID) (n : ℕ) (t : PeerID)
  deriving DecidableEq

/-- What a critical section at node `a` in state `s` comes to. -/
def marks (a : PeerID) (s : SWIM) : (o : SwimOp) → o.Res → List Mark
  | .probeOnce, some (target, seq) => [.took a seq (.probe target)]
  | .pingReq requester originalSeq, (localSeq : ℕ) => [.took a localSeq (.relay requester originalSeq)]
  | .ack seq, none => ((s.pendingProbes.lookup seq).map (fun pp => .cleared a seq pp.target)).toList
  | _, _ => []

/-- What a thread has taken in, and what it may send in consequence. -/
structure Dealings where
  got : List Packet := []
  may : List Packet := []

def Dealings.allow (k : Dealings) (packets : List Packet) : Dealings := { k with may := packets ++ k.may }

def Packet.isPingReq (p : Packet) (self requester : PeerID) (seq : ℕ) : Bool :=
  p.dest = self ∧ p.source = requester ∧ p.message.type = .pingReq ∧ p.message.seq = seq

def Dealings.learn (k : Dealings) : (o : NetOp) → o.Res → Dealings
  | .receive self, (p : Packet) =>
    { got := p :: k.got
      may := if p.message.type = .ping then sendAck self p.source p.message.seq [] :: k.may else k.may }
  | .swim self .probeOnce, some (target, seq) => k.allow [sendPing self target seq []]
  | .swim self .processPendingProbes, work => k.allow (indirectPings self work [])
  | .swim self (.ack _), some relay => k.allow [sendAck self relay.requester relay.originalSeq []]
  | .swim self (.pingReq requester originalSeq), (localSeq : ℕ) =>
    k.allow ((k.got.filter (fun p => p.isPingReq self requester originalSeq)).map
      (fun p => sendPing self p.message.target localSeq []))
  | _, _ => k

structure Network where
  node : PeerID → SWIM
  sent : List Packet := []
  log : List Mark := []
  dealings : ℕ → Dealings := fun _ => {}

namespace Network

/-- A node takes in any packet that was ever sent to it; so packets get lost, come twice and overtake
each other. -/
def effect (c : Chance) : (o : NetOp) → Network → Option (o.Res × Network)
  | .receive self, w =>
    match w.sent[c.pick]? with
    | none => none
    | some p =>
      if p.dest = self then
        some (p, if p.message.type = .ping then { w with log := .pinged self p.source p.message.seq :: w.log } else w)
      else none
  | .swim self o, w =>
    let out := SWIM.exec c o (w.node self)
    some (out.1, { w with node := Function.update w.node self out.2, log := marks self (w.node self) o out.1 ++ w.log })
  | .send p, w => some ((), { w with sent := w.sent ++ [p] })

def exec (i : ℕ) (c : Chance) (o : NetOp) (w : Network) : Option (o.Res × Network) :=
  (w.effect c o).map (fun out =>
    (out.1, { out.2 with dealings := Function.update w.dealings i ((w.dealings i).learn o out.1) }))

end Network

/-- A message comes in, the ticker of a node fires, or its table is changed from outside. -/
inductive NetTask where
  | handle (self : PeerID)
  | round (self : PeerID)
  | addMember (self pid : PeerID)
  | removeMember (self pid : PeerID)
  deriving DecidableEq

def NetTask.body : NetTask → NetM Unit
  | handle self => Swim.handle self
  | round self => Swim.round self
  | addMember self pid => NetM.swim self (.addMember pid)
  | removeMember self pid => NetM.swim self (.removeMember pid)

def network : System NetOp NetOp.Res Empty Network Chance NetTask where
  exec := Network.exec
  starts := fun _ => []
  body := NetTask.body
  entry := fun _ => true

abbrev NetCrew := Prog.Crew NetOp NetOp.Res Empty Network NetTask

/-- Nodes that have only just been started, each with its own settings. -/
def NetCrew.fresh (config : PeerID → Config) : NetCrew := ⟨{ node := fun a => .new a (config a) }, []⟩

/-- No counter of a node has come to its end. -/
def Unwrapped (c : NetCrew) (_ : ℕ) (_ : NetTask) : (o : NetOp) → o.Res → Prop
  | .swim self _, _ => (c.state.node self).seq + 1 < wordSize
  | _, _ => True

end OpenTela.Swim
