import OpenTela.Swim.Dissemination

namespace OpenTela.Swim

structure Config where
  probeTimeout : ℤ
  indirectProbeTimeout : ℤ
  indirectProbes : ℤ
  suspectTimeout : ℤ
  retransmitLimit : ℕ → ℤ

/-- What is recorded of a member. The dead are not recorded; the zero time is `0`. -/
structure MemberState where
  status : MemberStatus
  incarnation : ℕ
  suspectTime : ℤ
  kept : status = .alive ∨ status = .suspect
  deriving DecidableEq

namespace MemberState

def alive (incarnation : ℕ) : MemberState := { status := .alive, incarnation, suspectTime := 0, kept := Or.inl rfl }

def suspect (incarnation : ℕ) (now : ℤ) : MemberState :=
  { status := .suspect, incarnation, suspectTime := now, kept := Or.inr rfl }

@[simp] theorem alive_status (incarnation : ℕ) : (alive incarnation).status = .alive := rfl
@[simp] theorem alive_incarnation (incarnation : ℕ) : (alive incarnation).incarnation = incarnation := rfl
@[simp] theorem suspect_status (incarnation : ℕ) (now : ℤ) : (suspect incarnation now).status = .suspect := rfl
@[simp] theorem suspect_incarnation (incarnation : ℕ) (now : ℤ) : (suspect incarnation now).incarnation = incarnation := rfl
@[simp] theorem suspect_suspectTime (incarnation : ℕ) (now : ℤ) : (suspect incarnation now).suspectTime = now := rfl

end MemberState

structure PendingProbe where
  target : PeerID
  deadline : ℤ
  indirectSent : Bool := false
  indirectDeadline : ℤ := 0

structure PendingRelay where
  requester : PeerID
  originalSeq : ℕ

/-- What happened to the table, for the record; no operation reads it. -/
inductive Note where
  | joined (p : PeerID)
  | restored (e : MemberEvent)
  | accepted (e : MemberEvent)
  | died (p : PeerID) (incarnation : ℕ)
  | suspected (known : Option MemberState) (e : MemberEvent)
  deriving DecidableEq

structure SWIM where
  self : PeerID
  config : Config
  eventCh : List MemberEvent := []
  disseminator : Disseminator
  members : Store PeerID MemberState := ∅
  incarnation : ℕ := 0
  seq : ℕ := 0
  pendingProbes : Store ℕ PendingProbe := ∅
  pendingRelays : Store ℕ PendingRelay := ∅
  history : List Note := []

namespace SWIM

def new (self : PeerID) (config : Config) : SWIM := { self, config, disseminator := .new config.retransmitLimit 2 }

/-- The table and, with it, the estimate of the size of the cluster. -/
def resize (s : SWIM) (members : Store PeerID MemberState) : SWIM :=
  { s with members, disseminator := s.disseminator.updateN (members.keys.length + 1) }

def noting (s : SWIM) (note : Note) : SWIM := { s with history := note :: s.history }

def addMember (s : SWIM) (pid : PeerID) : SWIM := (s.resize (s.members.insert pid (.alive 0))).noting (.joined pid)

def removeMember (s : SWIM) (pid : PeerID) : SWIM := s.resize (s.members.erase pid)

/-- Adding to a counter of 64 bits. -/
def succ (n : ℕ) : ℕ := (n + 1) % wordSize

/-- The locked part of `probeOnce`: whom to ping, and under which number. -/
def probeOnce (s : SWIM) (now : ℤ) (pick : ℕ) : Option (PeerID × ℕ) × SWIM :=
  match s.members.keys[pick % s.members.keys.length]? with
  | none => (none, s)
  | some target =>
    let seq := succ s.seq
    let probe : PendingProbe := { target, deadline := now + s.config.probeTimeout }
    (some (target, seq), { s with seq, pendingProbes := s.pendingProbes.insert seq probe })

def others (s : SWIM) (target : PeerID) : List PeerID := s.members.keys.filter (fun pid => pid ≠ target)

/-- What has become of a probe that is under way. -/
inductive Verdict where
  | waiting
  | suspect
  | indirect
  deriving DecidableEq

def verdict (s : SWIM) (now : ℤ) (pp : PendingProbe) : Verdict :=
  if pp.indirectSent then
    if pp.indirectDeadline < now then .suspect else .waiting
  else if pp.deadline < now then
    if 0 < s.config.indirectProbes then
      if 0 < (s.others pp.target).length then .indirect else .suspect
    else .suspect
  else .waiting

/-- The numbers of the probes with that verdict, in the order in which the map is traversed. -/
def due (s : SWIM) (now : ℤ) (order : ℕ → ℕ) (v : Verdict) : List ℕ :=
  (ordered order s.pendingProbes.keys).filter (fun seq => (s.pendingProbes.lookup seq).any (fun pp => s.verdict now pp = v))

/-- What is gossiped about the target of a failed probe. -/
def suspicion (pp : PendingProbe) : MemberEvent := { peer := pp.target, status := .suspect }

def markSuspect (now : ℤ) (s : SWIM) (seq : ℕ) : SWIM :=
  match s.pendingProbes.lookup seq with
  | none => s
  | some pp =>
    let known := s.members.lookup pp.target
    { s with
      members :=
        match known with
        | some ms => s.members.insert pp.target (.suspect ms.incarnation now)
        | none => s.members
      disseminator := s.disseminator.enqueue (suspicion pp)
      pendingProbes := s.pendingProbes.erase seq
      history := .suspected known (suspicion pp) :: s.history }

structure IndirectWork where
  target : PeerID
  seq : ℕ
  relays : List PeerID

def prepareIndirect (now : ℤ) (shuffle : ℕ → PeerID → ℕ) (work : List IndirectWork × SWIM) (seq : ℕ) :
    List IndirectWork × SWIM :=
  match work.2.pendingProbes.lookup seq with
  | none => work
  | some pp =>
    let others := ordered (shuffle seq) (work.2.others pp.target)
    let k := min work.2.config.indirectProbes.toNat others.length
    let sent := { pp with indirectSent := true, indirectDeadline := now + work.2.config.indirectProbeTimeout }
    (work.1 ++ [{ target := pp.target, seq, relays := others.take k }],
      { work.2 with pendingProbes := work.2.pendingProbes.insert seq sent })

/-- The locked part of `processPendingProbes`: the indirect probes to send afterwards. -/
def processPendingProbes (s : SWIM) (now : ℤ) (order : ℕ → ℕ) (shuffle : ℕ → PeerID → ℕ) : List IndirectWork × SWIM :=
  let toSuspect := s.due now order .suspect
  let toIndirect := s.due now order .indirect
  toIndirect.foldl (prepareIndirect now shuffle) ([], toSuspect.foldl (markSuspect now) s)

def timedOut (s : SWIM) (now : ℤ) (ms : MemberState) : Bool :=
  decide (ms.status = .suspect ∧ ms.suspectTime + s.config.suspectTimeout < now)

def bury (s : SWIM) (ev : MemberEvent) : SWIM :=
  { s with
    members := s.members.erase ev.peer
    disseminator := s.disseminator.enqueue ev
    history := .died ev.peer ev.incarnation :: s.history }

def overdue (s : SWIM) (now : ℤ) (order : PeerID → ℕ) : List MemberEvent :=
  (ordered order s.members.keys).filterMap (fun pid =>
    (s.members.lookup pid).bind (fun ms =>
      if s.timedOut now ms then some { peer := pid, status := .dead, incarnation := ms.incarnation } else none))

/-- The locked part of `processSuspects`: the events to emit and the size of the cluster. -/
def processSuspects (s : SWIM) (now : ℤ) (order : PeerID → ℕ) : (List MemberEvent × ℕ) × SWIM :=
  let dead := s.overdue now order
  let left := dead.foldl bury s
  ((dead, left.members.keys.length + 1), left)

/-- The first half of an incoming `Ack`: a relay it completes, or else the probe it resolves. -/
def ack (s : SWIM) (seq : ℕ) : Option PendingRelay × SWIM :=
  match s.pendingRelays.lookup seq with
  | some relay => (some relay, { s with pendingRelays := s.pendingRelays.erase seq })
  | none => (none, { s with pendingProbes := s.pendingProbes.erase seq })

/-- The first half of an incoming `PingReq`: the number under which the target is pinged. -/
def pingReq (s : SWIM) (requester : PeerID) (originalSeq : ℕ) : ℕ × SWIM :=
  let seq := succ s.seq
  (seq, { s with seq, pendingRelays := s.pendingRelays.insert seq { requester, originalSeq } })

def emit (s : SWIM) (ev : MemberEvent) : SWIM := { s with eventCh := s.eventCh ++ [ev] }

def refute (s : SWIM) : SWIM :=
  let incarnation := succ s.incarnation
  { s with incarnation, disseminator := s.disseminator.enqueue { peer := s.self, status := .alive, incarnation } }

/-- An event about a peer that is not in the table. -/
def meet (s : SWIM) (ev : MemberEvent) : SWIM :=
  if ev.status = .alive ∨ ev.status = .join then
    (s.resize (s.members.insert ev.peer (.alive ev.incarnation))).noting (.restored ev)
  else s

/-- An event that is newer than what the table holds of its peer. -/
def accept (now : ℤ) (s : SWIM) (ev : MemberEvent) : SWIM :=
  match ev.status with
  | .alive | .join => { s with members := s.members.insert ev.peer (.alive ev.incarnation) }
  | .suspect => { s with members := s.members.insert ev.peer (.suspect ev.incarnation now) }
  | .dead =>
    let s := s.resize (s.members.erase ev.peer)
    { s with disseminator := s.disseminator.enqueue ev }.emit ev
  | .unknown => s

/-- One round of the loop of `processEvents`. -/
def processEvent (now : ℤ) (s : SWIM) (ev : MemberEvent) : SWIM :=
  if ev.peer = s.self then
    if ev.status = .suspect ∨ ev.status = .dead then s.refute else s
  else
    let s := if ev.status = .dead then s.noting (.died ev.peer ev.incarnation) else s
    match s.members.lookup ev.peer with
    | none => s.meet ev
    | some ms => if ev.superseded ms.incarnation ms.status then s else (accept now s ev).noting (.accepted ev)

def processEvents (s : SWIM) (now : ℤ) (events : List MemberEvent) : SWIM := events.foldl (processEvent now) s

end SWIM

end OpenTela.Swim
