import OpenTela.Swim.Detector

namespace OpenTela.Swim

/-- The critical sections of a node, under the two locks of its state. -/
inductive SwimOp where
  | addMember (pid : PeerID)
  | removeMember (pid : PeerID)
  | probeOnce
  | processPendingProbes
  | processSuspects
  | updateN (n : ℕ)
  | emit (ev : MemberEvent)
  | getPiggyback (maxEvents : ℕ)
  | ack (seq : ℕ)
  | pingReq (requester : PeerID) (originalSeq : ℕ)
  | processEvents (events : List MemberEvent)
  deriving DecidableEq

abbrev SwimOp.Res : SwimOp → Type
  | probeOnce => Option (PeerID × ℕ)
  | processPendingProbes => List SWIM.IndirectWork
  | processSuspects => List MemberEvent × ℕ
  | getPiggyback _ => List MemberEvent
  | ack _ => Option PendingRelay
  | pingReq _ _ => ℕ
  | _ => Unit

/-- The clock, the draws of the random generator and the orders in which maps are traversed. -/
structure Chance where
  now : ℤ := 0
  pick : ℕ := 0
  order : PeerID → ℕ := fun _ => 0
  seqOrder : ℕ → ℕ := fun _ => 0
  shuffle : ℕ → PeerID → ℕ := fun _ _ => 0

def SWIM.exec (c : Chance) : (o : SwimOp) → SWIM → o.Res × SWIM
  | .addMember pid, s => ((), s.addMember pid)
  | .removeMember pid, s => ((), s.removeMember pid)
  | .probeOnce, s => s.probeOnce c.now c.pick
  | .processPendingProbes, s => s.processPendingProbes c.now c.seqOrder c.shuffle
  | .processSuspects, s => s.processSuspects c.now c.order
  | .updateN n, s => ((), { s with disseminator := s.disseminator.updateN n })
  | .emit ev, s => ((), s.emit ev)
  | .getPiggyback maxEvents, s =>
    let (events, disseminator) := s.disseminator.getPiggyback c.order maxEvents
    (events, { s with disseminator })
  | .ack seq, s => s.ack seq
  | .pingReq requester originalSeq, s => s.pingReq requester originalSeq
  | .processEvents events, s => ((), s.processEvents c.now events)

/-- One critical section of a node's life. -/
structure Turn where
  chance : Chance
  op : SwimOp

def SWIM.turn (s : SWIM) (t : Turn) : SWIM := (SWIM.exec t.chance t.op s).2

/-- A node after some turns. An operation is the turns of its critical sections; they may be
those of several operations, interleaved. -/
def SWIM.play (s : SWIM) (turns : List Turn) : SWIM := turns.foldl SWIM.turn s

@[simp] theorem SWIM.play_nil (s : SWIM) : s.play [] = s := rfl

@[simp] theorem SWIM.play_cons (s : SWIM) (t : Turn) (turns : List Turn) : s.play (t :: turns) = (s.turn t).play turns := rfl

theorem SWIM.play_append (s : SWIM) (turns more : List Turn) : s.play (turns ++ more) = (s.play turns).play more :=
  List.foldl_append

theorem SWIM.play_concat (s : SWIM) (turns : List Turn) (t : Turn) : s.play (turns ++ [t]) = (s.play turns).turn t :=
  s.play_append turns [t]

/-- Every turn meets a condition on the state it is taken in. -/
def SWIM.Along (meets : SWIM → Turn → Prop) : SWIM → List Turn → Prop
  | _, [] => True
  | s, t :: rest => meets s t ∧ Along meets (s.turn t) rest

/-- One round of `Run`, undisturbed. -/
def tick (c : Chance) : List Turn := [⟨c, .probeOnce⟩, ⟨c, .processPendingProbes⟩, ⟨c, .processSuspects⟩]

/-- Something holds in every state that is passed through, the first and the last included. -/
def SWIM.Throughout (holds : SWIM → Prop) : SWIM → List Turn → Prop
  | s, [] => holds s
  | s, t :: rest => holds s ∧ Throughout holds (s.turn t) rest

theorem SWIM.Throughout.first {holds : SWIM → Prop} {s : SWIM} {turns : List Turn} (throughout : s.Throughout holds turns) :
    holds s := by
  cases turns with
  | nil => exact throughout
  | cons t rest => exact throughout.1

theorem SWIM.Throughout.last {holds : SWIM → Prop} {s : SWIM} {turns : List Turn} (throughout : s.Throughout holds turns) :
    holds (s.play turns) := by
  induction turns generalizing s with
  | nil => exact throughout
  | cons t rest ih => exact ih throughout.2

theorem SWIM.Throughout.concat {holds : SWIM → Prop} {s : SWIM} {turns : List Turn} {t : Turn}
    (throughout : s.Throughout holds turns) (last : holds ((s.play turns).turn t)) : s.Throughout holds (turns ++ [t]) := by
  induction turns generalizing s with
  | nil => exact ⟨throughout, last⟩
  | cons t' rest ih => exact ⟨throughout.1, ih throughout.2 last⟩

instance SWIM.decidableAlong {meets : SWIM → Turn → Prop} [∀ s t, Decidable (meets s t)] :
    (s : SWIM) → (turns : List Turn) → Decidable (s.Along meets turns)
  | _, [] => inferInstanceAs (Decidable True)
  | s, t :: rest =>
    have : Decidable ((s.turn t).Along meets rest) := SWIM.decidableAlong (s.turn t) rest
    inferInstanceAs (Decidable (meets s t ∧ _))

instance SWIM.decidableThroughout {holds : SWIM → Prop} [∀ s, Decidable (holds s)] :
    (s : SWIM) → (turns : List Turn) → Decidable (s.Throughout holds turns)
  | s, [] => inferInstanceAs (Decidable (holds s))
  | s, t :: rest =>
    have : Decidable ((s.turn t).Throughout holds rest) := SWIM.decidableThroughout (s.turn t) rest
    inferInstanceAs (Decidable (holds s ∧ _))

/-- How a node records a peer. -/
def SWIM.Records (s : SWIM) (p : PeerID) (status : MemberStatus) (incarnation : ℕ) : Prop :=
  ∃ m, s.members.lookup p = some m ∧ m.status = status ∧ m.incarnation = incarnation

instance SWIM.decidableRecords (s : SWIM) (p : PeerID) (status : MemberStatus) (incarnation : ℕ) : Decidable (s.Records p status incarnation) :=
  decidable_of_iff ((s.members.lookup p).any (fun m => m.status = status ∧ m.incarnation = incarnation) = true)
    (by simp [SWIM.Records, Option.any_eq_true])

/-- What holds of a node at first and survives every turn holds throughout. -/
theorem SWIM.play_keeps (holds : SWIM → Prop) (steps : ∀ s t, holds s → holds (s.turn t)) {s : SWIM} (now : holds s)
    (turns : List Turn) : holds (s.play turns) := by
  induction turns generalizing s with
  | nil => exact now
  | cons t rest ih => exact ih (steps s t now)

end OpenTela.Swim
