import OpenTela.Swim.Gossip

namespace OpenTela.Swim

section Refutation

/-- The event by which a node answers an accusation. -/
def SWIM.refutation (s : SWIM) : MemberEvent := { peer := s.self, status := .alive, incarnation := SWIM.succ s.incarnation }

/-- Once a node has heard that it is suspected or dead, its own incarnation is above that of the
accusation; it spreads an event that says it is alive; and whoever receives this and suspects the
node at the incarnation of the accusation holds it alive. -/
def SWIM.Refutes (s : SWIM) (now : ℤ) (e : MemberEvent) : Prop :=
  let s' := s.processEvents now [e]
  e.incarnation < s'.incarnation ∧
    ∃ alive, s'.disseminator.spreads s.self = some alive ∧ alive = { peer := s.self, status := .alive, incarnation := s'.incarnation } ∧
      ∀ (t : SWIM) (now' : ℤ), t.self ≠ s.self → t.Records s.self .suspect e.incarnation →
        (t.processEvents now' [alive]).Records s.self .alive alive.incarnation

theorem SWIM.processEvents_accused (s : SWIM) (now : ℤ) {e : MemberEvent} (about : e.peer = s.self)
    (accusing : e.status = .suspect ∨ e.status = .dead) : s.processEvents now [e] = s.refute := by
  rw [processEvents_one]
  unfold processEvent
  rw [if_pos about, if_pos accusing]

/-- An event that is newer than the record of a peer, and says it is alive, is taken over. -/
theorem SWIM.processEvents_alive {t : SWIM} {p : PeerID} (now : ℤ) {i j : ℕ} {status : MemberStatus} (other : t.self ≠ p)
    (recorded : t.Records p status i) (newer : i < j) :
    (t.processEvents now [{ peer := p, status := .alive, incarnation := j }]).Records p .alive j := by
  obtain ⟨m, found, _, rfl⟩ := recorded
  have looked := t.processEvent_lookup now (e := { peer := p, status := .alive, incarnation := j }) (Ne.symm other) found
  have fresh : ¬ ({ peer := p, status := .alive, incarnation := j } : MemberEvent).superseded m.incarnation m.status = true := by
    rw [MemberEvent.superseded_iff, rank_le]
    dsimp only
    omega
  rw [if_neg fresh] at looked
  exact ⟨.alive j, looked, rfl, rfl⟩

/-- A node refutes an accusation if and only if this is not from an incarnation ahead of its own, and
nothing newer about the node is on its way already. -/
theorem refutes_iff (s : SWIM) (now : ℤ) {e : MemberEvent} (about : e.peer = s.self)
    (accusing : e.status = .suspect ∨ e.status = .dead) :
    s.Refutes now e ↔ e.incarnation < SWIM.succ s.incarnation ∧
      ∀ d, s.disseminator.spreads s.self = some d → d = s.refutation ∨ s.refutation.superseded d.incarnation d.status = false := by
  have spread : s.refute.disseminator.spreads s.self = _ := s.disseminator.spreads_enqueue s.refutation
  unfold SWIM.Refutes
  rw [s.processEvents_accused now about accusing]
  constructor
  · rintro ⟨above, alive, spreads, same, _⟩
    refine ⟨above, fun d found => ?_⟩
    by_cases old : s.refutation.superseded d.incarnation d.status = true
    · rw [spread, if_pos ⟨d, found, old⟩] at spreads
      exact Or.inl (Option.some.inj (found.symm.trans spreads) |>.trans same)
    · exact Or.inr (Bool.eq_false_iff.mpr old)
  · rintro ⟨above, unrivalled⟩
    refine ⟨above, s.refutation, ?_, rfl, fun t now' other recorded => t.processEvents_alive now' other recorded above⟩
    rw [spread]
    split
    · rename_i rival
      obtain ⟨d, found, old⟩ := rival
      rcases unrivalled d found with rfl | newer
      · exact found
      · rw [newer] at old
        cases old
    · rfl

end Refutation

namespace Restarted

def config : Config :=
  { probeTimeout := 500, indirectProbeTimeout := 1000, indirectProbes := 3, suspectTimeout := 5000, retransmitLimit := fun n => 3 * n }

/-- A node that has just been started, again. -/
def node : SWIM := .new "a" config

/-- Another one, which remembers the node's incarnation from before, and then suspected it. -/
def accuser : SWIM :=
  (SWIM.new "b" config).play
    [⟨{ now := 1 }, .processEvents [{ peer := "a", status := .alive, incarnation := 5 }]⟩,
      ⟨{ now := 2 }, .processEvents [{ peer := "a", status := .suspect, incarnation := 5 }]⟩]

def accusation : MemberEvent := { peer := "a", status := .suspect, incarnation := 5 }

end Restarted

theorem refutes_iff_fresh : Restarted.node.Refutes 3 { peer := "a", status := .suspect, incarnation := 0 } := by
  refine (refutes_iff Restarted.node 3 rfl (Or.inl rfl)).mpr ⟨by decide, fun d found => ?_⟩
  cases found

/-- An accusation from before a restart stands: the answer to it is passed over. -/
theorem accusation_stands :
    ¬ Restarted.node.Refutes 3 Restarted.accusation ∧
      (Restarted.node.processEvents 3 [Restarted.accusation]).incarnation = 1 ∧
      (Restarted.node.processEvents 3 [Restarted.accusation]).disseminator.spreads "a" = some Restarted.node.refutation ∧
      Restarted.accuser.Records "a" .suspect 5 ∧
      (Restarted.accuser.processEvents 4 [Restarted.node.refutation]).Records "a" .suspect 5 := by
  refine ⟨fun refutes => ?_, by decide +kernel, by decide +kernel, by decide +kernel, by decide +kernel⟩
  have above : (5 : ℕ) < 1 := refutes.1
  omega

section Suspicion

/-- A failed probe of a peer, known to the node as it may be, is told to the others: the peer is a member,
and the event handed to the buffer makes every node that holds the peer alive at the same
incarnation suspect it. -/
def Told (known : Option MemberState) (e : MemberEvent) : Prop :=
  ∃ m, known = some m ∧ ∀ (self : PeerID) (config : Config) (turns : List Turn) (now : ℤ), self ≠ e.peer →
    ((SWIM.new self config).play turns).Records e.peer .alive m.incarnation →
    ∃ i, (((SWIM.new self config).play turns).processEvents now [e]).Records e.peer .suspect i

theorem Change.suspected_event {timeout now : ℤ} {lost : PeerID → Prop} {p : PeerID} {r r' known : Option MemberState}
    {notes : List Note} {e : MemberEvent} (change : Change timeout now lost p r notes r') (about : e.peer = p)
    (member : .suspected known e ∈ notes) : e = { peer := p, status := .suspect } := by
  have silent : ∀ e' : MemberEvent, .suspected known e ∉ e'.death := by
    intro e' told
    unfold MemberEvent.death at told
    split at told
    · cases List.mem_singleton.mp told
    · cases told
  cases change with
  | elsewhere note different =>
    cases List.mem_singleton.mp member
    exact absurd about different
  | joined => cases List.mem_singleton.mp member
  | removed => cases member
  | suspected _ =>
    cases List.mem_singleton.mp member
    rfl
  | expired _ => cases List.mem_singleton.mp member
  | restored _ _ => cases List.mem_singleton.mp member
  | unmet _ => exact absurd member (silent _)
  | superseded _ _ => exact absurd member (silent _)
  | accepted _ _ =>
    rcases List.mem_cons.mp member with same | told
    · cases same
    · exact absurd told (silent _)

theorem Changes.suspected_event {timeout now : ℤ} {lost : PeerID → Prop} {p : PeerID} {r r' known : Option MemberState}
    {notes : List Note} {e : MemberEvent} (changes : Changes timeout now lost p r notes r') (about : e.peer = p)
    (member : .suspected known e ∈ notes) : e = { peer := p, status := .suspect } := by
  induction changes with
  | refl => cases member
  | next _ change ih =>
    rcases List.mem_append.mp member with new | old
    · exact change.suspected_event about new
    · exact ih old

/-- The event of a failed probe says nothing of the incarnation that is recorded. -/
theorem SWIM.suspected_event {s : SWIM} (empty : s.history = []) (turns : List Turn) {known : Option MemberState} {e : MemberEvent}
    (member : .suspected known e ∈ (s.play turns).history) : e = { peer := e.peer, status := .suspect } := by
  refine play_keeps (fun s => ∀ known e, .suspected known e ∈ s.history → e = { peer := e.peer, status := .suspect })
    (fun s t earlier known e member => ?_) (fun known e member => ?_) turns known e member
  · obtain ⟨notes, history, changes⟩ := (s.turn_moves t).changes
    rw [history] at member
    rcases List.mem_append.mp member with new | old
    · exact (changes e.peer).suspected_event rfl new
    · exact earlier known e old
  · rw [empty] at member
    cases member

/-- A suspicion without an incarnation, at a node that holds the peer alive. -/
theorem SWIM.processEvents_suspicion {t : SWIM} {p : PeerID} (now : ℤ) {i : ℕ} (other : t.self ≠ p) (recorded : t.Records p .alive i) :
    (∃ j, (t.processEvents now [{ peer := p, status := .suspect }]).Records p .suspect j) ↔ i = 0 := by
  obtain ⟨m, found, alive, rfl⟩ := recorded
  have looked := t.processEvent_lookup now (e := { peer := p, status := .suspect }) (Ne.symm other) found
  have old : ({ peer := p, status := .suspect } : MemberEvent).superseded m.incarnation m.status = true ↔ m.incarnation ≠ 0 := by
    rw [MemberEvent.superseded_iff, rank_le, alive]
    simp only [statusPriority]
    omega
  rw [processEvents_one]
  constructor
  · rintro ⟨j, m', there, suspect, _⟩
    by_contra ahead
    rw [if_pos (old.mpr ahead), there] at looked
    rw [Option.some.inj looked, alive] at suspect
    cases suspect
  · intro zero
    rw [if_neg (fun passed => old.mp passed zero)] at looked
    exact ⟨0, .suspect 0 now, looked, rfl, rfl⟩

end Suspicion

namespace Mistold

def after (k : ℤ) : Chance := { now := 600 * k }

/-- A member that joined at incarnation one does not answer; another one is removed while it is probed. -/
def run : List Turn :=
  [⟨after 0, .processEvents [{ peer := "b", status := .join, incarnation := 1 }]⟩, ⟨after 1, .probeOnce⟩,
    ⟨after 2, .processPendingProbes⟩, ⟨after 2, .removeMember "b"⟩, ⟨after 2, .addMember "c"⟩, ⟨after 3, .probeOnce⟩,
    ⟨after 3, .removeMember "c"⟩, ⟨after 4, .processPendingProbes⟩]

def suspicious : SWIM := (SWIM.new "a" Restarted.config).play run

/-- One that holds the first of them alive at the same incarnation. -/
def witness : SWIM :=
  (SWIM.new "d" Restarted.config).play [⟨after 0, .processEvents [{ peer := "b", status := .join, incarnation := 1 }]⟩]

end Mistold

end OpenTela.Swim
