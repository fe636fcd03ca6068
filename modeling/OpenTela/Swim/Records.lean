import OpenTela.Swim.Turns

namespace OpenTela.Swim

/-- The peer a note is about. -/
def Note.about : Note → PeerID
  | .joined p => p
  | .restored e => e.peer
  | .accepted e => e.peer
  | .died p _ => p
  | .suspected _ e => e.peer

/-- What is recorded of a member when a newer event about it comes in. -/
def MemberState.hear (now : ℤ) (m : MemberState) (e : MemberEvent) : Option MemberState :=
  match e.status with
  | .alive | .join => some (.alive e.incarnation)
  | .suspect => some (.suspect e.incarnation now)
  | .dead => none
  | .unknown => some m

def MemberState.expired (m : MemberState) (timeout now : ℤ) : Prop := m.status = .suspect ∧ m.suspectTime + timeout < now

def MemberEvent.death (e : MemberEvent) : List Note := if e.status = .dead then [.died e.peer e.incarnation] else []

/-- One change of what a node records of peer `p`, with the notes it takes (the newest first), in a
turn that gives up probes of the peers `lost`. -/
inductive Change (timeout now : ℤ) (lost : PeerID → Prop) (p : PeerID) : Option MemberState → List Note → Option MemberState → Prop
  | elsewhere {r : Option MemberState} (note : Note) : note.about ≠ p → Change timeout now lost p r [note] r
  | joined {r : Option MemberState} : Change timeout now lost p r [.joined p] (some (.alive 0))
  | removed {r : Option MemberState} : Change timeout now lost p r [] none
  | suspected {r : Option MemberState} : lost p →
      Change timeout now lost p r [.suspected r { peer := p, status := .suspect }] (r.map (fun m => .suspect m.incarnation now))
  | expired {m : MemberState} : m.expired timeout now → Change timeout now lost p (some m) [.died p m.incarnation] none
  | restored {e : MemberEvent} : e.peer = p → e.status = .alive ∨ e.status = .join →
      Change timeout now lost p none [.restored e] (some (.alive e.incarnation))
  | unmet {e : MemberEvent} : e.peer = p → Change timeout now lost p none e.death none
  | superseded {m : MemberState} {e : MemberEvent} : e.peer = p → e.superseded m.incarnation m.status = true →
      Change timeout now lost p (some m) e.death (some m)
  | accepted {m : MemberState} {e : MemberEvent} : e.peer = p → e.superseded m.incarnation m.status = false →
      Change timeout now lost p (some m) (.accepted e :: e.death) (m.hear now e)

/-- Any number of such changes. -/
inductive Changes (timeout now : ℤ) (lost : PeerID → Prop) (p : PeerID) : Option MemberState → List Note → Option MemberState → Prop
  | refl {r : Option MemberState} : Changes timeout now lost p r [] r
  | next {r r' r'' : Option MemberState} {notes new : List Note} :
      Changes timeout now lost p r notes r' → Change timeout now lost p r' new r'' → Changes timeout now lost p r (new ++ notes) r''

theorem Changes.trans {timeout now : ℤ} {lost : PeerID → Prop} {p : PeerID} {r r' r'' : Option MemberState} {notes more : List Note}
    (first : Changes timeout now lost p r notes r') (second : Changes timeout now lost p r' more r'') :
    Changes timeout now lost p r (more ++ notes) r'' := by
  induction second with
  | refl => exact first
  | next _ change ih =>
    rw [List.append_assoc]
    exact .next ih change

theorem Changes.one {timeout now : ℤ} {lost : PeerID → Prop} {p : PeerID} {r r' : Option MemberState} {new : List Note}
    (change : Change timeout now lost p r new r') : Changes timeout now lost p r new r' := by
  have changes := Changes.next (.refl (r := r)) change
  rwa [List.append_nil] at changes

/-- What a step does to the node's records: the notes it takes tell the changes to each. -/
structure SWIM.Moves (now : ℤ) (lost : PeerID → Prop) (s s' : SWIM) : Prop where
  self : s'.self = s.self
  config : s'.config = s.config
  changes : ∃ notes, s'.history = notes ++ s.history ∧
    ∀ p, Changes s.config.suspectTimeout now lost p (s.members.lookup p) notes (s'.members.lookup p)

namespace SWIM.Moves

variable {now : ℤ} {lost : PeerID → Prop} {s s' s'' : SWIM}

theorem still (self : s'.self = s.self) (config : s'.config = s.config) (history : s'.history = s.history)
    (members : ∀ p, s'.members.lookup p = s.members.lookup p) : Moves now lost s s' :=
  ⟨self, config, [], history, fun p => by rw [members]; exact .refl⟩

theorem refl : Moves now lost s s := still rfl rfl rfl (fun _ => rfl)

theorem trans (first : Moves now lost s s') (second : Moves now lost s' s'') : Moves now lost s s'' := by
  obtain ⟨notes, history, changes⟩ := first.changes
  obtain ⟨more, history', changes'⟩ := second.changes
  refine ⟨second.self.trans first.self, second.config.trans first.config, more ++ notes, ?_, fun p => ?_⟩
  · rw [history', history, List.append_assoc]
  · have later := changes' p
    rw [first.config] at later
    exact (changes p).trans later

theorem foldl {α : Type} {step : SWIM → α → SWIM} (steps : ∀ s a, Moves now lost s (step s a)) (l : List α) :
    Moves now lost s (l.foldl step s) := by
  induction l generalizing s with
  | nil => exact refl
  | cons a rest ih => exact (steps s a).trans ih

/-- A step that changes the record of one peer and takes notes about that peer only. -/
theorem about (notes : List Note) (self : s'.self = s.self) (config : s'.config = s.config)
    (history : s'.history = notes ++ s.history) (p : PeerID) (about : ∀ note ∈ notes, note.about = p)
    (others : ∀ q, q ≠ p → s'.members.lookup q = s.members.lookup q)
    (change : Change s.config.suspectTimeout now lost p (s.members.lookup p) notes (s'.members.lookup p)) : Moves now lost s s' := by
  refine ⟨self, config, notes, history, fun q => ?_⟩
  by_cases same : q = p
  · subst same
    exact .one change
  · rw [others q same]
    clear history change
    induction notes with
    | nil => exact .refl
    | cons note rest ih =>
      have elsewhere : note.about ≠ q := by rw [about note List.mem_cons_self]; exact Ne.symm same
      exact .next (ih (fun note member => about note (List.mem_cons_of_mem _ member))) (.elsewhere note elsewhere)

end SWIM.Moves

namespace SWIM

variable (s : SWIM) (now : ℤ) {lost : PeerID → Prop}

theorem addMember_moves (pid : PeerID) : Moves now lost s (s.addMember pid) := by
  refine .about [.joined pid] rfl rfl rfl pid (by simp [Note.about]) (fun q different => ?_) ?_
  · exact AList.lookup_insert_ne different
  · have here : (s.addMember pid).members.lookup pid = some (.alive 0) := AList.lookup_insert _
    rw [here]
    exact .joined

theorem removeMember_moves (pid : PeerID) : Moves now lost s (s.removeMember pid) := by
  refine .about [] rfl rfl rfl pid (by simp) (fun q different => ?_) ?_
  · exact AList.lookup_erase_ne different
  · have here : (s.removeMember pid).members.lookup pid = none := AList.lookup_erase _ _
    rw [here]
    exact .removed

theorem probeOnce_moves (pick : ℕ) : Moves now lost s (s.probeOnce now pick).2 := by
  unfold probeOnce
  split
  · exact .refl
  · exact .still rfl rfl rfl (fun _ => rfl)

theorem markSuspect_moves (seq : ℕ) (gone : ∀ pp, s.pendingProbes.lookup seq = some pp → lost pp.target) : Moves now lost s (markSuspect now s seq) := by
  unfold markSuspect
  split
  · exact .refl
  · rename_i pp found
    refine .about [.suspected (s.members.lookup pp.target) (suspicion pp)] rfl rfl rfl pp.target
      (by simp [Note.about, suspicion]) (fun q different => ?_) ?_
    · dsimp only
      split
      · exact AList.lookup_insert_ne different
      · rfl
    · dsimp only
      cases known : s.members.lookup pp.target with
      | none =>
        rw [show AList.lookup pp.target s.members = none from known]
        exact .suspected (gone pp found)
      | some m =>
        rw [show AList.lookup pp.target (s.members.insert pp.target (.suspect m.incarnation now)) =
          some (.suspect m.incarnation now) from AList.lookup_insert _]
        exact .suspected (gone pp found)

theorem prepareIndirect_members (shuffle : ℕ → PeerID → ℕ) (work : List IndirectWork × SWIM) (seq : ℕ) :
    Moves now lost work.2 (prepareIndirect now shuffle work seq).2 := by
  unfold prepareIndirect
  split
  · exact .refl
  · exact .still rfl rfl rfl (fun _ => rfl)

theorem prepareIndirects_moves (shuffle : ℕ → PeerID → ℕ) (seqs : List ℕ) (work : List IndirectWork × SWIM) :
    Moves now lost work.2 (seqs.foldl (prepareIndirect now shuffle) work).2 := by
  induction seqs generalizing work with
  | nil => exact .refl
  | cons seq rest ih => exact (prepareIndirect_members now shuffle work seq).trans (ih _)

theorem markSuspect_pending {seq seq' : ℕ} {pp : PendingProbe}
    (found : (markSuspect now s seq).pendingProbes.lookup seq' = some pp) : s.pendingProbes.lookup seq' = some pp := by
  unfold markSuspect at found
  split at found
  · exact found
  · by_cases same : seq' = seq
    · subst same
      rw [AList.lookup_erase] at found
      cases found
    · rwa [AList.lookup_erase_ne same] at found

theorem markSuspects_moves (seqs : List ℕ) {s : SWIM}
    (gone : ∀ seq ∈ seqs, ∀ pp, s.pendingProbes.lookup seq = some pp → lost pp.target) :
    Moves now lost s (seqs.foldl (markSuspect now) s) := by
  induction seqs generalizing s with
  | nil => exact .refl
  | cons seq rest ih =>
    refine (s.markSuspect_moves now seq (gone seq List.mem_cons_self)).trans (ih (fun seq' member pp found => ?_))
    exact gone seq' (List.mem_cons_of_mem _ member) pp (s.markSuspect_pending now found)

/-- Whether a probe of the peer is given up at that time. -/
def givesUp (p : PeerID) : Bool :=
  s.pendingProbes.keys.any (fun seq => (s.pendingProbes.lookup seq).any (fun pp => s.verdict now pp = .suspect ∧ pp.target = p))

theorem givesUp_of_due {order : ℕ → ℕ} {seq : ℕ} {pp : PendingProbe} (due : seq ∈ s.due now order .suspect)
    (found : s.pendingProbes.lookup seq = some pp) : s.givesUp now pp.target = true := by
  obtain ⟨member, judged⟩ := List.mem_filter.mp due
  rw [found] at judged
  have verdict : s.verdict now pp = .suspect := by simpa using judged
  refine List.any_eq_true.mpr ⟨seq, mem_ordered.mp member, ?_⟩
  rw [found]
  simpa using verdict

theorem processPendingProbes_moves (order : ℕ → ℕ) (shuffle : ℕ → PeerID → ℕ) :
    Moves now (fun p => s.givesUp now p = true) s (s.processPendingProbes now order shuffle).2 := by
  have marked : Moves now (fun p => s.givesUp now p = true) s ((s.due now order .suspect).foldl (markSuspect now) s) :=
    markSuspects_moves now (s.due now order .suspect) (fun seq due pp found => s.givesUp_of_due now due found)
  exact marked.trans (prepareIndirects_moves now shuffle (s.due now order .indirect) ([], _))

/-- The deaths to declare are of members whose suspicion has run out, one for each. -/
theorem mem_overdue {order : PeerID → ℕ} {ev : MemberEvent} (member : ev ∈ s.overdue now order) :
    ∃ m, s.members.lookup ev.peer = some m ∧ m.expired s.config.suspectTimeout now ∧
      ev = { peer := ev.peer, status := .dead, incarnation := m.incarnation } := by
  obtain ⟨pid, _, found⟩ := List.mem_filterMap.mp member
  obtain ⟨m, recorded, made⟩ := Option.bind_eq_some_iff.mp found
  split at made
  · rename_i late
    have expired : m.status = .suspect ∧ m.suspectTime + s.config.suspectTimeout < now := of_decide_eq_true late
    obtain rfl := (Option.some.inj made).symm
    exact ⟨m, recorded, expired, rfl⟩
  · cases made

theorem overdue_nodup (order : PeerID → ℕ) : ((s.overdue now order).map MemberEvent.peer).Nodup := by
  have distinct : (ordered order s.members.keys).Nodup := ordered_nodup s.members.keys_nodup
  unfold overdue
  rw [List.map_filterMap]
  refine List.Nodup.filterMap ?_ distinct
  intro p q ev here there
  obtain ⟨ev₁, found₁, rfl⟩ := Option.mem_map.mp here
  obtain ⟨ev₂, found₂, same⟩ := Option.mem_map.mp there
  have peer : ∀ {pid : PeerID} {ev : MemberEvent}, ev ∈ (s.members.lookup pid).bind (fun ms =>
      if s.timedOut now ms then some { peer := pid, status := .dead, incarnation := ms.incarnation } else none) → ev.peer = pid := by
    intro pid ev found
    obtain ⟨m, _, made⟩ := Option.bind_eq_some_iff.mp found
    split at made
    · obtain rfl := Option.some.inj made
      rfl
    · cases made
  rw [← peer found₁, ← peer found₂, same]

theorem bury_moves {s : SWIM} {ev : MemberEvent} {m : MemberState} (recorded : s.members.lookup ev.peer = some m)
    (late : m.expired s.config.suspectTimeout now) (incarnation : ev.incarnation = m.incarnation) : Moves now lost s (s.bury ev) := by
  refine .about [.died ev.peer ev.incarnation] rfl rfl rfl ev.peer (by simp [Note.about])
    (fun q different => AList.lookup_erase_ne different) ?_
  have gone : (s.bury ev).members.lookup ev.peer = none := AList.lookup_erase _ _
  rw [gone, recorded, incarnation]
  exact .expired late

theorem buries_moves (dead : List MemberEvent) {s : SWIM} (distinct : (dead.map MemberEvent.peer).Nodup)
    (due : ∀ ev ∈ dead, ∃ m, s.members.lookup ev.peer = some m ∧ m.expired s.config.suspectTimeout now ∧ ev.incarnation = m.incarnation) :
    Moves now lost s (dead.foldl bury s) := by
  induction dead generalizing s with
  | nil => exact .refl
  | cons ev rest ih =>
    obtain ⟨m, recorded, late, incarnation⟩ := due ev List.mem_cons_self
    rw [List.map_cons, List.nodup_cons] at distinct
    refine (bury_moves now recorded late incarnation).trans (ih distinct.2 (fun other member => ?_))
    have different : other.peer ≠ ev.peer := fun same => distinct.1 (same ▸ List.mem_map_of_mem member)
    obtain ⟨m', recorded', late', incarnation'⟩ := due other (List.mem_cons_of_mem _ member)
    exact ⟨m', (AList.lookup_erase_ne different).trans recorded', late', incarnation'⟩

theorem processSuspects_moves (order : PeerID → ℕ) : Moves now lost s (s.processSuspects now order).2 := by
  refine buries_moves now _ (s.overdue_nodup now order) (fun ev member => ?_)
  obtain ⟨m, recorded, late, same⟩ := s.mem_overdue now member
  exact ⟨m, recorded, late, congrArg MemberEvent.incarnation same⟩

theorem buries_lookup (dead : List MemberEvent) (s : SWIM) (p : PeerID) :
    (dead.foldl bury s).members.lookup p = if p ∈ dead.map MemberEvent.peer then none else s.members.lookup p := by
  induction dead generalizing s with
  | nil => rfl
  | cons ev rest ih =>
    rw [List.foldl_cons, ih, List.map_cons]
    by_cases later : p ∈ rest.map MemberEvent.peer
    · rw [if_pos later, if_pos (List.mem_cons_of_mem _ later)]
    · rw [if_neg later]
      by_cases here : p = ev.peer
      · rw [if_pos (here ▸ List.mem_cons_self), here]
        exact AList.lookup_erase _ _
      · rw [if_neg (List.not_mem_cons_of_ne_of_not_mem here later)]
        exact AList.lookup_erase_ne here

/-- The table loses the members whose suspicion has run out, and no others. -/
theorem processSuspects_lookup (order : PeerID → ℕ) {p : PeerID} {m : MemberState} (found : s.members.lookup p = some m) :
    (s.processSuspects now order).2.members.lookup p = none ↔ m.expired s.config.suspectTimeout now := by
  have looked : (s.processSuspects now order).2.members.lookup p =
      if p ∈ (s.overdue now order).map MemberEvent.peer then none else s.members.lookup p := buries_lookup _ s p
  rw [looked]
  constructor
  · intro removed
    have member : p ∈ (s.overdue now order).map MemberEvent.peer := by
      by_contra absent
      rw [if_neg absent, found] at removed
      cases removed
    obtain ⟨ev, due, rfl⟩ := List.mem_map.mp member
    obtain ⟨m', recorded, late, _⟩ := s.mem_overdue now due
    rw [found] at recorded
    cases recorded
    exact late
  · intro late
    have due : ({ peer := p, status := .dead, incarnation := m.incarnation } : MemberEvent) ∈ s.overdue now order := by
      refine List.mem_filterMap.mpr ⟨p, mem_ordered.mpr (AList.mem_keys.mpr (AList.lookup_isSome.mp (by rw [found]; rfl))), ?_⟩
      have out : s.timedOut now m = true := decide_eq_true late
      rw [found, Option.bind_some, if_pos out]
    rw [if_pos (List.mem_map.mpr ⟨_, due, rfl⟩)]

/-- A note of a death, where the event tells of one. -/
theorem noteDeath (s : SWIM) (ev : MemberEvent) :
    (if ev.status = .dead then s.noting (.died ev.peer ev.incarnation) else s) = { s with history := ev.death ++ s.history } := by
  unfold MemberEvent.death
  split
  · rfl
  · rfl

theorem death_about {ev : MemberEvent} {note : Note} (member : note ∈ ev.death) : note.about = ev.peer := by
  unfold MemberEvent.death at member
  split at member
  · rw [List.mem_singleton.mp member]
    rfl
  · cases member

theorem meet_eq_self {ev : MemberEvent} (silent : ¬(ev.status = .alive ∨ ev.status = .join)) : s.meet ev = s := if_neg silent

theorem accept_self (ev : MemberEvent) : (accept now s ev).self = s.self := by
  unfold accept
  split
  all_goals rfl

theorem accept_config (ev : MemberEvent) : (accept now s ev).config = s.config := by
  unfold accept
  split
  all_goals rfl

theorem accept_history (ev : MemberEvent) : (accept now s ev).history = s.history := by
  unfold accept
  split
  all_goals rfl

theorem accept_lookup {ev : MemberEvent} {m : MemberState} (recorded : s.members.lookup ev.peer = some m) :
    (accept now s ev).members.lookup ev.peer = m.hear now ev := by
  unfold accept MemberState.hear
  cases ev.status with
  | join => exact AList.lookup_insert _
  | alive => exact AList.lookup_insert _
  | suspect => exact AList.lookup_insert _
  | dead => exact AList.lookup_erase _ _
  | unknown => exact recorded

theorem accept_lookup_ne {ev : MemberEvent} {q : PeerID} (different : q ≠ ev.peer) :
    (accept now s ev).members.lookup q = s.members.lookup q := by
  unfold accept
  cases ev.status with
  | join => exact AList.lookup_insert_ne different
  | alive => exact AList.lookup_insert_ne different
  | suspect => exact AList.lookup_insert_ne different
  | dead => exact AList.lookup_erase_ne different
  | unknown => rfl

theorem processEvent_moves (ev : MemberEvent) : Moves now lost s (processEvent now s ev) := by
  unfold processEvent
  split
  · split
    · exact .still rfl rfl rfl (fun _ => rfl)
    · exact .refl
  · rw [noteDeath]
    dsimp only
    cases found : s.members.lookup ev.peer with
    | none =>
      by_cases alive : ev.status = .alive ∨ ev.status = .join
      · have living : ev.death = [] := if_neg (by rcases alive with alive | join <;> simp [*])
        simp only [living, List.nil_append, meet, if_pos alive]
        refine .about [.restored ev] rfl rfl rfl ev.peer (by simp [Note.about]) (fun q different => AList.lookup_insert_ne different) ?_
        have here : ((s.resize (s.members.insert ev.peer (.alive ev.incarnation))).noting (.restored ev)).members.lookup ev.peer =
            some (.alive ev.incarnation) := AList.lookup_insert _
        rw [here, found]
        exact .restored rfl alive
      · rw [meet_eq_self _ alive]
        refine .about ev.death rfl rfl rfl ev.peer (fun note member => death_about member) (fun q _ => rfl) ?_
        rw [found]
        exact .unmet rfl
    | some m =>
      dsimp only
      cases old : ev.superseded m.incarnation m.status with
      | true =>
        rw [if_pos rfl]
        refine .about ev.death rfl rfl rfl ev.peer (fun note member => death_about member) (fun q _ => rfl) ?_
        rw [found]
        exact .superseded rfl old
      | false =>
        rw [if_neg (by decide)]
        refine .about (.accepted ev :: ev.death) ?_ ?_ ?_ ev.peer ?_ (fun q different => ?_) ?_
        · exact accept_self _ now ev
        · exact accept_config _ now ev
        · exact congrArg (Note.accepted ev :: ·) (accept_history _ now ev)
        · exact List.forall_mem_cons.mpr ⟨rfl, fun note member => death_about member⟩
        · exact accept_lookup_ne { s with history := ev.death ++ s.history } now different
        · rw [show ((accept now { s with history := ev.death ++ s.history } ev).noting (.accepted ev)).members.lookup ev.peer =
            m.hear now ev from accept_lookup { s with history := ev.death ++ s.history } now found, found]
          exact .accepted rfl old

theorem processEvent_self (ev : MemberEvent) : (processEvent now s ev).self = s.self := by
  have moves : Moves now (fun _ => False) s (processEvent now s ev) := s.processEvent_moves now ev
  exact moves.self

theorem processEvents_moves (events : List MemberEvent) : Moves now lost s (s.processEvents now events) :=
  .foldl (fun s ev => processEvent_moves s now ev) events

theorem ack_moves (seq : ℕ) : Moves now lost s (s.ack seq).2 := by
  unfold ack
  split
  · exact .still rfl rfl rfl (fun _ => rfl)
  · exact .still rfl rfl rfl (fun _ => rfl)

/-- The peers a probe of which is given up in a turn. -/
def Lost (t : Turn) (p : PeerID) : Prop := t.op = .processPendingProbes ∧ s.givesUp t.chance.now p = true

theorem processEvents_self (events : List MemberEvent) : (s.processEvents now events).self = s.self := by
  have moves : Moves now (fun _ => False) s (s.processEvents now events) := s.processEvents_moves now events
  exact moves.self

/-- What a turn of a node's life does to its records. -/
theorem turn_moves (t : Turn) : Moves t.chance.now (s.Lost t) s (s.turn t) := by
  obtain ⟨c, o⟩ := t
  cases o with
  | addMember pid => exact s.addMember_moves c.now pid
  | removeMember pid => exact s.removeMember_moves c.now pid
  | probeOnce => exact s.probeOnce_moves c.now c.pick
  | processPendingProbes =>
    have moves := s.processPendingProbes_moves c.now c.seqOrder c.shuffle
    have same : (fun p => s.givesUp c.now p = true) = s.Lost ⟨c, .processPendingProbes⟩ :=
      funext (fun p => propext ⟨fun given => ⟨rfl, given⟩, fun lost => lost.2⟩)
    rwa [same] at moves
  | processSuspects => exact s.processSuspects_moves c.now c.order
  | updateN n => exact .still rfl rfl rfl (fun _ => rfl)
  | emit ev => exact .still rfl rfl rfl (fun _ => rfl)
  | getPiggyback maxEvents => exact .still rfl rfl rfl (fun _ => rfl)
  | ack seq => exact s.ack_moves c.now seq
  | pingReq requester originalSeq => exact .still rfl rfl rfl (fun _ => rfl)
  | processEvents events => exact s.processEvents_moves c.now events

theorem play_self (turns : List Turn) : (s.play turns).self = s.self :=
  play_keeps (fun s' => s'.self = s.self) (fun s' t same => ((s'.turn_moves t).self).trans same) rfl turns

/-- What was noted is noted for good. -/
theorem play_history (turns : List Turn) : ∃ notes, (s.play turns).history = notes ++ s.history := by
  refine play_keeps (fun s' => ∃ notes, s'.history = notes ++ s.history) (fun s' t earlier => ?_) ⟨[], rfl⟩ turns
  obtain ⟨notes, history⟩ := earlier
  obtain ⟨new, added, _⟩ := (s'.turn_moves t).changes
  exact ⟨new ++ notes, by rw [added, history, List.append_assoc]⟩

theorem play_config (turns : List Turn) : (s.play turns).config = s.config :=
  play_keeps (fun s' => s'.config = s.config) (fun s' t same => ((s'.turn_moves t).config).trans same) rfl turns

end SWIM

end OpenTela.Swim
