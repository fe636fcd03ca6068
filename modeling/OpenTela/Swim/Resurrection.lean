import OpenTela.Swim.Gossip

namespace OpenTela.Swim

/-- A peer that an event brought back was not dead at the incarnation of the event, or at a later one. -/
def Outlives : Note → Note → Prop
  | .restored e, .died p i => e.peer = p → i < e.incarnation
  | _, _ => True

/-- A note that tells of no peer brought back. -/
def Note.Plain (note : Note) : Prop := ∀ e, note ≠ .restored e

/-- A step that brings nobody back. -/
def SWIM.Plain (s s' : SWIM) : Prop := ∃ notes, s'.history = notes ++ s.history ∧ ∀ note ∈ notes, note.Plain

namespace SWIM.Plain

variable {s s' s'' : SWIM}

theorem still (history : s'.history = s.history) : s.Plain s' := ⟨[], history, by simp⟩

theorem one (note : Note) (plain : note.Plain) (history : s'.history = note :: s.history) : s.Plain s' :=
  ⟨[note], history, fun _ member => List.mem_singleton.mp member ▸ plain⟩

theorem trans (first : s.Plain s') (second : s'.Plain s'') : s.Plain s'' := by
  obtain ⟨notes, history, plain⟩ := first
  obtain ⟨more, history', plain'⟩ := second
  refine ⟨more ++ notes, by rw [history', history, List.append_assoc], fun note member => ?_⟩
  rcases List.mem_append.mp member with new | old
  · exact plain' note new
  · exact plain note old

theorem foldl {α : Type} {step : SWIM → α → SWIM} (steps : ∀ (s : SWIM) a, s.Plain (step s a)) (l : List α) :
    s.Plain (l.foldl step s) := by
  induction l generalizing s with
  | nil => exact still rfl
  | cons a rest ih => exact (steps s a).trans ih

/-- Who comes back after a step that brings nobody back came back before it. -/
theorem outlives (plain : s.Plain s') (before : s.history.Pairwise Outlives) : s'.history.Pairwise Outlives := by
  obtain ⟨notes, history, plain⟩ := plain
  rw [history]
  clear history
  induction notes with
  | nil => exact before
  | cons note rest ih =>
    refine List.pairwise_cons.mpr ⟨fun earlier _ => ?_, ih (fun n member => plain n (List.mem_cons_of_mem _ member))⟩
    cases note with
    | restored e => exact absurd rfl (plain _ List.mem_cons_self e)
    | joined p => trivial
    | accepted e => trivial
    | died p i => trivial
    | suspected known e => trivial

end SWIM.Plain

namespace SWIM

variable (s : SWIM) (now : ℤ)

theorem markSuspect_plain (seq : ℕ) : s.Plain (markSuspect now s seq) := by
  unfold markSuspect
  split
  · exact .still rfl
  · exact .one (.suspected _ _) (by simp [Note.Plain]) rfl

theorem prepareIndirect_history (shuffle : ℕ → PeerID → ℕ) (work : List IndirectWork × SWIM) (seq : ℕ) :
    (prepareIndirect now shuffle work seq).2.history = work.2.history := by
  unfold prepareIndirect
  split
  · rfl
  · rfl

theorem processPendingProbes_plain (order : ℕ → ℕ) (shuffle : ℕ → PeerID → ℕ) :
    s.Plain (s.processPendingProbes now order shuffle).2 := by
  have marked : s.Plain ((s.due now order .suspect).foldl (markSuspect now) s) :=
    .foldl (fun s seq => s.markSuspect_plain now seq) _
  have prepared : ∀ (seqs : List ℕ) (work : List IndirectWork × SWIM),
      (seqs.foldl (prepareIndirect now shuffle) work).2.history = work.2.history := by
    intro seqs
    induction seqs with
    | nil => exact fun _ => rfl
    | cons seq rest ih => exact fun work => (ih _).trans (prepareIndirect_history now shuffle work seq)
  exact marked.trans (.still (prepared (s.due now order .indirect) ([], _)))

theorem processSuspects_plain (order : PeerID → ℕ) : s.Plain (s.processSuspects now order).2 :=
  .foldl (fun _ ev => .one (.died ev.peer ev.incarnation) (by simp [Note.Plain]) rfl) _

/-- Only events bring a peer back. -/
theorem turn_plain (t : Turn) (eventless : ∀ events, t.op ≠ .processEvents events) : s.Plain (s.turn t) := by
  obtain ⟨c, o⟩ := t
  cases o with
  | addMember pid => exact .one (.joined pid) (by simp [Note.Plain]) rfl
  | removeMember pid => exact .still rfl
  | probeOnce =>
    refine .still ?_
    unfold turn exec probeOnce
    dsimp only
    split
    · rfl
    · rfl
  | processPendingProbes => exact s.processPendingProbes_plain c.now c.seqOrder c.shuffle
  | processSuspects => exact s.processSuspects_plain c.now c.order
  | updateN n => exact .still rfl
  | emit ev => exact .still rfl
  | getPiggyback maxEvents => exact .still rfl
  | ack seq =>
    refine .still ?_
    unfold turn exec ack
    dsimp only
    split
    · rfl
    · rfl
  | pingReq requester originalSeq => exact .still rfl
  | processEvents events => exact absurd rfl (eventless events)

end SWIM

/-- A death that is no older than an event about the dead. -/
def Note.Covers (e : MemberEvent) : Note → Prop
  | .died p i => p = e.peer ∧ e.incarnation ≤ i
  | _ => False

instance Note.decidableCovers (e : MemberEvent) : (note : Note) → Decidable (note.Covers e)
  | .died p i => inferInstanceAs (Decidable (p = e.peer ∧ e.incarnation ≤ i))
  | .joined _ | .restored _ | .accepted _ | .suspected _ _ => inferInstanceAs (Decidable False)

/-- An `Alive` or `Join` event that is no newer than a death of its peer finds the peer in the table. -/
def SWIM.FindsMember (s : SWIM) (e : MemberEvent) : Prop :=
  (e.status = .alive ∨ e.status = .join) → e.peer ≠ s.self → (∃ note ∈ s.history, note.Covers e) →
    (s.members.lookup e.peer).isSome = true

instance SWIM.decidableFindsMember (s : SWIM) (e : MemberEvent) : Decidable (s.FindsMember e) :=
  inferInstanceAs (Decidable ((e.status = .alive ∨ e.status = .join) → e.peer ≠ s.self → (∃ note ∈ s.history, note.Covers e) →
    (s.members.lookup e.peer).isSome = true))

/-- The same of a list of events, each in the state it is processed in. -/
def SWIM.FindMembers (now : ℤ) : SWIM → List MemberEvent → Prop
  | _, [] => True
  | s, e :: rest => s.FindsMember e ∧ FindMembers now (SWIM.processEvent now s e) rest

instance SWIM.decidableFindMembers (now : ℤ) : (s : SWIM) → (events : List MemberEvent) → Decidable (SWIM.FindMembers now s events)
  | _, [] => inferInstanceAs (Decidable True)
  | s, e :: rest =>
    have : Decidable (SWIM.FindMembers now (SWIM.processEvent now s e) rest) := SWIM.decidableFindMembers now _ rest
    inferInstanceAs (Decidable (s.FindsMember e ∧ _))

def SWIM.Heeds (s : SWIM) (t : Turn) : Prop := ∀ events, t.op = .processEvents events → SWIM.FindMembers t.chance.now s events

instance SWIM.decidableHeeds (s : SWIM) (t : Turn) : Decidable (s.Heeds t) :=
  match same : t.op with
  | .processEvents events =>
    decidable_of_iff (SWIM.FindMembers t.chance.now s events) (by simp [SWIM.Heeds, same])
  | .addMember _ | .removeMember _ | .probeOnce | .processPendingProbes | .processSuspects | .updateN _ | .emit _ | .getPiggyback _
  | .ack _ | .pingReq _ _ => .isTrue (by simp [SWIM.Heeds, same])

theorem SWIM.processEvent_outlives (s : SWIM) (now : ℤ) {e : MemberEvent} (finds : s.FindsMember e)
    (before : s.history.Pairwise Outlives) : (SWIM.processEvent now s e).history.Pairwise Outlives := by
  have told : ∀ note ∈ e.death, note.Plain := by
    intro note member
    unfold MemberEvent.death at member
    split at member
    · rw [List.mem_singleton.mp member]
      simp [Note.Plain]
    · cases member
  unfold processEvent
  split
  · split
    · exact before
    · exact before
  · rename_i other
    rw [noteDeath]
    dsimp only
    cases found : s.members.lookup e.peer with
    | none =>
      by_cases alive : e.status = .alive ∨ e.status = .join
      · have living : e.death = [] := if_neg (by rcases alive with alive | join <;> simp [*])
        simp only [living, List.nil_append, meet, if_pos alive]
        refine List.pairwise_cons.mpr ⟨fun earlier member => ?_, before⟩
        cases earlier with
        | died p i =>
          rintro rfl
          by_contra stale
          have present := finds alive other ⟨_, member, rfl, Nat.not_lt.mp stale⟩
          rw [found] at present
          cases present
        | joined p => trivial
        | restored e' => trivial
        | accepted e' => trivial
        | suspected known e' => trivial
      · rw [meet_eq_self _ alive]
        exact SWIM.Plain.outlives (⟨e.death, rfl, told⟩ : s.Plain { s with history := e.death ++ s.history }) before
    | some m =>
      dsimp only
      split
      · exact SWIM.Plain.outlives (⟨e.death, rfl, told⟩ : s.Plain { s with history := e.death ++ s.history }) before
      · refine SWIM.Plain.outlives (s := s) (⟨.accepted e :: e.death, ?_, ?_⟩) before
        · exact congrArg (Note.accepted e :: ·) (accept_history _ now e)
        · exact List.forall_mem_cons.mpr ⟨by simp [Note.Plain], told⟩

theorem SWIM.turn_outlives (s : SWIM) (t : Turn) (heeds : s.Heeds t) (before : s.history.Pairwise Outlives) :
    (s.turn t).history.Pairwise Outlives := by
  by_cases eventless : ∀ events, t.op ≠ .processEvents events
  · exact (s.turn_plain t eventless).outlives before
  · obtain ⟨events, same⟩ := not_forall_not.mp eventless
    obtain ⟨c, o⟩ := t
    obtain rfl : o = .processEvents events := same
    have finds : SWIM.FindMembers c.now s events := heeds events rfl
    change (s.processEvents c.now events).history.Pairwise Outlives
    clear heeds eventless
    induction events generalizing s with
    | nil => exact before
    | cons e rest ih => exact ih _ (s.processEvent_outlives c.now finds.1 before) finds.2

/-- What is recorded of a peer that has died at some incarnation: the peer was added by hand since, or the
record is of a later incarnation. -/
def Above (p : PeerID) (history : List Note) (r : Option MemberState) : Prop :=
  ∀ m, r = some m → ∀ later earlier i, history = later ++ .died p i :: earlier → .joined p ∈ later ∨ i < m.incarnation

section Above

variable {p : PeerID} {history notes : List Note} {m m' : MemberState} {r r' : Option MemberState}

theorem Above.none : Above p history none := fun _ absent => nomatch absent

theorem Above.cons {note : Note} (other : ∀ i, note ≠ .died p i) (above : Above p history r) : Above p (note :: history) r := by
  intro m found later earlier i split
  cases later with
  | nil => exact absurd (List.cons.inj split).1 (other i)
  | cons first rest => exact (above m found rest earlier i (List.cons.inj split).2).imp_left (List.mem_cons_of_mem _)

theorem Above.mono (le : m.incarnation ≤ m'.incarnation) (above : Above p history (some m)) : Above p history (some m') := by
  intro m'' found later earlier i split
  obtain rfl := Option.some.inj found
  exact (above m rfl later earlier i split).imp_right (fun lt => lt.trans_le le)

theorem Above.joined : Above p (.joined p :: history) (some m) := by
  intro m' _ later earlier i split
  cases later with
  | nil => cases (List.cons.inj split).1
  | cons first rest =>
    rw [← (List.cons.inj split).1]
    exact Or.inl List.mem_cons_self

theorem Above.died {i : ℕ} (lt : i < m.incarnation) (above : Above p history (some m)) : Above p (.died p i :: history) (some m) := by
  intro m' found later earlier j split
  obtain rfl := Option.some.inj found
  cases later with
  | nil =>
    cases (List.cons.inj split).1
    exact Or.inr lt
  | cons first rest => exact (above m rfl rest earlier j (List.cons.inj split).2).imp_left (List.mem_cons_of_mem _)

/-- A record is not above an event that is newer. -/
theorem MemberEvent.le_of_newer {e : MemberEvent} (newer : e.superseded m.incarnation m.status = false) : m.incarnation ≤ e.incarnation := by
  by_contra ahead
  have lt : e.incarnation < m.incarnation := Nat.lt_of_not_le ahead
  have passed := e.superseded_iff.mpr (rank_le.mpr (Or.inl lt) : rank e.incarnation e.status ≤ rank m.incarnation m.status)
  rw [newer] at passed
  cases passed

/-- A death that is passed over is of an earlier incarnation. -/
theorem MemberEvent.lt_of_superseded {e : MemberEvent} (dead : e.status = .dead) (old : e.superseded m.incarnation m.status = true) :
    e.incarnation < m.incarnation := by
  rcases rank_le.mp (e.superseded_iff.mp old) with lt | ⟨_, le⟩
  · exact lt
  · rw [dead] at le
    rcases m.kept with alive | suspect
    · rw [alive] at le
      exact absurd le (by decide)
    · rw [suspect] at le
      exact absurd le (by decide)

theorem Change.above {timeout now : ℤ} {lost : PeerID → Prop} (change : Change timeout now lost p r notes r')
    (outlives : (notes ++ history).Pairwise Outlives) (above : Above p history r) : Above p (notes ++ history) r' := by
  cases change with
  | elsewhere note different => exact above.cons (fun i same => different (same ▸ rfl))
  | joined => exact .joined
  | removed => exact .none
  | suspected _ =>
    refine Above.cons (fun _ same => nomatch same) ?_
    cases r with
    | none => exact .none
    | some m => exact Above.mono (show m.incarnation ≤ (MemberState.suspect m.incarnation now).incarnation from le_rfl) above
  | expired _ => exact .none
  | @restored e about _ =>
    intro m found later earlier i split
    obtain rfl := Option.some.inj found
    cases later with
    | nil => cases (List.cons.inj split).1
    | cons first rest =>
      have rest' : history = rest ++ .died p i :: earlier := (List.cons.inj split).2
      have dead : .died p i ∈ history := by
        rw [rest']
        exact List.mem_append_right _ List.mem_cons_self
      exact Or.inr ((List.pairwise_cons.mp outlives).1 _ dead about)
  | unmet _ => exact .none
  | @superseded m e about old =>
    by_cases dead : e.status = .dead
    · rw [MemberEvent.death, if_pos dead, about]
      exact Above.died (e.lt_of_superseded dead old) above
    · rw [MemberEvent.death, if_neg dead]
      exact above
  | @accepted m e about newer =>
    have le := e.le_of_newer newer
    refine Above.cons (fun _ same => nomatch same) ?_
    unfold MemberState.hear MemberEvent.death
    cases status : e.status with
    | join => exact above.mono le
    | alive => exact above.mono le
    | suspect => exact above.mono le
    | dead => exact .none
    | unknown => exact above

theorem Changes.above {timeout now : ℤ} {lost : PeerID → Prop} (changes : Changes timeout now lost p r notes r')
    (outlives : (notes ++ history).Pairwise Outlives) (above : Above p history r) : Above p (notes ++ history) r' := by
  induction changes with
  | refl => exact above
  | next _ change ih =>
    rw [List.append_assoc] at outlives ⊢
    exact change.above outlives (ih (List.pairwise_append.mp outlives).2.1)

end Above

/-- The two together, along a run. -/
theorem SWIM.play_outlives {s : SWIM} {turns : List Turn} (heeds : s.Along (fun s t => s.Heeds t) turns)
    (outlives : s.history.Pairwise Outlives) (above : ∀ p, Above p s.history (s.members.lookup p)) :
    (s.play turns).history.Pairwise Outlives ∧ ∀ p, Above p (s.play turns).history ((s.play turns).members.lookup p) := by
  induction turns generalizing s with
  | nil => exact ⟨outlives, above⟩
  | cons t rest ih =>
    obtain ⟨notes, history, changes⟩ := (s.turn_moves t).changes
    have next := s.turn_outlives t heeds.1 outlives
    refine ih heeds.2 next (fun p => ?_)
    rw [history] at next ⊢
    exact (changes p).above next (above p)

/-- In a run in which stale events about the dead find them in the table, no event of an incarnation at
which a peer has died brings it back; and a peer that is in the table again was added by hand, or is
recorded at a later incarnation. -/
theorem dead_stay_dead (self : PeerID) (config : Config) (turns : List Turn)
    (heeds : (SWIM.new self config).Along (fun s t => s.Heeds t) turns) (p : PeerID) (i : ℕ) (later earlier : List Note)
    (died : ((SWIM.new self config).play turns).history = later ++ .died p i :: earlier) :
    (∀ e, .restored e ∈ later → e.peer = p → i < e.incarnation) ∧
      ∀ m, ((SWIM.new self config).play turns).members.lookup p = some m → .joined p ∈ later ∨ i < m.incarnation := by
  obtain ⟨outlives, above⟩ := SWIM.play_outlives heeds .nil (fun p => .none)
  refine ⟨fun e back about => ?_, fun m found => above p m found later earlier i died⟩
  rw [died] at outlives
  exact (List.pairwise_append.mp outlives).2.2 _ back _ List.mem_cons_self about

namespace Returned

def config : Config :=
  { probeTimeout := 500, indirectProbeTimeout := 1000, indirectProbes := 3, suspectTimeout := 5000, retransmitLimit := fun n => 3 * n }

def heard (now : ℤ) (status : MemberStatus) (incarnation : ℕ) : Turn :=
  ⟨{ now }, .processEvents [{ peer := "b", status, incarnation }]⟩

/-- One peer says that `b` is dead, after which another one still passes on that it is alive. -/
def rumours (incarnation : ℕ) : List Turn := [heard 1 .alive 3, heard 2 .dead 3, heard 3 .alive incarnation]

/-- What the two leave behind. -/
def notes (incarnation : ℕ) : List Note :=
  [.restored { peer := "b", status := .alive, incarnation }, .accepted { peer := "b", status := .dead, incarnation := 3 }]

def met : Note := .restored { peer := "b", status := .alive, incarnation := 3 }

end Returned

theorem dead_stay_dead_newer :
    (∀ e, .restored e ∈ Returned.notes 4 → e.peer = "b" → 3 < e.incarnation) ∧
      ∀ m, ((SWIM.new "a" Returned.config).play (Returned.rumours 4)).members.lookup "b" = some m →
        .joined "b" ∈ Returned.notes 4 ∨ 3 < m.incarnation :=
  dead_stay_dead "a" Returned.config (Returned.rumours 4) (by decide +kernel) "b" 3 (Returned.notes 4) [Returned.met]
    (by decide +kernel)

/-- A death is forgotten with the record: the next rumour of before brings the peer back. -/
theorem dead_brought_back :
    ((SWIM.new "a" Returned.config).play [Returned.heard 1 .alive 3, Returned.heard 2 .dead 3]).members.lookup "b" = none ∧
      ((SWIM.new "a" Returned.config).play (Returned.rumours 3)).history = Returned.notes 3 ++ .died "b" 3 :: [Returned.met] ∧
      ((SWIM.new "a" Returned.config).play (Returned.rumours 3)).members.lookup "b" = some (.alive 3) :=
  ⟨by decide +kernel, by decide +kernel, by decide +kernel⟩

end OpenTela.Swim
