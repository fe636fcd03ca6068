import OpenTela.Lib.Winner
import OpenTela.Swim.Records

namespace OpenTela.Swim

theorem SWIM.processEvents_one (s : SWIM) (now : ℤ) (e : MemberEvent) : s.processEvents now [e] = SWIM.processEvent now s e := rfl

/-- An event about another peer, decided by what is recorded of it. -/
theorem SWIM.processEvent_lookup (s : SWIM) (now : ℤ) {e : MemberEvent} {m : MemberState} (other : e.peer ≠ s.self)
    (found : s.members.lookup e.peer = some m) :
    (SWIM.processEvent now s e).members.lookup e.peer =
      if e.superseded m.incarnation m.status then some m else m.hear now e := by
  unfold processEvent
  rw [if_neg other, noteDeath]
  dsimp only
  rw [found]
  dsimp only
  split
  · exact found
  · exact accept_lookup { s with history := e.death ++ s.history } now found

/-- A stranger is taken up when an event says that it is alive or joins. -/
theorem SWIM.processEvent_stranger (s : SWIM) (now : ℤ) {e : MemberEvent} (other : e.peer ≠ s.self)
    (stranger : s.members.lookup e.peer = none) (alive : e.status = .alive ∨ e.status = .join) :
    (SWIM.processEvent now s e).members.lookup e.peer = some (.alive e.incarnation) := by
  unfold processEvent
  rw [if_neg other, noteDeath]
  dsimp only
  rw [stranger]
  dsimp only
  rw [meet, if_pos alive]
  exact AList.lookup_insert _

section Order

/-- The order of what the table can hold: incarnation first, and suspicion above its absence. -/
def standing (incarnation : ℕ) (status : MemberStatus) : ℕ ×ₗ Bool := toLex (incarnation, decide (status = .suspect))

def MemberState.standing (m : MemberState) : ℕ ×ₗ Bool := Swim.standing m.incarnation m.status

def MemberEvent.standing (e : MemberEvent) : ℕ ×ₗ Bool := Swim.standing e.incarnation e.status

/-- An event that leaves its peer in the table. -/
def MemberEvent.Living (e : MemberEvent) : Prop := e.status = .alive ∨ e.status = .join ∨ e.status = .suspect

variable {m m' : MemberState} {e : MemberEvent}

theorem MemberState.standing_inj (same : m.standing = m'.standing) : m.status = m'.status ∧ m.incarnation = m'.incarnation := by
  have parts : (m.incarnation, decide (m.status = .suspect)) = (m'.incarnation, decide (m'.status = .suspect)) := same
  obtain ⟨incarnation, suspect⟩ := Prod.mk.inj parts
  refine ⟨?_, incarnation⟩
  have agree := decide_eq_decide.mp suspect
  rcases m.kept with alive | suspected
  · rcases m'.kept with alive' | suspected'
    · rw [alive, alive']
    · rw [agree.mpr suspected', suspected']
  · rw [suspected, agree.mp suspected]

/-- At the table, the four priorities come down to two. -/
theorem MemberEvent.superseded_iff_standing (living : e.Living) :
    e.superseded m.incarnation m.status = true ↔ e.standing ≤ m.standing := by
  have lex : e.standing ≤ m.standing ↔ e.incarnation < m.incarnation ∨
      (e.incarnation = m.incarnation ∧ decide (e.status = .suspect) ≤ decide (m.status = .suspect)) :=
    Prod.Lex.toLex_le_toLex
  have priorities : statusPriority e.status ≤ statusPriority m.status ↔ decide (e.status = .suspect) ≤ decide (m.status = .suspect) := by
    rcases living with event | event | event
    · rcases m.kept with record | record
      · simp [event, record]
      · simp [event, record, statusPriority]
    · rcases m.kept with record | record
      · simp [event, record, statusPriority]
      · simp [event, record, statusPriority]
    · rcases m.kept with record | record
      · simp [event, record, statusPriority]
      · simp [event, record]
  rw [e.superseded_iff, rank_le, lex, priorities]

theorem MemberState.hear_standing (now : ℤ) (living : e.Living) : ∃ m', m.hear now e = some m' ∧ m'.standing = e.standing := by
  unfold MemberState.hear MemberEvent.standing
  rcases living with event | event | event
  · exact ⟨.alive e.incarnation, by rw [event], by rw [event]; rfl⟩
  · exact ⟨.alive e.incarnation, by rw [event], by rw [event]; rfl⟩
  · exact ⟨.suspect e.incarnation now, by rw [event], by rw [event]; rfl⟩

end Order

/-- One event moves the record to the higher of the two. -/
theorem SWIM.processEvent_standing (s : SWIM) (now : ℤ) {e : MemberEvent} {m : MemberState} (living : e.Living)
    (other : e.peer ≠ s.self) (found : s.members.lookup e.peer = some m) :
    ∃ m', (SWIM.processEvent now s e).members.lookup e.peer = some m' ∧ m'.standing = max m.standing e.standing := by
  rw [s.processEvent_lookup now other found]
  split
  · rename_i old
    exact ⟨m, rfl, (max_eq_left ((e.superseded_iff_standing living).mp old)).symm⟩
  · rename_i newer
    obtain ⟨m', heard, same⟩ := m.hear_standing now living
    have above : m.standing ≤ e.standing := le_of_not_ge (fun le => newer ((e.superseded_iff_standing living).mpr le))
    exact ⟨m', heard, same.trans (max_eq_right above).symm⟩

/-- Lists of events, each with the time at which it is processed. -/
def SWIM.processBatches (s : SWIM) (batches : List (ℤ × List MemberEvent)) : SWIM :=
  batches.foldl (fun s batch => s.processEvents batch.1 batch.2) s

section Batches

variable {p : PeerID} {m : MemberState} {S : Set (ℕ ×ₗ Bool)}

theorem SWIM.processEvents_winner {s : SWIM} (now : ℤ) (other : p ≠ s.self) {events : List MemberEvent}
    (about : ∀ e ∈ events, e.peer = p ∧ e.Living) (found : s.members.lookup p = some m) (winner : Winner S (some m.standing)) :
    ∃ m', (s.processEvents now events).members.lookup p = some m' ∧
      Winner (S ∪ {r | ∃ e ∈ events, r = e.standing}) (some m'.standing) := by
  induction events generalizing s m S with
  | nil => exact ⟨m, found, by simpa using winner⟩
  | cons e rest ih =>
    obtain ⟨here, living⟩ := about e List.mem_cons_self
    obtain ⟨m', there, higher⟩ := s.processEvent_standing now living (here ▸ other) (here ▸ found)
    have next : Winner (insert e.standing S) (some m'.standing) := by
      rw [higher]
      exact winner.insert e.standing
    have self := s.processEvent_self now e
    obtain ⟨m'', last, greatest⟩ := ih (self.symm ▸ other) (fun e' member => about e' (List.mem_cons_of_mem _ member))
      (here ▸ there) next
    refine ⟨m'', last, ?_⟩
    have same : S ∪ {r | ∃ e' ∈ e :: rest, r = e'.standing} = insert e.standing S ∪ {r | ∃ e' ∈ rest, r = e'.standing} := by
      ext r
      simp only [List.mem_cons, exists_eq_or_imp, Set.mem_union, Set.mem_ofPred_eq, Set.mem_insert_iff]
      tauto
    rwa [same]

theorem SWIM.processBatches_winner {s : SWIM} (other : p ≠ s.self) {batches : List (ℤ × List MemberEvent)}
    (about : ∀ batch ∈ batches, ∀ e ∈ batch.2, e.peer = p ∧ e.Living) (found : s.members.lookup p = some m)
    (winner : Winner S (some m.standing)) :
    ∃ m', (s.processBatches batches).members.lookup p = some m' ∧
      Winner (S ∪ {r | ∃ batch ∈ batches, ∃ e ∈ batch.2, r = e.standing}) (some m'.standing) := by
  induction batches generalizing s m S with
  | nil => exact ⟨m, found, by simpa using winner⟩
  | cons batch rest ih =>
    obtain ⟨m', there, next⟩ := SWIM.processEvents_winner batch.1 other (about batch List.mem_cons_self) found winner
    have self := s.processEvents_self batch.1 batch.2
    obtain ⟨m'', last, greatest⟩ := ih (self.symm ▸ other) (fun b member => about b (List.mem_cons_of_mem _ member)) there next
    refine ⟨m'', last, ?_⟩
    have same : S ∪ {r | ∃ b ∈ batch :: rest, ∃ e ∈ b.2, r = e.standing} =
        S ∪ {r | ∃ e ∈ batch.2, r = e.standing} ∪ {r | ∃ b ∈ rest, ∃ e ∈ b.2, r = e.standing} := by
      ext r
      rw [Set.union_assoc]
      refine or_congr_right ⟨?_, ?_⟩
      · rintro ⟨b, member, here⟩
        rcases List.mem_cons.mp member with rfl | later
        · exact Or.inl here
        · exact Or.inr ⟨b, later, here⟩
      · rintro (here | ⟨b, later, here⟩)
        · exact ⟨batch, List.mem_cons_self, here⟩
        · exact ⟨b, List.mem_cons_of_mem _ later, here⟩
    rwa [same]

end Batches

/-- What is recorded after any events about a member that leave it in the table is the highest of them
and of what was recorded before. It depends neither on their order, nor on how often each came, nor
on how they were grouped into messages and when these came in. -/
theorem events_commute (s : SWIM) {p : PeerID} {m : MemberState} (other : p ≠ s.self) (member : s.members.lookup p = some m)
    (batches : List (ℤ × List MemberEvent)) (about : ∀ batch ∈ batches, ∀ e ∈ batch.2, e.peer = p ∧ e.Living) :
    ∃ m', (s.processBatches batches).members.lookup p = some m' ∧
      IsGreatest (insert m.standing {r | ∃ batch ∈ batches, ∃ e ∈ batch.2, r = e.standing}) m'.standing ∧
      ∀ batches', (∀ e, (∃ batch ∈ batches, e ∈ batch.2) ↔ ∃ batch ∈ batches', e ∈ batch.2) →
        ∃ m'', (s.processBatches batches').members.lookup p = some m'' ∧ m''.status = m'.status ∧ m''.incarnation = m'.incarnation := by
  have alone : Winner {m.standing} (some m.standing) := isGreatest_singleton
  obtain ⟨m', found, greatest⟩ := SWIM.processBatches_winner other about member alone
  refine ⟨m', found, greatest, fun batches' same => ?_⟩
  have about' : ∀ batch ∈ batches', ∀ e ∈ batch.2, e.peer = p ∧ e.Living := by
    intro batch here e event
    obtain ⟨batch', here', event'⟩ := (same e).mpr ⟨batch, here, event⟩
    exact about batch' here' e event'
  obtain ⟨m'', found', greatest'⟩ := SWIM.processBatches_winner other about' member alone
  have sets : {r | ∃ batch ∈ batches, ∃ e ∈ batch.2, r = e.standing} = {r | ∃ batch ∈ batches', ∃ e ∈ batch.2, r = e.standing} := by
    ext r
    constructor
    · rintro ⟨batch, here, e, event, rfl⟩
      obtain ⟨batch', here', event'⟩ := (same e).mp ⟨batch, here, event⟩
      exact ⟨batch', here', e, event', rfl⟩
    · rintro ⟨batch, here, e, event, rfl⟩
      obtain ⟨batch', here', event'⟩ := (same e).mpr ⟨batch, here, event⟩
      exact ⟨batch', here', e, event', rfl⟩
  rw [sets] at greatest
  exact ⟨m'', found', MemberState.standing_inj (Option.some.inj (greatest'.unique greatest))⟩

namespace Mixed

def node : SWIM :=
  (SWIM.new "a" { probeTimeout := 1, indirectProbeTimeout := 1, indirectProbes := 3, suspectTimeout := 5, retransmitLimit := fun n => n }).addMember
    "b"

def batches : List (ℤ × List MemberEvent) :=
  [(1, [{ peer := "b", status := .suspect, incarnation := 2 }, { peer := "b", status := .alive, incarnation := 1 }]),
    (2, [{ peer := "b", status := .join, incarnation := 2 }])]

/-- The same events in another order and in other messages, one of them twice. -/
def reordered : List (ℤ × List MemberEvent) :=
  [(7, [{ peer := "b", status := .join, incarnation := 2 }]),
    (3, [{ peer := "b", status := .alive, incarnation := 1 }, { peer := "b", status := .suspect, incarnation := 2 }]),
    (9, [{ peer := "b", status := .join, incarnation := 2 }])]

end Mixed

theorem events_commute_mixed :
    ∃ m, (Mixed.node.processBatches Mixed.reordered).members.lookup "b" = some m ∧ m.status = .suspect ∧ m.incarnation = 2 := by
  have recorded : (Mixed.node.processBatches Mixed.batches).members.lookup "b" = some (.suspect 2 1) := by decide +kernel
  have about : ∀ batch ∈ Mixed.batches, ∀ e ∈ batch.2, e.peer = "b" ∧ e.Living := by
    simp [Mixed.batches, MemberEvent.Living]
  have same : ∀ e, (∃ batch ∈ Mixed.batches, e ∈ batch.2) ↔ ∃ batch ∈ Mixed.reordered, e ∈ batch.2 := by
    intro e
    simp only [Mixed.batches, Mixed.reordered, List.mem_cons, List.not_mem_nil, or_false, exists_eq_or_imp, exists_eq_left]
    tauto
  obtain ⟨m, found, _, all⟩ := events_commute Mixed.node (p := "b") (m := .alive 0) (by decide +kernel) (by decide +kernel)
    Mixed.batches about
  obtain rfl := Option.some.inj (recorded.symm.trans found)
  exact all Mixed.reordered same

end OpenTela.Swim
