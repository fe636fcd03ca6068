import OpenTela.Swim.Records
import Mathlib.Data.List.Induction

namespace OpenTela.Swim

/-- The node suspects a peer that it holds a record of. -/
def SWIM.Suspects (s : SWIM) (p : PeerID) : Prop := ∃ m, s.members.lookup p = some m ∧ m.status = .suspect

/-- Notes under which a suspicion stands: no `AddMember` of the peer, no `Alive` or `Join` about it accepted. -/
def Standing (p : PeerID) (notes : List Note) : Prop :=
  .joined p ∉ notes ∧ ∀ e, .accepted e ∈ notes → e.peer = p → e.status ≠ .alive ∧ e.status ≠ .join

theorem Standing.append {p : PeerID} {notes more : List Note} (first : Standing p notes) (second : Standing p more) :
    Standing p (more ++ notes) := by
  refine ⟨fun member => ?_, fun e member => ?_⟩
  · rcases List.mem_append.mp member with late | early
    · exact second.1 late
    · exact first.1 early
  · rcases List.mem_append.mp member with late | early
    · exact second.2 e late
    · exact first.2 e early

theorem Standing.nil {p : PeerID} : Standing p [] := ⟨by simp, by simp⟩

theorem Standing.death {p : PeerID} {e : MemberEvent} : Standing p e.death := by
  unfold MemberEvent.death
  split
  · exact ⟨by simp, by simp⟩
  · exact .nil

theorem Standing.of_about {p : PeerID} {note : Note} (different : note.about ≠ p) : Standing p [note] := by
  refine ⟨fun member => different ?_, fun e member here => absurd here (fun here => different ?_)⟩
  · rw [← List.mem_singleton.mp member]
    rfl
  · rw [← List.mem_singleton.mp member]
    exact here

section Changes

variable {timeout now : ℤ} {lost : PeerID → Prop} {p : PeerID} {r : Option MemberState} {notes : List Note} {m : MemberState}

/-- A suspicion was raised now, or it is the one that stood before. -/
theorem Change.suspicion {r' : Option MemberState} (change : Change timeout now lost p r notes r') (found : r' = some m)
    (suspect : m.status = .suspect) : m.suspectTime = now ∨ (r = some m ∧ Standing p notes) := by
  cases change with
  | elsewhere note different => exact Or.inr ⟨found, .of_about different⟩
  | joined =>
    cases found
    cases suspect
  | removed => cases found
  | suspected _ =>
    obtain ⟨old, _, rfl⟩ := Option.map_eq_some_iff.mp found
    exact Or.inl rfl
  | expired _ => cases found
  | restored _ _ =>
    cases found
    cases suspect
  | unmet _ => cases found
  | superseded _ _ => exact Or.inr ⟨found, .death⟩
  | @accepted old e _ newer =>
    unfold MemberState.hear at found
    cases status : e.status with
    | join =>
      rw [status] at found
      cases found
      cases suspect
    | alive =>
      rw [status] at found
      cases found
      cases suspect
    | suspect =>
      rw [status] at found
      cases found
      exact Or.inl rfl
    | dead =>
      rw [status] at found
      cases found
    | unknown =>
      rw [status] at found
      cases found
      refine Or.inr ⟨rfl, Standing.death.append (⟨by simp, fun e' member _ => ?_⟩ : Standing p [.accepted e])⟩
      cases List.mem_singleton.mp member
      simp [status]

theorem Changes.suspicion {r' : Option MemberState} (changes : Changes timeout now lost p r notes r') (found : r' = some m)
    (suspect : m.status = .suspect) : m.suspectTime = now ∨ (r = some m ∧ Standing p notes) := by
  induction changes with
  | refl => exact Or.inr ⟨found, .nil⟩
  | next _ change ih =>
    rcases change.suspicion found suspect with fresh | ⟨rfl, standing⟩
    · exact Or.inl fresh
    · exact (ih rfl).imp_right (fun ⟨before, stood⟩ => ⟨before, stood.append standing⟩)

/-- What is recorded, unless it is not a suspicion at the incarnation of `m`, is still `m`. -/
def Unmoved (m : MemberState) (r : Option MemberState) : Prop :=
  ∀ m', r = some m' → m'.status = .suspect → m'.incarnation = m.incarnation → m' = m

theorem Change.unmoved {r' : Option MemberState} (change : Change timeout now lost p r notes r') (suspect : m.status = .suspect)
    (unheard : ∀ e, .accepted e ∈ notes → e.peer ≠ p) (kept : lost p → now = m.suspectTime)
    (unmoved : Unmoved m r) : Unmoved m r' := by
  intro m' found suspect' incarnation
  cases change with
  | elsewhere note different => exact unmoved m' found suspect' incarnation
  | joined =>
    obtain rfl := Option.some.inj found
    cases suspect'
  | removed => cases found
  | suspected given =>
    obtain ⟨old, _, rfl⟩ := Option.map_eq_some_iff.mp found
    have time : now = m.suspectTime := kept given
    obtain ⟨status, inc, since, _⟩ := m
    simp only at suspect incarnation time
    subst suspect incarnation time
    rfl
  | expired _ => cases found
  | restored _ _ =>
    obtain rfl := Option.some.inj found
    cases suspect'
  | unmet _ => cases found
  | superseded _ _ => exact unmoved m' found suspect' incarnation
  | accepted here _ => exact absurd here (unheard _ List.mem_cons_self)

theorem Changes.unmoved {r' : Option MemberState} (changes : Changes timeout now lost p r notes r') (suspect : m.status = .suspect)
    (unheard : ∀ e, .accepted e ∈ notes → e.peer ≠ p) (kept : lost p → now = m.suspectTime)
    (unmoved : Unmoved m r) : Unmoved m r' := by
  induction changes with
  | refl => exact unmoved
  | next _ change ih =>
    have before := ih (fun e member => unheard e (List.mem_append_right _ member))
    exact change.unmoved suspect (fun e member => unheard e (List.mem_append_left _ member)) kept before

end Changes

/-- In the course of some turns from `s` a peer came under suspicion at time `t₀`, and in every state
since it has been suspected, by a suspicion that stands. -/
def SWIM.SuspectSince (s : SWIM) (turns : List Turn) (p : PeerID) (t₀ : ℤ) : Prop :=
  ∃ before mark since notes, turns = before ++ mark :: since ∧ mark.chance.now = t₀ ∧
    (s.play (before ++ [mark])).Throughout (fun s => s.Suspects p) since ∧ (∀ t ∈ since, t.op ≠ .addMember p) ∧
    (s.play turns).history = notes ++ (s.play (before ++ [mark])).history ∧ Standing p notes

/-- A peer newly added is not suspected. -/
theorem SWIM.Suspects.not_addMember {s : SWIM} {t : Turn} {p : PeerID} (suspects : (s.turn t).Suspects p) : t.op ≠ .addMember p := by
  obtain ⟨c, o⟩ := t
  rintro rfl
  obtain ⟨m, found, suspect⟩ := suspects
  have added : (s.addMember p).members.lookup p = some (.alive 0) := AList.lookup_insert _
  rw [show m = .alive 0 from Option.some.inj (found.symm.trans added)] at suspect
  cases suspect

/-- The time of a suspicion is when it was last raised. -/
theorem SWIM.suspectSince {s : SWIM} {p : PeerID} (stranger : s.members.lookup p = none) (turns : List Turn) {m : MemberState}
    (found : (s.play turns).members.lookup p = some m) (suspect : m.status = .suspect) : s.SuspectSince turns p m.suspectTime := by
  induction turns using List.reverseRecOn with
  | nil =>
    rw [play_nil, stranger] at found
    cases found
  | append_singleton turns t ih =>
    have suspects : (s.play (turns ++ [t])).Suspects p := ⟨m, found, suspect⟩
    have steps : s.play (turns ++ [t]) = (s.play turns).turn t := s.play_concat turns t
    obtain ⟨notes, history, changes⟩ := ((s.play turns).turn_moves t).changes
    rw [← steps] at history changes
    rcases (changes p).suspicion found suspect with raised | ⟨before, standing⟩
    · exact ⟨turns, t, [], [], rfl, raised.symm, suspects, by simp, rfl, .nil⟩
    · obtain ⟨earlier, mark, since, notes', rfl, time, suspected, unadded, story, stood⟩ := ih before
      have played : s.play (earlier ++ mark :: since) = (s.play (earlier ++ [mark])).play since := by
        rw [← s.play_append, List.append_assoc]
        rfl
      refine ⟨earlier, mark, since ++ [t], notes ++ notes', by simp, time, suspected.concat ?_, fun t' member => ?_, ?_,
        stood.append standing⟩
      · rw [← played, ← steps]
        exact suspects
      · rcases List.mem_append.mp member with old | new
        · exact unadded t' old
        · rw [List.mem_singleton.mp new]
          exact (steps ▸ suspects).not_addMember
      · rw [history, story, List.append_assoc]

namespace Postponed

def millisecond : ℤ := 1000000

/-- The defaults of the command line. -/
def config : Config :=
  { probeTimeout := 500 * millisecond
    indirectProbeTimeout := 1000 * millisecond
    indirectProbes := 3
    suspectTimeout := 5000 * millisecond
    retransmitLimit := fun n => 3 * (Nat.log2 n : ℤ) }

def clock (k : ℤ) : Chance := { now := 501 * k * millisecond }

end Postponed

/-- Who is removed by the timeout has been under suspicion for longer than that. -/
theorem suspected_until_removed (self : PeerID) (config : Config) (turns : List Turn) (c : Chance) (p : PeerID)
    (member : ((SWIM.new self config).play turns).members.lookup p ≠ none)
    (removed : (((SWIM.new self config).play turns).turn ⟨c, .processSuspects⟩).members.lookup p = none) :
    ∃ t₀, t₀ + config.suspectTimeout < c.now ∧ (SWIM.new self config).SuspectSince turns p t₀ := by
  obtain ⟨m, found⟩ := Option.ne_none_iff_exists'.mp member
  obtain ⟨suspect, late⟩ := (SWIM.processSuspects_lookup _ c.now c.order found).mp removed
  rw [SWIM.play_config] at late
  exact ⟨m.suspectTime, late, SWIM.suspectSince rfl turns found suspect⟩

theorem suspected_until_removed_unanswered :
    ∃ t₀, t₀ + Postponed.config.suspectTimeout < (Postponed.clock 13).now ∧
      (SWIM.new "a" Postponed.config).SuspectSince
        (⟨Postponed.clock 0, .addMember "b"⟩ :: tick (Postponed.clock 1) ++ tick (Postponed.clock 2)) "b" t₀ :=
  suspected_until_removed "a" Postponed.config _ (Postponed.clock 13) "b" (by decide +kernel) (by decide +kernel)

/-- No probe of the peer is given up, except at one time. -/
def SWIM.Undisturbed (s : SWIM) (p : PeerID) (t₀ : ℤ) (t : Turn) : Prop := s.Lost t p → t.chance.now = t₀

instance SWIM.decidableLost (s : SWIM) (t : Turn) (p : PeerID) : Decidable (s.Lost t p) :=
  inferInstanceAs (Decidable (t.op = .processPendingProbes ∧ s.givesUp t.chance.now p = true))

instance SWIM.decidableUndisturbed (s : SWIM) (p : PeerID) (t₀ : ℤ) (t : Turn) : Decidable (s.Undisturbed p t₀ t) :=
  inferInstanceAs (Decidable (s.Lost t p → t.chance.now = t₀))

theorem SWIM.unmoved {s : SWIM} {p : PeerID} {m : MemberState} (suspect : m.status = .suspect) {turns : List Turn}
    (undisturbed : s.Along (fun s t => s.Undisturbed p m.suspectTime t) turns)
    (unheard : ∀ notes, (s.play turns).history = notes ++ s.history → ∀ e, .accepted e ∈ notes → e.peer ≠ p)
    (found : s.members.lookup p = some m) (stays : s.Throughout (fun s => s.Records p .suspect m.incarnation) turns) :
    s.Throughout (fun s => s.members.lookup p = some m) turns := by
  induction turns generalizing s with
  | nil => exact found
  | cons t rest ih =>
    obtain ⟨notes, history, changes⟩ := (s.turn_moves t).changes
    obtain ⟨more, history'⟩ := (s.turn t).play_history rest
    have story : (s.play (t :: rest)).history = more ++ notes ++ s.history := by
      rw [play_cons, history', history, List.append_assoc]
    have quiet : ∀ e, .accepted e ∈ notes → e.peer ≠ p :=
      fun e member => unheard _ story e (List.mem_append_right _ member)
    have kept : Unmoved m ((s.turn t).members.lookup p) := by
      refine (changes p).unmoved suspect quiet (fun lost => undisturbed.1 lost) (fun m' same _ _ => ?_)
      rw [found] at same
      exact (Option.some.inj same).symm
    obtain ⟨m', there, suspect', incarnation⟩ := stays.2.first
    obtain rfl := kept m' there suspect' incarnation
    refine ⟨found, ih undisturbed.2 (fun later history'' e member => ?_) there stays.2⟩
    refine unheard (later ++ notes) ?_ e (List.mem_append_left _ member)
    rw [play_cons, history'', history, List.append_assoc]

/-- While a peer stays suspected at one incarnation, and no event about it is accepted, the time of its
suspicion stands in every run that gives up no probe of it meanwhile; the first round of timeouts
after the deadline removes the peer. -/
theorem deadline_kept {s : SWIM} {p : PeerID} {m : MemberState} {turns : List Turn} (found : s.members.lookup p = some m)
    (suspect : m.status = .suspect) (undisturbed : s.Along (fun s t => s.Undisturbed p m.suspectTime t) turns)
    (stays : s.Throughout (fun s => s.Records p .suspect m.incarnation) turns)
    (unheard : ∀ notes, (s.play turns).history = notes ++ s.history → ∀ e, .accepted e ∈ notes → e.peer ≠ p) :
    s.Throughout (fun s => s.members.lookup p = some m) turns ∧
      ∀ c : Chance, m.suspectTime + s.config.suspectTimeout < c.now →
        ((s.play turns).turn ⟨c, .processSuspects⟩).members.lookup p = none := by
  have unmoved := SWIM.unmoved suspect undisturbed unheard found stays
  refine ⟨unmoved, fun c late => ?_⟩
  have expired : m.expired (s.play turns).config.suspectTimeout c.now := by
    rw [s.play_config]
    exact ⟨suspect, late⟩
  exact ((s.play turns).processSuspects_lookup c.now c.order unmoved.last).mpr expired

namespace Postponed

/-- A cluster of two: the only other member does not answer, and the second round suspects it. -/
def start : SWIM :=
  (SWIM.new "a" config).play
    (⟨clock 0, .addMember "b"⟩ :: tick (clock 1) ++ [⟨clock 2, .probeOnce⟩, ⟨clock 2, .processPendingProbes⟩])

/-- The rounds of the next five seconds, up to the timeouts of the last one. -/
def rounds : List Turn :=
  ⟨clock 2, .processSuspects⟩ :: ([3, 4, 5, 6, 7, 8, 9, 10, 11].flatMap (fun k => tick (clock k)) ++
    [⟨clock 12, .probeOnce⟩, ⟨clock 12, .processPendingProbes⟩])

/-- The probe under way is answered, and there are no others. -/
def answered : List Turn := [⟨clock 2, .processSuspects⟩, ⟨clock 2, .ack 2⟩, ⟨clock 3, .processPendingProbes⟩]

/-- Whether no event had a part in what was noted. -/
def quiet (s : SWIM) : Bool := s.history.all (fun note => note matches .joined _ | .suspected _ _)

theorem unheard_of_quiet {s : SWIM} (q : quiet s = true) {e : MemberEvent} (member : Note.accepted e ∈ s.history) : False := by
  have impossible := List.all_eq_true.mp q _ member
  cases impossible

end Postponed

theorem deadline_kept_answered :
    Postponed.start.Throughout (fun s => s.members.lookup "b" = some (.suspect 0 (1002 * Postponed.millisecond))) Postponed.answered ∧
      ∀ c : Chance, 1002 * Postponed.millisecond + 5000 * Postponed.millisecond < c.now →
        ((Postponed.start.play Postponed.answered).turn ⟨c, .processSuspects⟩).members.lookup "b" = none := by
  have quiet : Postponed.quiet (Postponed.start.play Postponed.answered) = true := by decide +kernel
  refine deadline_kept (by decide +kernel) rfl (by decide +kernel) (by decide +kernel) (fun notes story e member => ?_)
  exact (Postponed.unheard_of_quiet quiet (story ▸ List.mem_append_left _ member)).elim

/-- A member that is probed again and again while it is suspected outlives its deadline. -/
theorem deadline_postponed :
    let m := MemberState.suspect 0 (1002 * Postponed.millisecond)
    Postponed.start.members.lookup "b" = some m ∧
      Postponed.start.Throughout (fun s => s.Records "b" .suspect 0) Postponed.rounds ∧
      (∀ e, .accepted e ∉ (Postponed.start.play Postponed.rounds).history) ∧
      (∀ t ∈ Postponed.rounds, t.op ≠ .addMember "b") ∧
      m.suspectTime + Postponed.config.suspectTimeout < (Postponed.clock 12).now ∧
      ((Postponed.start.play Postponed.rounds).turn ⟨Postponed.clock 12, .processSuspects⟩).members.lookup "b" =
        some (.suspect 0 (6012 * Postponed.millisecond)) := by
  have quiet : Postponed.quiet (Postponed.start.play Postponed.rounds) = true := by decide +kernel
  exact ⟨by decide +kernel, by decide +kernel, fun e member => Postponed.unheard_of_quiet quiet member, by decide +kernel, by decide +kernel,
    by decide +kernel⟩

end OpenTela.Swim
