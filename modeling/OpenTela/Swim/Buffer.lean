import OpenTela.Swim.Dissemination

namespace OpenTela.Swim.Disseminator

/-- A call of a method. Each of them holds the lock as long as it runs. -/
inductive Call where
  | enqueue (e : MemberEvent)
  | updateN (n : ℕ)
  | getPiggyback (order : PeerID → ℕ) (maxEvents : ℕ)

/-- The events a call returns, and the buffer after it. -/
def call (d : Disseminator) : Call → List MemberEvent × Disseminator
  | .enqueue e => ([], d.enqueue e)
  | .updateN n => ([], d.updateN n)
  | .getPiggyback order maxEvents => d.getPiggyback order maxEvents

def after (d : Disseminator) (calls : List Call) : Disseminator := calls.foldl (fun d c => (d.call c).2) d

@[simp] theorem after_nil (d : Disseminator) : d.after [] = d := rfl

@[simp] theorem after_cons (d : Disseminator) (c : Call) (calls : List Call) :
    d.after (c :: calls) = (d.call c).2.after calls := rfl

/-- The event is put into the buffer and not passed over. -/
def accepts (d : Disseminator) (e : MemberEvent) : Bool :=
  match d.entries.lookup e.peer with
  | some existing => !e.superseded existing.event.incarnation existing.event.status
  | none => true

theorem lookup_enqueue (d : Disseminator) (e : MemberEvent) (p : PeerID) :
    (d.enqueue e).entries.lookup p =
      if d.accepts e = true ∧ p = e.peer then some { event := e, remaining := d.retransmitLimit d.n }
      else d.entries.lookup p := by
  have added : ∀ entry, AList.lookup p (d.entries.insert e.peer entry) = if p = e.peer then some entry else d.entries.lookup p := by
    intro entry
    by_cases same : p = e.peer
    · subst same
      rw [AList.lookup_insert, if_pos rfl]
    · rw [AList.lookup_insert_ne same, if_neg same]
  unfold enqueue accepts
  cases found : d.entries.lookup e.peer with
  | none =>
    simp only [true_and]
    exact added _
  | some existing =>
    dsimp only
    by_cases old : e.superseded existing.event.incarnation existing.event.status = true
    · rw [if_pos old]
      simp [old]
    · rw [if_neg old]
      refine (added _).trans ?_
      simp [old]

/-- Every entry is filed under the peer that its event is about. -/
def Keyed (entries : Store PeerID DisseminationEntry) : Prop :=
  ∀ p entry, entries.lookup p = some entry → entry.event.peer = p

def spend (entry : DisseminationEntry) : DisseminationEntry := { entry with remaining := entry.remaining - 1 }

/-- What the loop of `getPiggyback` does: it takes the events of some peers, each of which has
retransmits left, and finds others to be spent. -/
structure Gathered (maxEvents : ℕ) (pids : List PeerID) (events : List MemberEvent) (expired : List PeerID)
    (entries : Store PeerID DisseminationEntry) (out : List MemberEvent × List PeerID × Store PeerID DisseminationEntry)
    (taken spent : List PeerID) : Prop where
  distinct : taken.Nodup
  within : ∀ p ∈ taken, p ∈ pids
  returned : out.1 = events ++ taken.filterMap (fun p => (entries.lookup p).map DisseminationEntry.event)
  bound : out.1.length ≤ max maxEvents events.length
  dropped : out.2.1 = expired ++ spent
  left : ∀ p, out.2.2.lookup p = (entries.lookup p).map (fun entry => if p ∈ taken then spend entry else entry)
  live : ∀ p ∈ taken, ∃ entry, entries.lookup p = some entry ∧ 0 < entry.remaining
  exhausted : ∀ p ∈ spent, p ∈ pids ∧ ∃ entry, entries.lookup p = some entry ∧ entry.remaining ≤ 0

section Gather

variable {maxEvents : ℕ} {pids : List PeerID} {events : List MemberEvent} {expired : List PeerID}
  {entries : Store PeerID DisseminationEntry}

theorem gathered_stop : Gathered maxEvents pids events expired entries (events, expired, entries) [] [] :=
  ⟨List.nodup_nil, by simp, by simp, le_max_right _ _, by simp, fun p => by simp, by simp, by simp⟩

variable {out : List MemberEvent × List PeerID × Store PeerID DisseminationEntry} {taken spent : List PeerID} {pid : PeerID}
  {entry : DisseminationEntry}

/-- A peer without an entry is passed over. -/
theorem Gathered.skip (g : Gathered maxEvents pids events expired entries out taken spent) :
    Gathered maxEvents (pid :: pids) events expired entries out taken spent :=
  { g with
    within := fun p member => List.mem_cons_of_mem _ (g.within p member)
    exhausted := fun p member => (g.exhausted p member).imp_left (List.mem_cons_of_mem _) }

/-- An entry without retransmits left is noted for removal. -/
theorem Gathered.expire (found : entries.lookup pid = some entry) (nothing : entry.remaining ≤ 0)
    (g : Gathered maxEvents pids events (expired ++ [pid]) entries out taken spent) :
    Gathered maxEvents (pid :: pids) events expired entries out taken (pid :: spent) :=
  { g with
    within := fun p member => List.mem_cons_of_mem _ (g.within p member)
    dropped := by rw [g.dropped, List.append_assoc]; rfl
    exhausted := fun p member => by
      rcases List.mem_cons.mp member with rfl | later
      · exact ⟨List.mem_cons_self .., entry, found, nothing⟩
      · exact (g.exhausted p later).imp_left (List.mem_cons_of_mem _) }

/-- An entry with retransmits left gives its event and has one less. -/
theorem Gathered.take (fresh : pid ∉ pids) (room : events.length < maxEvents) (found : entries.lookup pid = some entry)
    (live : 0 < entry.remaining)
    (g : Gathered maxEvents pids (events ++ [entry.event]) expired (entries.insert pid (spend entry)) out taken spent) :
    Gathered maxEvents (pid :: pids) events expired entries out (pid :: taken) spent := by
  have elsewhere : ∀ p, p ≠ pid → AList.lookup p (entries.insert pid (spend entry)) = entries.lookup p :=
    fun p different => AList.lookup_insert_ne different
  have apart : ∀ p ∈ pids, p ≠ pid := fun p member same => fresh (same ▸ member)
  refine ⟨?_, ?_, ?_, ?_, g.dropped, fun p => ?_, fun p member => ?_, fun p member => ?_⟩
  · exact List.nodup_cons.mpr ⟨fun member => apart pid (g.within pid member) rfl, g.distinct⟩
  · exact fun p member => (List.mem_cons.mp member).elim (fun same => same ▸ List.mem_cons_self ..)
      (fun later => List.mem_cons_of_mem _ (g.within p later))
  · have same : taken.filterMap (fun p => (AList.lookup p (entries.insert pid (spend entry))).map DisseminationEntry.event) =
        taken.filterMap (fun p => (entries.lookup p).map DisseminationEntry.event) :=
      List.filterMap_congr (fun p member => by rw [elsewhere p (apart p (g.within p member))])
    refine g.returned.trans ?_
    rw [same, List.append_assoc]
    simp [found]
  · have bound := g.bound
    simp only [List.length_append, List.length_cons, List.length_nil] at bound
    refine bound.trans ?_
    omega
  · refine (g.left p).trans ?_
    by_cases same : p = pid
    · subst same
      have out : p ∉ taken := fun member => apart p (g.within p member) rfl
      rw [AList.lookup_insert, found]
      simp [out]
    · rw [elsewhere p same]
      simp [same]
  · rcases List.mem_cons.mp member with rfl | later
    · exact ⟨entry, found, live⟩
    · obtain ⟨entry', there, positive⟩ := g.live p later
      rw [elsewhere p (apart p (g.within p later))] at there
      exact ⟨entry', there, positive⟩
  · obtain ⟨inside, entry', there, nothing⟩ := g.exhausted p member
    rw [elsewhere p (apart p inside)] at there
    exact ⟨List.mem_cons_of_mem _ inside, entry', there, nothing⟩

theorem gather_gathered (maxEvents : ℕ) {pids : List PeerID} (distinct : pids.Nodup) (events : List MemberEvent)
    (expired : List PeerID) (entries : Store PeerID DisseminationEntry) :
    ∃ taken spent, Gathered maxEvents pids events expired entries (gather maxEvents pids events expired entries) taken spent := by
  induction pids generalizing events expired entries with
  | nil => exact ⟨[], [], gathered_stop⟩
  | cons pid rest ih =>
    obtain ⟨fresh, distinct⟩ := List.nodup_cons.mp distinct
    unfold gather
    split
    · exact ⟨[], [], gathered_stop⟩
    · rename_i room
      cases found : entries.lookup pid with
      | none =>
        obtain ⟨taken, spent, g⟩ := ih distinct events expired entries
        exact ⟨taken, spent, g.skip⟩
      | some entry =>
        dsimp only
        split
        · rename_i nothing
          obtain ⟨taken, spent, g⟩ := ih distinct events (expired ++ [pid]) entries
          exact ⟨taken, pid :: spent, g.expire found nothing⟩
        · rename_i live
          obtain ⟨taken, spent, g⟩ := ih distinct (events ++ [entry.event]) expired (entries.insert pid (spend entry))
          exact ⟨pid :: taken, spent, g.take fresh (by omega) found (by omega)⟩

end Gather

/-- The events about one peer among those returned. -/
def about (p : PeerID) (events : List MemberEvent) : List MemberEvent := events.filter (fun e => e.peer = p)

/-- What a call can do to the entry of one peer, and what it returns about that peer. -/
inductive Fate (d : Disseminator) (p : PeerID) : Call → Option DisseminationEntry → List MemberEvent → Prop where
  | accepted (e : MemberEvent) (here : e.peer = p) (accepted : d.accepts e = true) :
      Fate d p (.enqueue e) (some { event := e, remaining := d.retransmitLimit d.n }) []
  | kept {c : Call} (refused : ∀ e, c = .enqueue e → e.peer = p → d.accepts e = false) : Fate d p c (d.entries.lookup p) []
  | handed {order : PeerID → ℕ} {maxEvents : ℕ} (entry : DisseminationEntry) (found : d.entries.lookup p = some entry)
      (live : 0 < entry.remaining) : Fate d p (.getPiggyback order maxEvents) (some (spend entry)) [entry.event]
  | expired {order : PeerID → ℕ} {maxEvents : ℕ} (entry : DisseminationEntry) (found : d.entries.lookup p = some entry)
      (exhausted : entry.remaining ≤ 0) : Fate d p (.getPiggyback order maxEvents) none []

section Piggyback

variable {d : Disseminator} {taken : List PeerID}

theorem map_peer_filterMap (keyed : Keyed d.entries) (live : ∀ p ∈ taken, ∃ entry, d.entries.lookup p = some entry ∧ 0 < entry.remaining) :
    (taken.filterMap (fun p => (d.entries.lookup p).map DisseminationEntry.event)).map MemberEvent.peer = taken := by
  induction taken with
  | nil => rfl
  | cons p rest ih =>
    obtain ⟨entry, found, _⟩ := live p (List.mem_cons_self ..)
    have later := ih (fun p' member => live p' (List.mem_cons_of_mem _ member))
    simp only [List.filterMap_cons, found, Option.map_some, List.map_cons, later, keyed p entry found]

theorem getPiggyback_gathered (d : Disseminator) (order : PeerID → ℕ) (maxEvents : ℕ) :
    ∃ taken spent entries, Gathered maxEvents (ordered order d.entries.keys) [] [] d.entries
        ((d.getPiggyback order maxEvents).1, spent, entries) taken spent ∧
      ∀ p, (d.getPiggyback order maxEvents).2.entries.lookup p = if p ∈ spent then none else entries.lookup p := by
  have distinct : (ordered order d.entries.keys).Nodup := ordered_nodup d.entries.keys_nodup
  obtain ⟨taken, spent, g⟩ := gather_gathered maxEvents distinct [] [] d.entries
  have dropped : (gather maxEvents (ordered order d.entries.keys) [] [] d.entries).2.1 = spent := g.dropped
  refine ⟨taken, spent, (gather maxEvents (ordered order d.entries.keys) [] [] d.entries).2.2,
    { g with dropped := rfl }, fun p => ?_⟩
  rw [← dropped]
  exact Store.lookup_foldl_erase _ _ p

/-- One call returns at most as many events as it is asked for, about different peers. -/
theorem getPiggyback_bounded (keyed : Keyed d.entries) (order : PeerID → ℕ) (maxEvents : ℕ) :
    (d.getPiggyback order maxEvents).1.length ≤ maxEvents ∧ ((d.getPiggyback order maxEvents).1.map MemberEvent.peer).Nodup := by
  obtain ⟨taken, spent, entries, g, _⟩ := d.getPiggyback_gathered order maxEvents
  refine ⟨by simpa using g.bound, ?_⟩
  rw [show (d.getPiggyback order maxEvents).1 = _ from g.returned, List.nil_append, map_peer_filterMap keyed g.live]
  exact g.distinct

theorem about_filterMap (keyed : Keyed d.entries) (distinct : taken.Nodup) (p : PeerID) :
    about p (taken.filterMap (fun p => (d.entries.lookup p).map DisseminationEntry.event)) =
      if p ∈ taken then ((d.entries.lookup p).map DisseminationEntry.event).toList else [] := by
  induction taken with
  | nil => rfl
  | cons q rest ih =>
    obtain ⟨fresh, distinct⟩ := List.nodup_cons.mp distinct
    have later := ih distinct
    unfold about at later ⊢
    cases found : d.entries.lookup q with
    | none =>
      rw [List.filterMap_cons, found]
      by_cases same : p = q
      · subst same
        simp [later, fresh, found]
      · simp [later, same]
    | some entry =>
      rw [List.filterMap_cons, found]
      by_cases same : p = q
      · subst same
        simp [later, fresh, keyed p entry found, found]
      · have different : ¬ entry.event.peer = p := fun here => same (here ▸ keyed q entry found)
        simp [later, same, different]

end Piggyback

theorem call_fate {d : Disseminator} (keyed : Keyed d.entries) (c : Call) (p : PeerID) :
    Fate d p c ((d.call c).2.entries.lookup p) (about p (d.call c).1) := by
  cases c with
  | enqueue e =>
    have out := d.lookup_enqueue e p
    by_cases taken : d.accepts e = true ∧ p = e.peer
    · rw [if_pos taken] at out
      rw [show (d.call (.enqueue e)).2.entries.lookup p = _ from out]
      exact .accepted e taken.2.symm taken.1
    · rw [if_neg taken] at out
      rw [show (d.call (.enqueue e)).2.entries.lookup p = _ from out]
      refine .kept (fun e' same here => ?_)
      cases same
      exact Bool.eq_false_iff.mpr (fun accepted => taken ⟨accepted, here.symm⟩)
  | updateN n => exact .kept (fun e same => by cases same)
  | getPiggyback order maxEvents =>
    obtain ⟨taken, spent, entries, g, left⟩ := d.getPiggyback_gathered order maxEvents
    have events : about p (d.getPiggyback order maxEvents).1 =
        if p ∈ taken then ((d.entries.lookup p).map DisseminationEntry.event).toList else [] := by
      rw [show (d.getPiggyback order maxEvents).1 = _ from g.returned, List.nil_append]
      exact about_filterMap keyed g.distinct p
    have out := left p
    rw [show entries.lookup p = _ from g.left p] at out
    change Fate d p _ ((d.getPiggyback order maxEvents).2.entries.lookup p) (about p (d.getPiggyback order maxEvents).1)
    rw [out, events]
    by_cases exhausted : p ∈ spent
    · obtain ⟨_, entry, found, nothing⟩ := g.exhausted p exhausted
      have kept : p ∉ taken := fun member => by
        obtain ⟨entry', found', positive⟩ := g.live p member
        rw [found] at found'
        cases found'
        omega
      rw [if_pos exhausted, if_neg kept]
      exact .expired entry found nothing
    · rw [if_neg exhausted]
      by_cases here : p ∈ taken
      · obtain ⟨entry, found, positive⟩ := g.live p here
        rw [if_pos here, found]
        simpa [here] using Fate.handed entry found positive
      · rw [if_neg here]
        simpa [here] using Fate.kept (fun e same => by cases same)

theorem Fate.keyed {d : Disseminator} (keyed : Keyed d.entries) {c : Call} {p : PeerID} {r : Option DisseminationEntry}
    {events : List MemberEvent} (fate : Fate d p c r events) {entry : DisseminationEntry} (found : r = some entry) :
    entry.event.peer = p := by
  cases fate with
  | accepted e here _ =>
    cases found
    exact here
  | kept _ => exact keyed p entry found
  | handed old found' _ =>
    cases found
    exact keyed p old found'
  | expired _ _ _ => cases found

/-- An entry that outlives a call has not gone down in rank; one that does not had no retransmit left. -/
theorem Fate.rank_le {d : Disseminator} {c : Call} {p : PeerID} {r : Option DisseminationEntry} {events : List MemberEvent}
    (fate : Fate d p c r events) {entry : DisseminationEntry} (found : d.entries.lookup p = some entry) :
    (∃ entry', r = some entry' ∧
      rank entry.event.incarnation entry.event.status ≤ rank entry'.event.incarnation entry'.event.status) ∨
    (r = none ∧ entry.remaining ≤ 0) := by
  cases fate with
  | accepted e here accepted =>
    refine Or.inl ⟨_, rfl, ?_⟩
    subst here
    simp only [accepts, found, Bool.not_eq_true', Bool.eq_false_iff, ne_eq, MemberEvent.superseded_iff] at accepted
    exact (not_le.mp accepted).le
  | kept _ => exact Or.inl ⟨entry, found, le_rfl⟩
  | handed old found' _ =>
    obtain rfl := Option.some.inj (found.symm.trans found')
    exact Or.inl ⟨_, rfl, le_rfl⟩
  | expired old found' exhausted =>
    obtain rfl := Option.some.inj (found.symm.trans found')
    exact Or.inr ⟨rfl, exhausted⟩

theorem call_keyed {d : Disseminator} (keyed : Keyed d.entries) (c : Call) : Keyed (d.call c).2.entries :=
  fun p _ found => (call_fate keyed c p).keyed keyed found

theorem after_keyed {d : Disseminator} (keyed : Keyed d.entries) (calls : List Call) : Keyed (d.after calls).entries := by
  induction calls generalizing d with
  | nil => exact keyed
  | cons c rest ih => exact ih (call_keyed keyed c)

theorem new_keyed (retransmitLimit : ℕ → ℤ) (n : ℕ) : Keyed (new retransmitLimit n).entries := by
  intro p entry found
  cases found

/-- While an entry lasts, its rank does not go down. -/
theorem rank_mono {d : Disseminator} (keyed : Keyed d.entries) (calls : List Call) {p : PeerID} {entry : DisseminationEntry}
    (found : d.entries.lookup p = some entry) :
    (∃ entry', (d.after calls).entries.lookup p = some entry' ∧
      rank entry.event.incarnation entry.event.status ≤ rank entry'.event.incarnation entry'.event.status) ∨
    ∃ first c rest spent, calls = first ++ c :: rest ∧ (d.after first).entries.lookup p = some spent ∧ spent.remaining ≤ 0 ∧
      ((d.after first).call c).2.entries.lookup p = none := by
  induction calls generalizing d entry with
  | nil => exact Or.inl ⟨entry, found, le_rfl⟩
  | cons c rest ih =>
    rcases (call_fate keyed c p).rank_le found with ⟨next, there, up⟩ | ⟨gone, exhausted⟩
    · rcases ih (call_keyed keyed c) there with ⟨last, found', up'⟩ | ⟨first, c', rest', spent, same, found', exhausted, gone⟩
      · exact Or.inl ⟨last, found', up.trans up'⟩
      · exact Or.inr ⟨c :: first, c', rest', spent, by rw [same]; rfl, found', exhausted, gone⟩
    · exact Or.inr ⟨[], c, rest, entry, rfl, found, exhausted, gone⟩

/-- The call puts a new event about the peer into the buffer. -/
def replaces (d : Disseminator) (p : PeerID) : Call → Bool
  | .enqueue e => decide (e.peer = p) && d.accepts e
  | _ => false

/-- How often the event that is in the buffer about a peer is returned before another one about
it is accepted. -/
def timesReturned (p : PeerID) : Disseminator → List Call → ℕ
  | _, [] => 0
  | d, c :: rest =>
    if d.replaces p c then 0
    else (about p (d.call c).1).length + timesReturned p (d.call c).2 rest

theorem timesReturned_le {d : Disseminator} (keyed : Keyed d.entries) (calls : List Call) (p : PeerID) :
    timesReturned p d calls ≤ ((d.entries.lookup p).elim 0 DisseminationEntry.remaining).toNat := by
  induction calls generalizing d with
  | nil => exact Nat.zero_le _
  | cons c rest ih =>
    have later := ih (call_keyed keyed c)
    have fate := call_fate keyed c p
    unfold timesReturned
    split
    · exact Nat.zero_le _
    · rename_i unreplaced
      generalize (d.call c).2.entries.lookup p = r at fate later
      generalize about p (d.call c).1 = events at fate
      cases fate with
      | accepted e here accepted => simp [replaces, here, accepted] at unreplaced
      | kept _ => simpa using later
      | handed entry found live =>
        rw [found]
        simp only [Option.elim_some, spend] at later
        simp only [List.length_singleton, Option.elim_some]
        omega
      | expired entry found exhausted => simpa using later.trans (by simp)

/-- The buffer under any calls: one entry for each peer; its rank does not go down until it is
spent; what is returned about a peer is what is in the buffer about it, at most as often as the limit
says that was computed when it was accepted; and a call returns at most as many events as it is
asked for, about different peers. -/
theorem buffer_disciplined (retransmitLimit : ℕ → ℤ) (n : ℕ) (calls : List Call) :
    let d := (new retransmitLimit n).after calls
    (d.entries.entries.map (fun s => s.2.event.peer)).Nodup ∧
    (∀ p entry more, d.entries.lookup p = some entry →
      (∃ entry', (d.after more).entries.lookup p = some entry' ∧
        rank entry.event.incarnation entry.event.status ≤ rank entry'.event.incarnation entry'.event.status) ∨
      ∃ first c rest spent, more = first ++ c :: rest ∧ (d.after first).entries.lookup p = some spent ∧ spent.remaining ≤ 0 ∧
        ((d.after first).call c).2.entries.lookup p = none) ∧
    (∀ c, ∀ e ∈ (d.call c).1, d.spreads e.peer = some e) ∧
    (∀ e more, d.accepts e = true → timesReturned e.peer (d.enqueue e) more ≤ (d.retransmitLimit d.n).toNat) ∧
    ∀ order maxEvents, (d.getPiggyback order maxEvents).1.length ≤ maxEvents ∧
      ((d.getPiggyback order maxEvents).1.map MemberEvent.peer).Nodup := by
  intro d
  have keyed : Keyed d.entries := after_keyed (new_keyed retransmitLimit n) calls
  refine ⟨?_, fun p entry more found => rank_mono keyed more found, fun c e member => ?_, fun e more accepted => ?_,
    fun order maxEvents => getPiggyback_bounded keyed order maxEvents⟩
  · have same : d.entries.entries.map (fun s => s.2.event.peer) = d.entries.keys := by
      refine List.map_congr_left (fun s member => keyed s.1 s.2 ?_)
      exact AList.mem_lookup_iff.mpr member
    rw [same]
    exact d.entries.keys_nodup
  · have fate := call_fate keyed c e.peer
    have here : e ∈ about e.peer (d.call c).1 := List.mem_filter.mpr ⟨member, decide_eq_true rfl⟩
    generalize (d.call c).2.entries.lookup e.peer = r at fate
    generalize about e.peer (d.call c).1 = events at fate here
    cases fate with
    | accepted _ _ _ => cases here
    | kept _ => cases here
    | handed entry found _ =>
      rw [List.mem_singleton.mp here, spreads]
      rw [List.mem_singleton.mp here] at found
      rw [found]
      rfl
    | expired _ _ _ => cases here
  · have bound := timesReturned_le (call_keyed keyed (.enqueue e)) more e.peer
    have here := d.lookup_enqueue e e.peer
    rw [if_pos ⟨accepted, rfl⟩] at here
    change _ ≤ (((d.enqueue e).entries.lookup e.peer).elim 0 DisseminationEntry.remaining).toNat at bound
    rw [here] at bound
    exact bound

end OpenTela.Swim.Disseminator
