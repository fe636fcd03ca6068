import OpenTela.Swim.Numbers

namespace OpenTela.Swim

open Prog

section Loops

variable {κ : Type} {can : (o : NetOp) → o.Res → Prop} {learn : κ → (o : NetOp) → o.Res → κ} {safe : κ → NetOp → Prop} {post : κ → Prop}

theorem sendAll_always (idle : ∀ k p, learn k (.send p) () = k) {k : κ} {packets : List Packet}
    (allowed : ∀ p ∈ packets, safe k (.send p)) (done : post k) :
    Always can learn (fun k o _ _ => safe k o) (fun k _ => post k) k (NetM.sendAll packets) := by
  induction packets with
  | nil => exact done
  | cons p rest ih =>
    rintro ⟨⟩ _
    refine ⟨allowed p List.mem_cons_self, ?_⟩
    rw [idle k p]
    exact ih (fun q member => allowed q (List.mem_cons_of_mem _ member))

theorem emitAll_always (self : PeerID) (emits : ∀ k ev, safe k (.swim self (.emit ev)) ∧ learn k (.swim self (.emit ev)) () = k) {k : κ}
    (done : post k) (dead : List MemberEvent) :
    Always can learn (fun k o _ _ => safe k o) (fun k _ => post k) k (emitAll self dead) := by
  induction dead with
  | nil => exact done
  | cons ev rest ih =>
    rintro ⟨⟩ _
    refine ⟨(emits k ev).1, ?_⟩
    rw [(emits k ev).2]
    exact ih

theorem expireSuspects_always (self : PeerID)
    (suspects : ∀ k r, safe k (.swim self .processSuspects) ∧ learn k (.swim self .processSuspects) r = k)
    (updates : ∀ k n, safe k (.swim self (.updateN n)) ∧ learn k (.swim self (.updateN n)) () = k)
    (emits : ∀ k ev, safe k (.swim self (.emit ev)) ∧ learn k (.swim self (.emit ev)) () = k) {k : κ} (done : post k) :
    Always can learn (fun k o _ _ => safe k o) (fun k _ => post k) k (expireSuspects self) := by
  rintro ⟨dead, n⟩ _
  refine ⟨(suspects k ⟨dead, n⟩).1, ?_⟩
  rw [(suspects k ⟨dead, n⟩).2]
  change Always _ _ _ _ _ (if dead ≠ [] then (NetM.swim self (.updateN n)).bind (fun _ => emitAll self dead) else emitAll self dead)
  split
  · rintro ⟨⟩ _
    refine ⟨(updates k n).1, ?_⟩
    rw [(updates k n).2]
    exact emitAll_always self emits done dead
  · exact emitAll_always self emits done dead

end Loops

section Conduct

/-- What a thread may do, by what it has dealt with: it sends what it may, and takes an `Ack` into account if it
got one. -/
def Dealings.Allows (k : Dealings) : NetOp → Prop
  | .send p => p.bare ∈ k.may
  | .swim self (.ack seq) => ∃ p ∈ k.got, p.dest = self ∧ p.message.type = .ack ∧ p.message.seq = seq
  | _ => True

/-- A packet is taken in where it was sent to. -/
def Addressed : (o : NetOp) → o.Res → Prop
  | .receive self, (p : Packet) => p.dest = self
  | _, _ => True

abbrev Deals {α : Type} (k : Dealings) (p : NetM α) : Prop :=
  Always Addressed Dealings.learn (fun k o _ _ => k.Allows o) (fun _ _ => True) k p

theorem Deals.bind {α β : Type} {k : Dealings} {p : NetM α} {f : α → NetM β} (first : Deals k p) (second : ∀ k a, Deals k (f a)) :
    Deals k (p.bind f) := by
  refine Always.bind (first.mono (fun _ _ _ _ _ fine => fine) ?_)
  rintro k (e | a) _
  · exact e.elim
  · exact second k a

variable (self : PeerID) {k : Dealings}

theorem probe_deals : Deals k (probe self) := by
  intro picked _
  refine ⟨trivial, ?_⟩
  cases picked with
  | none => exact trivial
  | some out =>
    intro events _
    exact ⟨trivial, fun _ _ => ⟨List.mem_cons_self, trivial⟩⟩

theorem indirectPings_bare (work : List SWIM.IndirectWork) (events : List MemberEvent) :
    ∀ p ∈ indirectPings self work events, p.bare ∈ indirectPings self work [] := by
  intro p member
  obtain ⟨w, here, sent⟩ := List.mem_flatMap.mp member
  obtain ⟨relay, among, rfl⟩ := List.mem_map.mp sent
  exact List.mem_flatMap.mpr ⟨w, here, List.mem_map.mpr ⟨relay, among, rfl⟩⟩

theorem expireProbes_deals : Deals k (expireProbes self) := by
  intro work _
  refine ⟨trivial, fun events _ => ⟨trivial, ?_⟩⟩
  exact sendAll_always (fun _ _ => rfl) (fun p member => List.mem_append_left _ (indirectPings_bare self work events p member)) trivial

theorem expireSuspects_deals : Deals k (expireSuspects self) :=
  expireSuspects_always self (fun _ _ => ⟨trivial, rfl⟩) (fun _ _ => ⟨trivial, rfl⟩) (fun _ _ => ⟨trivial, rfl⟩) trivial

theorem handleType_deals {p : Packet} (got : p ∈ k.got) (dest : p.dest = self)
    (may : p.message.type = .ping → sendAck self p.source p.message.seq [] ∈ k.may) : Deals k (handleType self p.source p.message) := by
  unfold handleType
  cases type : p.message.type with
  | ping => exact fun events _ => ⟨trivial, fun _ _ => ⟨may type, trivial⟩⟩
  | ack =>
    intro relay _
    refine ⟨⟨p, got, dest, type, rfl⟩, ?_⟩
    cases relay with
    | none => exact trivial
    | some relay =>
      intro events _
      exact ⟨trivial, fun _ _ => ⟨List.mem_cons_self, trivial⟩⟩
  | pingReq =>
    have asked : p.isPingReq self p.source p.message.seq = true := by simp [Packet.isPingReq, dest, type]
    intro localSeq _
    refine ⟨trivial, fun events _ => ⟨trivial, fun _ _ => ⟨?_, trivial⟩⟩⟩
    exact List.mem_append_left _ (List.mem_map.mpr ⟨p, List.mem_filter.mpr ⟨got, asked⟩, rfl⟩)
  | unknown => exact trivial

theorem handleEvents_deals (events : List MemberEvent) : Deals k (handleEvents self events) := by
  unfold handleEvents
  split
  · exact fun _ _ => ⟨trivial, trivial⟩
  · exact trivial

theorem handle_deals : Deals k (handle self) := by
  intro p dest
  refine ⟨trivial, ?_⟩
  have learned : Deals (k.learn (.receive self) p) (handleType self p.source p.message) := by
    refine handleType_deals self List.mem_cons_self dest (fun ping => ?_)
    simp only [Dealings.learn, if_pos ping, List.mem_cons_self]
  exact learned.bind (fun _ _ => handleEvents_deals self p.message.events)

theorem body_deals (task : NetTask) : Deals k task.body := by
  cases task with
  | handle self => exact handle_deals self
  | round self => exact (probe_deals self).bind (fun _ _ => (expireProbes_deals self).bind (fun _ _ => expireSuspects_deals self))
  | addMember self pid => exact fun _ _ => ⟨trivial, trivial⟩
  | removeMember self pid => exact fun _ _ => ⟨trivial, trivial⟩

end Conduct

/-- Each node takes every number once, and none ahead of its counter; what it waits for is under a
number taken for that. -/
structure Numbered (node : PeerID → SWIM) (log : List Mark) : Prop where
  le : ∀ x m use, .took x m use ∈ log → m ≤ (node x).seq
  once : ∀ x m use use', .took x m use ∈ log → .took x m use' ∈ log → use = use'
  probes : ∀ a n pp, (node a).pendingProbes.lookup n = some pp → .took a n (.probe pp.target) ∈ log
  relays : ∀ x m r, (node x).pendingRelays.lookup m = some r → .took x m (.relay r.requester r.originalSeq) ∈ log

section Numbered

variable {node : PeerID → SWIM} {log : List Mark} {a : PeerID} {s' : SWIM}

/-- A mark that tells of no new number. -/
theorem Numbered.old (numbered : Numbered node log) (mark : Mark) (old : ∀ x m use, mark ≠ .took x m use) :
    Numbered node (mark :: log) := by
  have taken : ∀ {x m use}, .took x m use ∈ mark :: log → .took x m use ∈ log := by
    intro x m use member
    rcases List.mem_cons.mp member with same | there
    · exact absurd same.symm (old x m use)
    · exact there
  exact
    { le := fun x m use member => numbered.le x m use (taken member)
      once := fun x m use use' here there => numbered.once x m use use' (taken here) (taken there)
      probes := fun a n pp found => List.mem_cons_of_mem _ (numbered.probes a n pp found)
      relays := fun x m r found => List.mem_cons_of_mem _ (numbered.relays x m r found) }

/-- A step of one node that takes no number. -/
theorem Numbered.tends (numbered : Numbered node log) (tends : (node a).Tends s') : Numbered (Function.update node a s') log := by
  refine
    { le := fun x m use member => ?_
      once := numbered.once
      probes := fun b n pp found => ?_
      relays := fun x m r found => ?_ }
  · have bound := numbered.le x m use member
    by_cases here : x = a
    · subst here
      rwa [Function.update_self, tends.seq]
    · rwa [Function.update_of_ne here]
  · by_cases here : b = a
    · subst here
      rw [Function.update_self] at found
      obtain ⟨old, earlier, same⟩ := tends.probes n pp found
      rw [← same]
      exact numbered.probes b n old earlier
    · rw [Function.update_of_ne here] at found
      exact numbered.probes b n pp found
  · by_cases here : x = a
    · subst here
      rw [Function.update_self] at found
      exact numbered.relays x m r (tends.relays m r found)
    · rw [Function.update_of_ne here] at found
      exact numbered.relays x m r found

/-- A node takes the next number, for a probe or for a relay. -/
theorem Numbered.take (numbered : Numbered node log) (use : Use) (seq : s'.seq = (node a).seq + 1)
    (probes : ∀ n pp, s'.pendingProbes.lookup n = some pp →
      (n = (node a).seq + 1 ∧ use = .probe pp.target) ∨ (node a).pendingProbes.lookup n = some pp)
    (relays : ∀ m r, s'.pendingRelays.lookup m = some r →
      (m = (node a).seq + 1 ∧ use = .relay r.requester r.originalSeq) ∨ (node a).pendingRelays.lookup m = some r) :
    Numbered (Function.update node a s') (.took a ((node a).seq + 1) use :: log) := by
  have unused : ∀ use', .took a ((node a).seq + 1) use' ∉ log := by
    intro use' member
    have bound := numbered.le a _ use' member
    omega
  refine
    { le := fun x m use' member => ?_
      once := fun x m use₁ use₂ here there => ?_
      probes := fun b n pp found => ?_
      relays := fun x m r found => ?_ }
  · rcases List.mem_cons.mp member with same | there
    · cases same
      rw [Function.update_self, seq]
    · have bound := numbered.le x m use' there
      by_cases here : x = a
      · subst here
        rw [Function.update_self, seq]
        omega
      · rwa [Function.update_of_ne here]
  · rcases List.mem_cons.mp here with same | old
    · cases same
      rcases List.mem_cons.mp there with same' | old'
      · cases same'
        rfl
      · exact absurd old' (unused use₂)
    · rcases List.mem_cons.mp there with same' | old'
      · cases same'
        exact absurd old (unused use₁)
      · exact numbered.once x m use₁ use₂ old old'
  · by_cases here : b = a
    · subst here
      rw [Function.update_self] at found
      rcases probes n pp found with ⟨rfl, rfl⟩ | old
      · exact List.mem_cons_self
      · exact List.mem_cons_of_mem _ (numbered.probes b n pp old)
    · rw [Function.update_of_ne here] at found
      exact List.mem_cons_of_mem _ (numbered.probes b n pp found)
  · by_cases here : x = a
    · subst here
      rw [Function.update_self] at found
      rcases relays m r found with ⟨rfl, rfl⟩ | old
      · exact List.mem_cons_self
      · exact List.mem_cons_of_mem _ (numbered.relays x m r old)
    · rw [Function.update_of_ne here] at found
      exact List.mem_cons_of_mem _ (numbered.relays x m r found)

/-- At each node the numbers of pending probes and of pending relays differ, and none is ahead of the counter. -/
theorem Numbered.disjoint (numbered : Numbered node log) (a : PeerID) (n : ℕ) :
    ((n ∈ (node a).pendingProbes ∨ n ∈ (node a).pendingRelays) → n ≤ (node a).seq) ∧
      ¬ (n ∈ (node a).pendingProbes ∧ n ∈ (node a).pendingRelays) := by
  have probe : n ∈ (node a).pendingProbes → ∃ t, .took a n (.probe t) ∈ log := by
    intro member
    obtain ⟨pp, found⟩ := Option.isSome_iff_exists.mp (AList.lookup_isSome.mpr member)
    exact ⟨pp.target, numbered.probes a n pp found⟩
  have relay : n ∈ (node a).pendingRelays → ∃ b k, .took a n (.relay b k) ∈ log := by
    intro member
    obtain ⟨r, found⟩ := Option.isSome_iff_exists.mp (AList.lookup_isSome.mpr member)
    exact ⟨r.requester, r.originalSeq, numbered.relays a n r found⟩
  constructor
  · rintro (member | member)
    · obtain ⟨t, taken⟩ := probe member
      exact numbered.le a n _ taken
    · obtain ⟨b, k, taken⟩ := relay member
      exact numbered.le a n _ taken
  · rintro ⟨member, member'⟩
    obtain ⟨t, taken⟩ := probe member
    obtain ⟨b, k, taken'⟩ := relay member'
    cases numbered.once a n _ _ taken taken'

end Numbered

/-- The node `t` processed a `Ping` for the probe that `a` had begun under number `n`: one of `a` itself with
that number, or one of a node that had taken on the `PingReq` of `a` with it. -/
def Probed (log : List Mark) (a : PeerID) (n : ℕ) (t : PeerID) : Prop :=
  ∃ later earlier x m, log = later ++ .pinged t x m :: earlier ∧ .took a n (.probe t) ∈ earlier ∧
    ((x = a ∧ m = n) ∨ .took x m (.relay a n) ∈ earlier)

theorem Probed.mono {log : List Mark} {a t : PeerID} {n : ℕ} (probed : Probed log a n t) (more : List Mark) :
    Probed (more ++ log) a n t := by
  obtain ⟨later, earlier, x, m, rfl, taken, whose⟩ := probed
  exact ⟨more ++ later, earlier, x, m, by rw [List.append_assoc], taken, whose⟩

/-- What there is to say for an `Ack` to `x` with number `m`. -/
def Answered (log : List Mark) (x : PeerID) (m : ℕ) : Prop :=
  (∃ t, .took x m (.probe t) ∈ log ∧ Probed log x m t) ∨
    ∃ a n t, .took x m (.relay a n) ∈ log ∧ .took a n (.probe t) ∈ log ∧ Probed log a n t

/-- Nothing is sent without cause. -/
def Justified (log : List Mark) (p : Packet) : Prop :=
  match p.message.type with
  | .ping => .took p.source p.message.seq (.probe p.dest) ∈ log ∨
      ∃ a n, .took p.source p.message.seq (.relay a n) ∈ log ∧ .took a n (.probe p.dest) ∈ log
  | .pingReq => .took p.source p.message.seq (.probe p.message.target) ∈ log
  | .ack => Answered log p.dest p.message.seq
  | .unknown => False

theorem Answered.mono {log : List Mark} {x : PeerID} {m : ℕ} (answered : Answered log x m) (more : List Mark) :
    Answered (more ++ log) x m := by
  rcases answered with ⟨t, taken, probed⟩ | ⟨a, n, t, relayed, taken, probed⟩
  · exact Or.inl ⟨t, List.mem_append_right _ taken, probed.mono more⟩
  · exact Or.inr ⟨a, n, t, List.mem_append_right _ relayed, List.mem_append_right _ taken, probed.mono more⟩

theorem Justified.mono {log : List Mark} {p : Packet} (justified : Justified log p) (more : List Mark) :
    Justified (more ++ log) p := by
  unfold Justified at justified ⊢
  cases type : p.message.type with
  | ping =>
    simp only [type] at justified ⊢
    rcases justified with taken | ⟨a, n, relayed, taken⟩
    · exact Or.inl (List.mem_append_right _ taken)
    · exact Or.inr ⟨a, n, List.mem_append_right _ relayed, List.mem_append_right _ taken⟩
  | pingReq =>
    simp only [type] at justified ⊢
    exact List.mem_append_right _ justified
  | ack =>
    simp only [type] at justified ⊢
    exact justified.mono more
  | unknown =>
    simp only [type] at justified

/-- Every probe that was cleared had been answered for. -/
def Backed (log : List Mark) : Prop :=
  ∀ later earlier a n t, log = later ++ .cleared a n t :: earlier → Probed earlier a n t

theorem Backed.cons {log : List Mark} {mark : Mark} (backed : Backed log)
    (probed : ∀ a n t, mark = .cleared a n t → Probed log a n t) : Backed (mark :: log) := by
  intro later earlier a n t split
  cases later with
  | nil =>
    obtain ⟨same, rfl⟩ := List.cons.inj split
    exact probed a n t same
  | cons first rest => exact backed rest earlier a n t (List.cons.inj split).2

/-- What holds of a network at every moment. -/
structure Sound (w : Network) : Prop where
  numbered : Numbered w.node w.log
  sent : ∀ p ∈ w.sent, Justified w.log p
  got : ∀ i, ∀ p ∈ (w.dealings i).got, Justified w.log p
  may : ∀ i, ∀ p ∈ (w.dealings i).may, Justified w.log p
  backed : Backed w.log

section Steps

variable {w : Network} {i : ℕ} {self : PeerID} {s' : SWIM}

theorem Sound.grow (sound : Sound w) {node : PeerID → SWIM} {sent : List Packet} {k : Dealings} (new : List Mark)
    (numbered : Numbered node (new ++ w.log)) (backed : Backed (new ++ w.log))
    (caused : ∀ p ∈ sent, p ∈ w.sent ∨ Justified (new ++ w.log) p)
    (got : ∀ p ∈ k.got, p ∈ (w.dealings i).got ∨ Justified (new ++ w.log) p)
    (may : ∀ p ∈ k.may, p ∈ (w.dealings i).may ∨ Justified (new ++ w.log) p) :
    Sound { node, sent, log := new ++ w.log, dealings := Function.update w.dealings i k } := by
  refine
    { numbered
      sent := fun p member => ?_
      got := fun j p member => ?_
      may := fun j p member => ?_
      backed }
  · rcases caused p member with old | justified
    · exact (sound.sent p old).mono new
    · exact justified
  · by_cases here : j = i
    · subst here
      simp only [Function.update_self] at member
      rcases got p member with old | justified
      · exact (sound.got j p old).mono new
      · exact justified
    · simp only [Function.update_of_ne here] at member
      exact (sound.got j p member).mono new
  · by_cases here : j = i
    · subst here
      simp only [Function.update_self] at member
      rcases may p member with old | justified
      · exact (sound.may j p old).mono new
      · exact justified
    · simp only [Function.update_of_ne here] at member
      exact (sound.may j p member).mono new

/-- A critical section that takes no number and clears no probe. -/
theorem Sound.quiet (sound : Sound w) (tends : (w.node self).Tends s') (packets : List Packet)
    (justified : ∀ p ∈ packets, Justified w.log p) :
    Sound { w with
      node := Function.update w.node self s'
      dealings := Function.update w.dealings i ((w.dealings i).allow packets) } := by
  refine sound.grow (i := i) [] (sound.numbered.tends tends) sound.backed (fun p member => Or.inl member)
    (fun p member => Or.inl member) (fun p member => ?_)
  rcases List.mem_append.mp member with new | old
  · exact Or.inr (justified p new)
  · exact Or.inl old

theorem sound_receive (sound : Sound w) {p : Packet} (member : p ∈ w.sent) (dest : p.dest = self) :
    Sound
      { (if p.message.type = .ping then { w with log := .pinged self p.source p.message.seq :: w.log } else w : Network) with
        dealings := Function.update w.dealings i ((w.dealings i).learn (.receive self) p) } := by
  have caused := sound.sent p member
  split
  · rename_i ping
    have cause : .took p.source p.message.seq (.probe p.dest) ∈ w.log ∨
        ∃ a n, .took p.source p.message.seq (.relay a n) ∈ w.log ∧ .took a n (.probe p.dest) ∈ w.log := by
      unfold Justified at caused
      rwa [ping] at caused
    have answered : Answered (.pinged self p.source p.message.seq :: w.log) p.source p.message.seq := by
      rw [← dest]
      rcases cause with taken | ⟨a, n, relayed, taken⟩
      · exact Or.inl ⟨p.dest, List.mem_cons_of_mem _ taken, [], w.log, _, _, rfl, taken, Or.inl ⟨rfl, rfl⟩⟩
      · exact Or.inr ⟨a, n, p.dest, List.mem_cons_of_mem _ relayed, List.mem_cons_of_mem _ taken, [], w.log, _, _, rfl, taken,
          Or.inr relayed⟩
    refine sound.grow [.pinged self p.source p.message.seq] (sound.numbered.old _ (by simp))
      (sound.backed.cons (fun _ _ _ same => nomatch same)) (fun q there => Or.inl there) (fun q there => ?_) (fun q there => ?_)
    · rcases List.mem_cons.mp there with rfl | old
      · exact Or.inr (caused.mono [_])
      · exact Or.inl old
    · simp only [Dealings.learn, if_pos ping] at there
      rcases List.mem_cons.mp there with rfl | old
      · exact Or.inr answered
      · exact Or.inl old
  · rename_i other
    refine sound.grow [] sound.numbered sound.backed (fun q there => Or.inl there) (fun q there => ?_) (fun q there => ?_)
    · rcases List.mem_cons.mp there with rfl | old
      · exact Or.inr caused
      · exact Or.inl old
    · simp only [Dealings.learn, if_neg other] at there
      exact Or.inl there

theorem sound_send (sound : Sound w) {p : Packet} (may : p.bare ∈ (w.dealings i).may) :
    Sound { w with sent := w.sent ++ [p], dealings := Function.update w.dealings i (w.dealings i) } := by
  refine sound.grow [] sound.numbered sound.backed (fun q there => ?_) (fun q there => Or.inl there)
    (fun q there => Or.inl there)
  rcases List.mem_append.mp there with old | new
  · exact Or.inl old
  · rw [List.mem_singleton.mp new]
    exact Or.inr (sound.may i p.bare may)

variable (c : Chance)

/-- What a network looks like after thread `i` has been through a critical section of a node. -/
def Network.after (w : Network) (i : ℕ) (self : PeerID) (o : SwimOp) : Network :=
  { w with
    node := Function.update w.node self (SWIM.exec c o (w.node self)).2
    log := marks self (w.node self) o (SWIM.exec c o (w.node self)).1 ++ w.log
    dealings := Function.update w.dealings i ((w.dealings i).learn (.swim self o) (SWIM.exec c o (w.node self)).1) }

/-- One that is told of nothing and leads to nothing. -/
theorem sound_idle (sound : Sound w) (o : SwimOp) (tends : (w.node self).Tends (SWIM.exec c o (w.node self)).2)
    (unmarked : marks self (w.node self) o (SWIM.exec c o (w.node self)).1 = [])
    (unlearned : (w.dealings i).learn (.swim self o) (SWIM.exec c o (w.node self)).1 = w.dealings i) :
    Sound (w.after c i self o) := by
  unfold Network.after
  rw [unmarked, unlearned]
  exact sound.quiet tends [] (by simp)

theorem sound_probeOnce (sound : Sound w) (unwrapped : (w.node self).seq + 1 < wordSize) : Sound (w.after c i self .probeOnce) := by
  obtain ⟨picked, s', out⟩ : ∃ picked s', (w.node self).probeOnce c.now c.pick = (picked, s') := ⟨_, _, rfl⟩
  unfold Network.after SWIM.exec
  dsimp only
  rw [out]
  cases picked with
  | none =>
    obtain rfl := SWIM.probeOnce_none _ c.now out
    exact sound.quiet .refl [] (by simp)
  | some begun =>
    obtain ⟨target, seq⟩ := begun
    obtain ⟨rfl, counted, relays, pp, rfl, probes⟩ := SWIM.probeOnce_some _ c.now out
    rw [SWIM.succ_of_lt unwrapped] at counted probes ⊢
    have numbered : Numbered (Function.update w.node self s') (.took self ((w.node self).seq + 1) (.probe pp.target) :: w.log) := by
      refine sound.numbered.take _ counted (fun n pp' found => ?_) (fun m r found => Or.inr (relays ▸ found))
      rw [probes] at found
      by_cases new : n = (w.node self).seq + 1
      · subst new
        rw [AList.lookup_insert] at found
        cases found
        exact Or.inl ⟨rfl, rfl⟩
      · rw [AList.lookup_insert_ne new] at found
        exact Or.inr found
    refine sound.grow [.took self ((w.node self).seq + 1) (.probe pp.target)] numbered
      (sound.backed.cons (fun _ _ _ same => nomatch same)) (fun p there => Or.inl there) (fun p there => Or.inl there) (fun p there => ?_)
    rcases List.mem_cons.mp there with rfl | old
    · exact Or.inr (Or.inl List.mem_cons_self)
    · exact Or.inl old

theorem sound_processPendingProbes (sound : Sound w) : Sound (w.after c i self .processPendingProbes) := by
  obtain ⟨tends, prepared⟩ := (w.node self).processPendingProbes_tends c.now c.seqOrder c.shuffle
  refine sound.quiet tends (indirectPings self ((w.node self).processPendingProbes c.now c.seqOrder c.shuffle).1 []) (fun p member => ?_)
  obtain ⟨work, here, sent⟩ := List.mem_flatMap.mp member
  obtain ⟨relay, _, rfl⟩ := List.mem_map.mp sent
  obtain ⟨pp, found, same⟩ := prepared work here
  have taken := sound.numbered.probes self work.seq pp found
  rw [same] at taken
  exact taken

theorem SWIM.ack_some {s : SWIM} {seq : ℕ} {relay : PendingRelay} (found : s.pendingRelays.lookup seq = some relay) :
    s.ack seq = (some relay, { s with pendingRelays := s.pendingRelays.erase seq }) := by
  unfold ack
  rw [found]

theorem SWIM.ack_none {s : SWIM} {seq : ℕ} (found : s.pendingRelays.lookup seq = none) :
    s.ack seq = (none, { s with pendingProbes := s.pendingProbes.erase seq }) := by
  unfold ack
  rw [found]

theorem sound_ack (sound : Sound w) {seq : ℕ} (allows : (w.dealings i).Allows (.swim self (.ack seq))) :
    Sound (w.after c i self (.ack seq)) := by
  obtain ⟨p, got, dest, type, rfl⟩ := allows
  have answered : Answered w.log self p.message.seq := by
    have caused := sound.got i p got
    unfold Justified at caused
    rwa [type, dest] at caused
  unfold Network.after SWIM.exec
  dsimp only
  cases relayed : (w.node self).pendingRelays.lookup p.message.seq with
  | some relay =>
    rw [SWIM.ack_some relayed]
    have taken := sound.numbered.relays self p.message.seq relay relayed
    have passed : Answered w.log relay.requester relay.originalSeq := by
      rcases answered with ⟨t, taken', _⟩ | ⟨a, n, t, taken', began, probed⟩
      · cases sound.numbered.once self p.message.seq _ _ taken taken'
      · cases sound.numbered.once self p.message.seq _ _ taken taken'
        exact Or.inl ⟨t, began, probed⟩
    have tends : (w.node self).Tends { w.node self with pendingRelays := (w.node self).pendingRelays.erase p.message.seq } := by
      refine ⟨rfl, fun m r found => ?_, fun n pp found => ⟨pp, found, rfl⟩⟩
      by_cases same : m = p.message.seq
      · subst same
        rw [AList.lookup_erase] at found
        cases found
      · rwa [AList.lookup_erase_ne same] at found
    refine sound.quiet tends [sendAck self relay.requester relay.originalSeq []] (fun q there => ?_)
    rw [List.mem_singleton.mp there]
    exact passed
  | none =>
    rw [SWIM.ack_none relayed]
    have tends : (w.node self).Tends { w.node self with pendingProbes := (w.node self).pendingProbes.erase p.message.seq } :=
      .erase p.message.seq rfl rfl rfl
    cases pending : (w.node self).pendingProbes.lookup p.message.seq with
    | none =>
      simp only [marks, pending]
      exact sound.quiet tends [] (by simp)
    | some pp =>
      have taken := sound.numbered.probes self p.message.seq pp pending
      have probed : Probed w.log self p.message.seq pp.target := by
        rcases answered with ⟨t, taken', probed⟩ | ⟨a, n, t, taken', _, _⟩
        · cases sound.numbered.once self p.message.seq _ _ taken taken'
          exact probed
        · cases sound.numbered.once self p.message.seq _ _ taken taken'
      have numbered := (sound.numbered.tends tends).old (.cleared self p.message.seq pp.target) (by simp)
      simp only [marks, pending]
      refine sound.grow [.cleared self p.message.seq pp.target] numbered (sound.backed.cons (fun a n t same => ?_))
        (fun q there => Or.inl there) (fun q there => Or.inl there) (fun q there => Or.inl there)
      cases same
      exact probed

theorem sound_pingReq (sound : Sound w) {requester : PeerID} {seq : ℕ} (unwrapped : (w.node self).seq + 1 < wordSize) :
    Sound (w.after c i self (.pingReq requester seq)) := by
  unfold Network.after SWIM.exec SWIM.pingReq
  dsimp only
  rw [SWIM.succ_of_lt unwrapped]
  refine sound.grow [.took self ((w.node self).seq + 1) (.relay requester seq)] ?_ (sound.backed.cons (fun _ _ _ same => nomatch same))
    (fun p there => Or.inl there) (fun p there => Or.inl there) (fun p there => ?_)
  · refine sound.numbered.take _ rfl (fun n pp found => Or.inr found) (fun m r found => ?_)
    by_cases new : m = (w.node self).seq + 1
    · subst new
      rw [AList.lookup_insert] at found
      cases found
      exact Or.inl ⟨rfl, rfl⟩
    · rw [AList.lookup_insert_ne new] at found
      exact Or.inr found
  · rcases List.mem_append.mp there with new | old
    · obtain ⟨q, among, rfl⟩ := List.mem_map.mp new
      obtain ⟨got, asked⟩ := List.mem_filter.mp among
      obtain ⟨_, source, type, number⟩ : q.dest = self ∧ q.source = requester ∧ q.message.type = .pingReq ∧ q.message.seq = seq := by
        simpa [Packet.isPingReq] using asked
      have caused := sound.got i q got
      unfold Justified at caused
      rw [type, source, number] at caused
      exact Or.inr (Or.inr ⟨requester, seq, List.mem_cons_self, List.mem_cons_of_mem _ caused⟩)
    · exact Or.inl old

theorem sound_swim (sound : Sound w) (o : SwimOp) (unwrapped : (w.node self).seq + 1 < wordSize)
    (allows : (w.dealings i).Allows (.swim self o)) : Sound (w.after c i self o) := by
  cases o with
  | addMember pid => exact sound_idle c sound _ (.still rfl rfl rfl) rfl rfl
  | removeMember pid => exact sound_idle c sound _ (.still rfl rfl rfl) rfl rfl
  | probeOnce => exact sound_probeOnce c sound unwrapped
  | processPendingProbes => exact sound_processPendingProbes c sound
  | processSuspects =>
    have tends : (w.node self).Tends (((w.node self).overdue c.now c.order).foldl SWIM.bury (w.node self)) :=
      .foldl (fun s ev => s.bury_tends ev) _
    exact sound_idle c sound _ tends rfl rfl
  | updateN n => exact sound_idle c sound _ (.still rfl rfl rfl) rfl rfl
  | emit ev => exact sound_idle c sound _ (.still rfl rfl rfl) rfl rfl
  | getPiggyback maxEvents => exact sound_idle c sound _ (.still rfl rfl rfl) rfl rfl
  | ack seq => exact sound_ack c sound allows
  | pingReq requester seq => exact sound_pingReq c sound unwrapped
  | processEvents events =>
    have tends : (w.node self).Tends ((w.node self).processEvents c.now events) :=
      .foldl (fun s ev => s.processEvent_tends c.now ev) events
    exact sound_idle c sound _ tends rfl rfl

theorem sound_exec (sound : Sound w) {o : NetOp} {r : o.Res} {w' : Network} (executed : w.exec i c o = some (r, w'))
    (unwrapped : ∀ self o', o = .swim self o' → (w.node self).seq + 1 < wordSize) (allows : (w.dealings i).Allows o) : Sound w' := by
  cases o with
  | receive self =>
    simp only [Network.exec, Network.effect] at executed
    split at executed
    · cases executed
    · rename_i p found
      split at executed
      · rename_i dest
        cases executed
        exact sound_receive sound (List.mem_of_getElem? found) dest
      · cases executed
  | swim self o =>
    cases executed
    exact sound_swim c sound o (unwrapped self o rfl) allows
  | send p =>
    cases executed
    exact sound_send sound allows

end Steps

theorem Network.exec_addressed {i : ℕ} {c : Chance} {o : NetOp} {w w' : Network} {r : o.Res} (executed : w.exec i c o = some (r, w')) :
    Addressed o r := by
  cases o with
  | receive self =>
    simp only [Network.exec, Network.effect] at executed
    split at executed
    · cases executed
    · split at executed
      · rename_i dest
        cases executed
        exact dest
      · cases executed
  | swim self o => exact trivial
  | send p => exact trivial

theorem Network.exec_dealings {i : ℕ} {c : Chance} {o : NetOp} {w w' : Network} {r : o.Res} (executed : w.exec i c o = some (r, w')) :
    w'.dealings i = (w.dealings i).learn o r ∧ ∀ j, j ≠ i → w'.dealings j = w.dealings j := by
  obtain ⟨out, _, same⟩ := Option.map_eq_some_iff.mp executed
  obtain ⟨rfl, rfl⟩ := Prod.mk.inj same
  exact ⟨Function.update_self .., fun j different => Function.update_of_ne different ..⟩

theorem Sound.fresh (config : PeerID → Config) : Sound (NetCrew.fresh config).state where
  numbered :=
    { le := fun _ _ _ none => nomatch none
      once := fun _ _ _ _ none => nomatch none
      probes := fun _ _ _ none => nomatch none
      relays := fun _ _ _ none => nomatch none }
  sent := fun _ none => nomatch none
  got := fun _ _ none => nomatch none
  may := fun _ _ none => nomatch none
  backed := fun later _ _ _ _ split => absurd split (by simp [NetCrew.fresh])

theorem sound_of_reach {config : PeerID → Config} {c : NetCrew} (reach : Crew.Reach network Unwrapped (NetCrew.fresh config) c) :
    Sound c.state := by
  have follows : Crew.Follows Addressed Dealings.learn (fun k (_ : NetTask) o => k.Allows o) Network.dealings {} (NetCrew.fresh config) :=
    ⟨fun _ _ none => (nomatch none), fun _ _ => rfl⟩
  refine (reach.follows (fun k _ o => k.Allows o) Network.dealings {} (fun c => Sound c.state) (.fresh config) follows
    (fun task _ => body_deals task) (fun _ _ _ _ _ _ _ executed => Network.exec_addressed executed)
    (fun _ _ _ _ _ _ _ executed => Network.exec_dealings executed) (fun _ _ now => now) ?_).1
  intro c i choice task o next r w sound _ executed meeting allows
  refine sound_exec choice sound executed (fun self o' same => ?_) allows
  subst same
  exact meeting

/-- In a network of any number of nodes, whatever becomes of the messages: at each node the numbers of
pending probes and pending relays differ and none is ahead of the counter, and a probe that an `Ack`
clears has reached its target since it was begun. -/
theorem probe_sound {config : PeerID → Config} {c : NetCrew} (reach : Crew.Reach network Unwrapped (NetCrew.fresh config) c) :
    (∀ a n, ((n ∈ (c.state.node a).pendingProbes ∨ n ∈ (c.state.node a).pendingRelays) → n ≤ (c.state.node a).seq) ∧
      ¬ (n ∈ (c.state.node a).pendingProbes ∧ n ∈ (c.state.node a).pendingRelays)) ∧
    ∀ later earlier a n t, c.state.log = later ++ .cleared a n t :: earlier → Probed earlier a n t :=
  ⟨(sound_of_reach reach).numbered.disjoint, (sound_of_reach reach).backed⟩

/-- A node of a network lives by its turns: what holds in every run of a node holds of it here. -/
theorem node_played {meets : NetCrew → ℕ → NetTask → (o : NetOp) → o.Res → Prop} {config : PeerID → Config} {c : NetCrew}
    (reach : Crew.Reach network meets (NetCrew.fresh config) c) (a : PeerID) :
    ∃ turns, c.state.node a = (SWIM.new a (config a)).play turns := by
  induction reach with
  | start => exact ⟨[], rfl⟩
  | next _ step ih =>
    obtain ⟨turns, played⟩ := ih
    cases step with
    | enter task outside => exact ⟨turns, played⟩
    | @act i choice task o next r w present executed meeting =>
      rw [Crew.after_state]
      cases o with
      | receive self =>
        simp only [network, Network.exec, Network.effect] at executed
        split at executed
        · cases executed
        · split at executed
          · cases executed
            refine ⟨turns, ?_⟩
            split
            · exact played
            · exact played
          · cases executed
      | swim self o =>
        cases executed
        by_cases here : a = self
        · subst here
          refine ⟨turns ++ [⟨choice, o⟩], ?_⟩
          rw [SWIM.play_concat, ← played]
          exact Function.update_self ..
        · exact ⟨turns, (Function.update_of_ne here ..).trans played⟩
      | send p =>
        cases executed
        exact ⟨turns, played⟩

namespace Indirect

def config (_ : PeerID) : Config :=
  { probeTimeout := 500, indirectProbeTimeout := 1000, indirectProbes := 3, suspectTimeout := 5000, retransmitLimit := fun n => 3 * n }

def turn (i : ℕ) (now : ℤ) (pick : ℕ) : Crew.Move Chance NetTask := .act i { now, pick }

/-- Thread, clock, and the packet or member drawn. The `Ping` of `A` to `T` is lost; `B` pings it on behalf of `A`, and the `Ack` comes back the same way. -/
def schedule : List (Crew.Move Chance NetTask) :=
  [.enter (.addMember "A" "T"), turn 0 0 0, .enter (.addMember "A" "B"), turn 1 0 0,
    .enter (.round "A"), turn 2 0 1, turn 2 0 0, turn 2 0 0, turn 2 600 0, turn 2 600 0, turn 2 600 0,
    .enter (.handle "B"), turn 3 610 1, turn 3 610 0, turn 3 610 0, turn 3 610 0,
    .enter (.handle "T"), turn 4 620 2, turn 4 620 0, turn 4 620 0,
    .enter (.handle "B"), turn 5 630 3, turn 5 630 0, turn 5 630 0, turn 5 630 0,
    .enter (.handle "A"), turn 6 640 4, turn 6 640 0]

def crew : NetCrew := (NetCrew.fresh config).play network (fun _ _ => true) schedule

def unwrapped (c : NetCrew) (_ : ℕ) (_ : NetTask) : NetOp → Bool
  | .swim self _ => decide ((c.state.node self).seq + 1 < wordSize)
  | _ => true

/-- What had happened when the `Ack` reached `A`. -/
def earlier : List Mark := [.pinged "T" "B" 1, .took "B" 1 (.relay "A" 1), .took "A" 1 (.probe "T")]

theorem reach : Crew.Reach network Unwrapped (NetCrew.fresh config) crew := by
  refine Crew.Reach.of_checked unwrapped (fun c i task o r fine => ?_) schedule (by decide +kernel) .start
  cases o with
  | receive self => exact trivial
  | swim self o =>
    have bound : (c.state.node self).seq + 1 < wordSize := of_decide_eq_true fine
    exact bound
  | send p => exact trivial

end Indirect

theorem probe_sound_indirect : Probed Indirect.earlier "A" 1 "T" := by
  have log : Indirect.crew.state.log = [] ++ .cleared "A" 1 "T" :: Indirect.earlier := by decide +kernel
  exact (probe_sound Indirect.reach).2 [] Indirect.earlier "A" 1 "T" log

end OpenTela.Swim
