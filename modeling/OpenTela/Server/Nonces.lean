import OpenTela.Server.Registration
import Mathlib.Data.List.Perm.Subperm

namespace OpenTela

open Prog

/-- The nonce has been found, and read to be unexpired. -/
def RegProgress.Checked (k : RegProgress) (nonce : String) : Prop :=
  ∃ challenge now, k.loaded = some (nonce, challenge) ∧ k.read = some now ∧ now ≤ challenge.expires

/-- A thread consumes a nonce that it has checked, once, and registers with the nonce that it has consumed, once. -/
def RegProgress.Allows (k : RegProgress) (_ : RegTask) : RegOp → Prop
  | .consume nonce => k.consumed = none ∧ k.Checked nonce
  | .registerRemotePeer req =>
    k.consumed = some req.challengeResponse.nonce ∧ k.registered = false ∧ k.Checked req.challengeResponse.nonce
  | _ => True

section Conduct

variable {PubKey : Type} {setup : Registrar PubKey} {task : RegTask}

abbrev Registers {α : Type} (task : RegTask) (k : RegProgress) (p : RegM α) : Prop :=
  Always (fun _ _ => True) RegProgress.learn (fun k o _ _ => k.Allows task o) (fun _ _ => True) k p

theorem Registers.done {α : Type} {k : RegProgress} {p : RegM α} (registers : Registers task k p) :
    Registers task k (p.bind (fun _ => Prog.ret ())) := by
  refine Always.bind (registers.mono (fun _ _ _ _ _ fine => fine) ?_)
  rintro k (e | a) _
  · trivial
  · exact trivial

theorem challengePeer_registers (peerID : String) : Registers task {} (challengePeer setup peerID) := by
  unfold challengePeer
  split
  · exact trivial
  · intro random _
    refine ⟨trivial, ?_⟩
    cases random with
    | none => exact trivial
    | some nonce => exact fun _ _ => ⟨trivial, fun _ _ => ⟨trivial, trivial⟩⟩

theorem vet_challengeResponse {req vetted : RegisterRequest} (fine : registerPeer.vet setup req = .ok vetted) :
    vetted.challengeResponse = req.challengeResponse := by
  unfold registerPeer.vet at fine
  split at fine
  · cases fine
  · split at fine
    · cases fine
    · split at fine
      · cases fine
      · repeat' split at fine
        all_goals cases fine
        rfl

theorem registerPeer_registers (body : Except String RegisterRequest) : Registers task {} (registerPeer setup body) := by
  cases body with
  | error e => exact trivial
  | ok req =>
    unfold registerPeer
    dsimp only
    split
    · exact trivial
    · intro found _
      refine ⟨trivial, ?_⟩
      cases found with
      | none => exact trivial
      | some challenge =>
        intro now _
        refine ⟨trivial, ?_⟩
        dsimp only [Prog.bind]
        split
        · exact fun _ _ => ⟨trivial, trivial⟩
        · rename_i unexpired
          split
          · exact trivial
          · split
            · exact trivial
            · have checked : RegProgress.Checked { loaded := some (req.challengeResponse.nonce, challenge), read := some now }
                  req.challengeResponse.nonce := ⟨challenge, now, rfl, rfl, Int.not_lt.mp unexpired⟩
              refine fun _ _ => ⟨⟨rfl, checked⟩, ?_⟩
              split
              · exact trivial
              · rename_i vetted fine
                have same := vet_challengeResponse fine
                refine fun written _ => ⟨⟨?_, rfl, ?_⟩, ?_⟩
                · rw [same]
                  rfl
                · rw [same]
                  exact checked
                · cases written with
                  | error e => exact trivial
                  | ok _ => exact trivial

theorem cleanup_registers (now : ℤ) (entries : List (String × PendingChallenge)) {k : RegProgress} :
    Registers task k (cleanExpiredChallenges.loop now entries) := by
  induction entries with
  | nil => exact trivial
  | cons entry rest ih =>
    unfold cleanExpiredChallenges.loop
    split
    · exact fun _ _ => ⟨trivial, ih⟩
    · exact ih

theorem body_registers (task : RegTask) : Registers task {} (setup.body task) := by
  cases task with
  | challenge peerID => exact (challengePeer_registers peerID).done
  | register body => exact (registerPeer_registers body).done
  | cleanup => exact fun now _ => ⟨trivial, fun entries _ => ⟨trivial, cleanup_registers now entries⟩⟩

end Conduct

namespace Registry

def issuances (s : Registry) (nonce : String) : ℕ := (s.issued.filter (fun entry => entry.1 = nonce)).length

def consumptions (s : Registry) (nonce : String) : ℕ := (s.consumed.filter (fun entry => entry.2 = nonce)).length

def registrations (s : Registry) (nonce : String) : List Registration := s.registered.filter (fun r => r.nonce = nonce)

/-- The registration had found its nonce among those issued, and before it expired. -/
def InTime (s : Registry) (r : Registration) : Prop :=
  ∃ challenge now, (r.nonce, challenge) ∈ s.issued ∧ r.checked = some now ∧ now ≤ challenge.expires

/-- Registrations are in time. If it is `strict`, then of the times a nonce has been issued one may be left in the
store, and only the others have been consumed. -/
structure Sound (strict : Prop) (s : Registry) : Prop where
  counted : strict → ∀ nonce, s.consumptions nonce + (if (s.challengeStore.lookup nonce).isSome then 1 else 0) ≤ s.issuances nonce
  stored : ∀ nonce challenge, s.challengeStore.lookup nonce = some challenge → (nonce, challenge) ∈ s.issued
  loaded : ∀ i entry, (s.progress i).loaded = some entry → entry ∈ s.issued
  consumed : ∀ i nonce, (s.progress i).consumed = some nonce → (i, nonce) ∈ s.consumed
  once : (s.registered.map Registration.thread).Nodup
  registered : ∀ r ∈ s.registered, (r.thread, r.nonce) ∈ s.consumed ∧ (s.progress r.thread).registered = true ∧ s.InTime r

section Steps

variable {strict : Prop} {s : Registry} {i : ℕ} {nonce : String}

theorem lookup_delete (nonce other : String) :
    (s.delete nonce).challengeStore.lookup other = if other = nonce then none else s.challengeStore.lookup other := by
  unfold delete
  dsimp only
  induction s.challengeStore with
  | nil => simp
  | cons entry rest ih =>
    obtain ⟨key, challenge⟩ := entry
    by_cases gone : key = nonce
    · subst gone
      rw [List.filter_cons_of_neg (by simp), ih]
      by_cases same : other = key
      · simp [same]
      · have different : (other == key) = false := by simpa using same
        simp [same, List.lookup_cons, different]
    · rw [List.filter_cons_of_pos (by simpa using gone), List.lookup_cons, List.lookup_cons, ih]
      by_cases same : other = nonce
      · subst same
        have different : (other == key) = false := by simpa using Ne.symm gone
        simp [different]
      · simp [same]

/-- A thread has come further, and can show what it has done. -/
theorem Sound.note (sound : s.Sound strict) {k : RegProgress} (loaded : ∀ entry, k.loaded = some entry → entry ∈ s.issued)
    (consumed : ∀ nonce, k.consumed = some nonce → (i, nonce) ∈ s.consumed)
    (registered : (s.progress i).registered = true → k.registered = true) :
    Sound strict { s with progress := Function.update s.progress i k } := by
  refine ⟨sound.counted, sound.stored, fun j entry has => ?_, fun j nonce has => ?_, sound.once, fun r member => ?_⟩
  · by_cases same : j = i
    · subst same
      simp only [Function.update_self] at has
      exact loaded entry has
    · simp only [Function.update_of_ne same] at has
      exact sound.loaded j entry has
  · by_cases same : j = i
    · subst same
      simp only [Function.update_self] at has
      exact consumed nonce has
    · simp only [Function.update_of_ne same] at has
      exact sound.consumed j nonce has
  · obtain ⟨used, done, inTime⟩ := sound.registered r member
    refine ⟨used, ?_, inTime⟩
    by_cases same : r.thread = i
    · simp only [same, Function.update_self]
      rw [same] at done
      exact registered done
    · simpa only [Function.update_of_ne same] using done

theorem Sound.delete (sound : s.Sound strict) (nonce : String) : (s.delete nonce).Sound strict := by
  refine ⟨fun holds other => ?_, fun other challenge has => ?_, sound.loaded, sound.consumed, sound.once, sound.registered⟩
  · have counted := sound.counted holds other
    rw [lookup_delete]
    by_cases same : other = nonce
    · simp only [same, if_true, Option.isSome_none, Bool.false_eq_true, if_false]
      rw [same] at counted
      exact (Nat.le_add_right _ _).trans counted
    · rw [if_neg same]
      exact counted
  · rw [lookup_delete] at has
    split at has
    · cases has
    · exact sound.stored other challenge has

/-- Consuming a nonce takes it from the store, if it is there. -/
theorem Sound.consume (sound : s.Sound strict) (found : strict → (s.challengeStore.lookup nonce).isSome = true) :
    Sound strict { s.delete nonce with consumed := s.consumed ++ [(i, nonce)] } := by
  have without := sound.delete nonce
  refine ⟨fun holds other => ?_, without.stored, without.loaded, fun j other has => ?_, without.once, fun r member => ?_⟩
  · change ((s.consumed ++ [(i, nonce)]).filter (fun entry => entry.2 = other)).length +
      (if ((s.delete nonce).challengeStore.lookup other).isSome then 1 else 0) ≤ s.issuances other
    rw [List.filter_append, List.length_append, lookup_delete]
    have counted := sound.counted holds other
    unfold consumptions at counted
    by_cases same : other = nonce
    · subst same
      simpa [found holds] using counted
    · have different : ¬ nonce = other := Ne.symm same
      rw [if_neg same]
      simpa [different] using counted
  · exact List.mem_append_left _ (sound.consumed j other has)
  · obtain ⟨used, done, inTime⟩ := sound.registered r member
    exact ⟨List.mem_append_left _ used, done, inTime⟩

theorem Sound.store (sound : s.Sound strict) (nonce : String) (challenge : PendingChallenge) :
    Sound strict { s with
      challengeStore := (nonce, challenge) :: (s.delete nonce).challengeStore
      issued := s.issued ++ [(nonce, challenge)] } := by
  have without := sound.delete nonce
  have grows : ∀ entry ∈ s.issued, entry ∈ s.issued ++ [(nonce, challenge)] := fun entry => List.mem_append_left _
  refine ⟨fun holds other => ?_, fun other found has => ?_, fun j entry has => grows _ (sound.loaded j entry has), sound.consumed,
    sound.once, fun r member => ?_⟩
  · change s.consumptions other + (if (((nonce, challenge) :: (s.delete nonce).challengeStore).lookup other).isSome then 1 else 0) ≤
      ((s.issued ++ [(nonce, challenge)]).filter (fun entry => entry.1 = other)).length
    rw [List.filter_append, List.length_append, List.lookup_cons, lookup_delete]
    have counted := sound.counted holds other
    unfold issuances at counted
    by_cases same : other = nonce
    · subst same
      simpa using (Nat.le_add_right _ _).trans counted
    · have different : ¬ nonce = other := Ne.symm same
      have unequal : (other == nonce) = false := by simpa using same
      simp only [if_neg same, unequal]
      simpa [different] using counted
  · rw [List.lookup_cons] at has
    split at has
    · rename_i same
      cases has
      rw [eq_of_beq same]
      exact List.mem_append_right _ List.mem_cons_self
    · exact grows _ (without.stored other found has)
  · obtain ⟨used, done, issued, now, before, checked, inTime⟩ := sound.registered r member
    exact ⟨used, done, issued, now, grows _ before, checked, inTime⟩

theorem Sound.register (sound : s.Sound strict) {req : RegisterRequest} (consumed : (s.progress i).consumed = some req.challengeResponse.nonce)
    (unregistered : (s.progress i).registered = false) (checked : (s.progress i).Checked req.challengeResponse.nonce) :
    Sound strict { s with
      registered := s.registered ++ [{ thread := i, req, checked := (s.progress i).read }]
      progress := Function.update s.progress i { s.progress i with registered := true } } := by
  obtain ⟨challenge, now, loaded, read, inTime⟩ := checked
  have noted := sound.note (i := i) (k := { s.progress i with registered := true }) (fun entry has => sound.loaded i entry has)
    (fun nonce has => sound.consumed i nonce has) (fun _ => rfl)
  refine ⟨sound.counted, sound.stored, noted.loaded, noted.consumed, ?_, fun r member => ?_⟩
  · rw [List.map_append, List.map_singleton]
    refine List.Nodup.append sound.once (List.nodup_singleton i) ?_
    intro thread before new
    obtain rfl := List.mem_singleton.mp new
    obtain ⟨r, member, rfl⟩ := List.mem_map.mp before
    cases unregistered.symm.trans (sound.registered r member).2.1
  · rcases List.mem_append.mp member with old | new
    · exact noted.registered r old
    · obtain rfl := List.mem_singleton.mp new
      refine ⟨sound.consumed i _ consumed, ?_, challenge, now, sound.loaded i _ loaded, read, inTime⟩
      simp only [Function.update_self]

theorem act_progress (chance : RegChance) (o : RegOp) : (s.act i chance o).2.progress = s.progress := by
  cases o with
  | registerRemotePeer req =>
    unfold Registry.act
    dsimp only
    split <;> rfl
  | _ => rfl

theorem Sound.exec (sound : s.Sound strict) {chance : RegChance} {o : RegOp} {task : RegTask} (allowed : (s.progress i).Allows task o)
    (found : strict → ∀ nonce, o = .consume nonce → (s.challengeStore.lookup nonce).isSome = true) :
    Sound strict { (s.act i chance o).2 with
      progress := Function.update (s.act i chance o).2.progress i
        (((s.act i chance o).2.progress i).learn o (s.act i chance o).1) } := by
  have same : Sound strict { s with progress := Function.update s.progress i (s.progress i) } :=
    sound.note (sound.loaded i) (sound.consumed i) id
  cases o with
  | random => exact same
  | range => exact same
  | now => exact sound.note (sound.loaded i) (sound.consumed i) id
  | store nonceHex challenge =>
    have stored := sound.store nonceHex challenge
    exact stored.note (stored.loaded i) (stored.consumed i) id
  | load nonce =>
    refine sound.note (fun entry has => ?_) (sound.consumed i) id
    obtain ⟨challenge, there, rfl⟩ := Option.map_eq_some_iff.mp has
    exact sound.stored nonce challenge there
  | expire nonce =>
    have deleted := sound.delete nonce
    exact deleted.note (deleted.loaded i) (deleted.consumed i) id
  | consume nonce =>
    have consumed := sound.consume (i := i) (fun holds => found holds nonce rfl)
    refine consumed.note (consumed.loaded i) (fun other has => ?_) id
    cases has
    exact List.mem_append_right _ List.mem_cons_self
  | registerRemotePeer req =>
    obtain ⟨used, unregistered, checked⟩ := allowed
    unfold Registry.act RegProgress.learn
    dsimp only
    cases written : chance.written.isOk with
    | true =>
      simp only [if_true, Bool.or_true]
      exact sound.register used unregistered checked
    | false =>
      simp only [Bool.false_eq_true, if_false, Bool.or_false]
      exact same

/-- Threads register once each, with a nonce they have consumed: no more of them than the nonce has been issued. -/
theorem Sound.registrations_le (sound : s.Sound True) (nonce : String) : (s.registrations nonce).length ≤ s.issuances nonce := by
  have each : ((s.registrations nonce).map (fun r => (r.thread, r.nonce))).Nodup := by
    have threads : ((s.registrations nonce).map Registration.thread).Nodup :=
      sound.once.sublist (List.filter_sublist.map Registration.thread)
    refine List.Nodup.of_map Prod.fst ?_
    rw [List.map_map]
    exact threads
  have used : (s.registrations nonce).map (fun r => (r.thread, r.nonce)) ⊆ s.consumed.filter (fun entry => entry.2 = nonce) := by
    intro entry member
    obtain ⟨r, among, rfl⟩ := List.mem_map.mp member
    obtain ⟨registered, same⟩ := List.mem_filter.mp among
    exact List.mem_filter.mpr ⟨(sound.registered r registered).1, same⟩
  calc (s.registrations nonce).length = ((s.registrations nonce).map (fun r => (r.thread, r.nonce))).length := (List.length_map _).symm
    _ ≤ s.consumptions nonce := (List.subperm_of_subset each used).length_le
    _ ≤ s.issuances nonce := (Nat.le_add_right _ _).trans (sound.counted trivial nonce)

end Steps

end Registry

/-- A nonce that is consumed is still in the store. -/
def Unspent (c : RegCrew) (_ : ℕ) (_ : RegTask) : (o : RegOp) → o.Res → Prop
  | .consume nonce, _ => (c.state.challengeStore.lookup nonce).isSome = true
  | _, _ => True

theorem RegCrew.sound {PubKey : Type} {setup : Registrar PubKey} {c : RegCrew}
    {meets : RegCrew → ℕ → RegTask → (o : RegOp) → o.Res → Prop} (strict : Prop)
    (unspent : strict → ∀ c i task o r, meets c i task o r → Unspent c i task o r)
    (reach : Crew.Reach setup.system meets RegCrew.fresh c) : c.state.Sound strict := by
  have begins : RegCrew.fresh.state.Sound strict := by
    refine ⟨fun _ _ => Nat.le_refl _, fun _ _ has => ?_, fun _ _ has => ?_, fun _ _ has => ?_, List.nodup_nil, fun _ member => ?_⟩
    · cases has
    · cases has
    · cases has
    · cases member
  refine (reach.follows RegProgress.Allows (fun s i => s.progress i) {} (fun c => c.state.Sound strict) begins ⟨?_, fun _ _ => rfl⟩
    (fun task _ => body_registers task) ?_ ?_ (fun _ _ sound => sound) ?_).1
  · intro i t present
    cases present
  · intros
    trivial
  · rintro c i chance o r s - executed
    obtain ⟨rfl, rfl⟩ := Prod.mk.inj (Option.some.inj executed)
    rw [Registry.act_progress]
    exact ⟨Function.update_self _ _ _, fun j different => Function.update_of_ne different _ _⟩
  · rintro c i chance task o next r s sound present executed meeting allowed
    obtain ⟨rfl, rfl⟩ := Prod.mk.inj (Option.some.inj executed)
    refine sound.exec allowed (fun holds nonce same => ?_)
    subst same
    exact unspent holds _ _ _ _ _ meeting

/-- In every run: a nonce that lets a request through is one that has been issued, and read to be unexpired. -/
theorem registered_inTime {PubKey : Type} {setup : Registrar PubKey} {c : RegCrew}
    (reach : Crew.Reach setup.system Crew.Anyhow RegCrew.fresh c) : ∀ r ∈ c.state.registered, c.state.InTime r :=
  fun r member => ((RegCrew.sound False (fun never => never.elim) reach).registered r member).2.2

/-- While every nonce that is consumed is still in the store, a nonce is good for one registration each time it is
issued, and for none but within its time. -/
theorem nonce_single_use {PubKey : Type} {setup : Registrar PubKey} {c : RegCrew}
    (reach : Crew.Reach setup.system Unspent RegCrew.fresh c) :
    (∀ nonce, (c.state.registrations nonce).length ≤ c.state.issuances nonce) ∧
      ∀ r ∈ c.state.registered, c.state.InTime r := by
  have sound := RegCrew.sound True (fun _ _ _ _ _ _ meeting => meeting) reach
  exact ⟨sound.registrations_le, fun r member => (sound.registered r member).2.2⟩

namespace Doubled

def setup : Registrar Unit where
  crypto :=
    { base58 := fun _ => none
      base64 := fun _ => some []
      hex := fun _ => some (List.replicate 32 0)
      identityPayload := fun _ _ _ => []
      verify := fun _ _ _ => true }
  encodeHex := fun _ => "a7"
  unmarshalPublicKey := fun _ => some ()
  idFromPublicKey := fun _ => some "relay1"
  verify := fun _ _ _ => some true
  parseIP := fun _ => true
  buildBootstrapAddr := fun _ _ _ _ => "/ip4/1.2.3.4/tcp/4001/p2p/relay1"

def req : RegisterRequest where
  peer := { id := "relay1", role := ["relay"], buildAttestation := some { version := "1", commit := "c", signature := "s" } }
  publicAddress := "1.2.3.4"
  publicPort := "4001"
  challengeResponse := { nonce := "a7", signature := "s", peerID := "relay1", publicKey := "k" }

abbrev Move := Crew.Move RegChance RegTask

/-- The nonce is issued at time 0, and two requests come with it. -/
def issue : List Move :=
  [.enter (.challenge "relay1"), .act 0 { random := some [167] }, .act 0 {}, .act 0 {}, .enter (.register (.ok req)),
    .enter (.register (.ok req))]

/-- The second request comes after the first. -/
def inTurn : List Move := issue ++ [.act 1 {}, .act 1 { now := 1 }, .act 1 {}, .act 1 {}, .act 2 {}]

/-- Both find the nonce before either of them consumes it. -/
def atOnce : List Move :=
  issue ++ [.act 1 {}, .act 2 {}, .act 1 { now := 1 }, .act 2 { now := 1 }, .act 1 {}, .act 2 {}, .act 1 {}, .act 2 {}]

def unspent (c : RegCrew) (_ : ℕ) (_ : RegTask) : RegOp → Bool
  | .consume nonce => (c.state.challengeStore.lookup nonce).isSome
  | _ => true

theorem unspent_meets (c : RegCrew) (i : ℕ) (task : RegTask) (o : RegOp) (r : o.Res) (fine : unspent c i task o = true) :
    Unspent c i task o r := by
  cases o with
  | consume nonce => exact fine
  | _ => trivial

end Doubled

open Doubled in
theorem nonce_single_use_in_turn :
    (RegCrew.fresh.play setup.system (fun _ _ => true) inTurn).state.registered.length = 1 ∧
      ((RegCrew.fresh.play setup.system (fun _ _ => true) inTurn).state.registrations "a7").length ≤
        (RegCrew.fresh.play setup.system (fun _ _ => true) inTurn).state.issuances "a7" := by
  have reach : Crew.Reach setup.system Unspent RegCrew.fresh (RegCrew.fresh.play setup.system (fun _ _ => true) inTurn) :=
    .of_checked unspent unspent_meets inTurn (by decide +kernel) .start
  exact ⟨by decide +kernel, (nonce_single_use reach).1 "a7"⟩

open Doubled in
/-- Two requests that look up the nonce before it is consumed both register with it. -/
theorem nonce_used_twice : ¬ ∀ (setup : Registrar Unit) (c : RegCrew), Crew.Reach setup.system Crew.Anyhow RegCrew.fresh c →
    ∀ nonce, (c.state.registrations nonce).length ≤ c.state.issuances nonce := by
  intro always
  have reach : Crew.Reach setup.system Crew.Anyhow RegCrew.fresh (RegCrew.fresh.play setup.system (fun _ _ => true) atOnce) :=
    .of_play (fun _ _ => true) (fun _ _ _ _ _ _ => trivial) atOnce .start
  have once := always setup _ reach "a7"
  have twice : ((RegCrew.fresh.play setup.system (fun _ _ => true) atOnce).state.registrations "a7").length = 2 ∧
      (RegCrew.fresh.play setup.system (fun _ _ => true) atOnce).state.issuances "a7" = 1 := by decide +kernel
  omega

end OpenTela
