import OpenTela.Snapshot.Bridge
import Mathlib.Data.List.Count
import Mathlib.Data.List.Nodup

namespace OpenTela.Snapshot

open OpenTela.Swim (PeerID ordered mem_ordered ordered_nodup)

variable {ι : Type}

/-- No list of an index has the same peer twice. -/
def Index.Once (index : Index ι) : Prop := ∀ k, ((index.at k).map SnapshotPeer.peerID).Nodup

def NodeTableSnapshot.Once (s : NodeTableSnapshot ι) : Prop := s.byService.Once ∧ s.byIdentity.Once ∧ s.byRole.Once

/-- The peer has no two services of one name, and no group and no role twice. -/
def SnapshotPeer.Distinct (p : SnapshotPeer ι) : Prop := p.serviceNames.Nodup ∧ p.identityGroups.Nodup ∧ p.role.Nodup

/-- Each peer of the table that is indexed is distinct. -/
def AllDistinct (peers : Peers ι) : Prop := ∀ pid p, peers.lookup pid = some p → p.listed = true → p.Distinct

def PeerData.Distinct (data : PeerData ι) : Prop :=
  (data.services.map ServiceData.name).Nodup ∧ data.identityGroups.Nodup ∧ data.role.Nodup

/-- What the event brings is distinct. -/
def NodeEvent.Distinct (e : NodeEvent ι) : Prop := ∀ data, e.peerData = some data → data.Distinct

section Lists

variable {keys : SnapshotPeer ι → List String} {peers : List (SnapshotPeer ι)}

/-- A peer is listed under a key as often as it has the key. -/
theorem Index.at_list (index : Index ι) (keys : List String) (p : SnapshotPeer ι) (k : String) :
    (index.list keys p).at k = index.at k ++ List.replicate (keys.count k) p := by
  induction keys generalizing index with
  | nil => simp [Index.list]
  | cons key rest ih =>
    have first : index.list (key :: rest) p = Index.list (index.insert key (index.at key ++ [p])) rest p := rfl
    rw [first, ih, Index.at_insert]
    by_cases same : k = key
    · subst same
      rw [if_pos rfl, List.count_cons_self, List.append_assoc, List.singleton_append, List.replicate_succ]
    · rw [if_neg same, List.count_cons_of_ne (Ne.symm same)]

theorem at_foldl_list (index : Index ι) (k : String) :
    (peers.foldl (fun index p => index.list (keys p) p) index).at k =
      index.at k ++ peers.flatMap (fun p => List.replicate ((keys p).count k) p) := by
  induction peers generalizing index with
  | nil => simp
  | cons p rest ih => rw [List.foldl_cons, ih, Index.at_list, List.flatMap_cons, List.append_assoc]

theorem at_indexBy (k : String) : (indexBy keys peers).at k =
    (peers.filter SnapshotPeer.listed).flatMap (fun p => List.replicate ((keys p).count k) p) := by
  unfold indexBy
  rw [at_foldl_list]
  rfl

/-- Of peers that are all different, one is twice in a list exactly if it has a key twice. -/
theorem indexBy_once (different : (peers.map SnapshotPeer.peerID).Nodup) :
    (indexBy keys peers).Once ↔ ∀ p ∈ peers, p.listed = true → (keys p).Nodup := by
  have listed : ((peers.filter SnapshotPeer.listed).map SnapshotPeer.peerID).Nodup :=
    different.sublist (List.filter_sublist.map SnapshotPeer.peerID)
  have apart : ∀ k, (peers.filter SnapshotPeer.listed).Pairwise (fun p q =>
      List.Disjoint (List.replicate ((keys p).count k) p.peerID) (List.replicate ((keys q).count k) q.peerID)) := by
    intro k
    refine (List.pairwise_map.mp listed).imp ?_
    intro p q other pid here there
    exact other ((List.eq_of_mem_replicate here).symm.trans (List.eq_of_mem_replicate there))
  have atKey : ∀ k, (((indexBy keys peers).at k).map SnapshotPeer.peerID).Nodup ↔
      ∀ p ∈ peers.filter SnapshotPeer.listed, (keys p).count k ≤ 1 := by
    intro k
    rw [at_indexBy, List.map_flatMap]
    simp only [List.map_replicate]
    rw [List.nodup_flatMap]
    constructor
    · exact fun once p member => List.nodup_replicate.mp (once.1 p member)
    · exact fun once => ⟨fun p member => List.nodup_replicate.mpr (once p member), apart k⟩
  constructor
  · intro once p member listed
    rw [List.nodup_iff_count_le_one]
    exact fun k => (atKey k).mp (once k) p (List.mem_filter.mpr ⟨member, listed⟩)
  · intro distinct k
    refine (atKey k).mpr (fun p member => ?_)
    obtain ⟨present, listed⟩ := List.mem_filter.mp member
    exact List.nodup_iff_count_le_one.mp (distinct p present listed) k

end Lists

/-- The peers of a table, in any order, are all different. -/
theorem traversed_different (order : PeerID → ℕ) {peers : Peers ι} (keyed : Keyed peers) :
    (((ordered order peers.keys).filterMap peers.lookup).map SnapshotPeer.peerID).Nodup := by
  have own : ∀ pids : List PeerID, (pids.filterMap peers.lookup).map SnapshotPeer.peerID =
      pids.filter (fun pid => (peers.lookup pid).isSome) := by
    intro pids
    induction pids with
    | nil => rfl
    | cons pid rest ih =>
      cases found : peers.lookup pid with
      | none => simp [found, ih]
      | some p => simp [found, ih, keyed pid p found]
  rw [own]
  exact (ordered_nodup peers.nodupKeys).filter _

theorem rebuildIndexes_once (order : PeerID → ℕ) {s : NodeTableSnapshot ι} (keyed : Keyed s.peers) :
    (s.rebuildIndexes order).Once ↔ AllDistinct s.peers := by
  have different := traversed_different order keyed
  have present : ∀ p, p ∈ (ordered order s.peers.keys).filterMap s.peers.lookup ↔ ∃ pid, s.peers.lookup pid = some p := by
    intro p
    rw [List.mem_filterMap]
    constructor
    · rintro ⟨pid, _, found⟩
      exact ⟨pid, found⟩
    · rintro ⟨pid, found⟩
      have known : pid ∈ s.peers := AList.lookup_isSome.mp (by rw [found]; rfl)
      exact ⟨pid, mem_ordered.mpr (AList.mem_keys.mp known), found⟩
  unfold NodeTableSnapshot.Once NodeTableSnapshot.rebuildIndexes
  dsimp only
  rw [indexBy_once different, indexBy_once different, indexBy_once different]
  constructor
  · rintro ⟨services, groups, roles⟩ pid p found listed
    have member := (present p).mpr ⟨pid, found⟩
    exact ⟨services p member listed, groups p member listed, roles p member listed⟩
  · intro distinct
    have each : ∀ p ∈ (ordered order s.peers.keys).filterMap s.peers.lookup, p.listed = true → p.Distinct := by
      intro p member listed
      obtain ⟨pid, found⟩ := (present p).mp member
      exact distinct pid p found listed
    exact ⟨fun p member listed => (each p member listed).1, fun p member listed => (each p member listed).2.1,
      fun p member listed => (each p member listed).2.2⟩

section Events

variable {e : NodeEvent ι} {p : SnapshotPeer ι}

theorem overwriteList_nodup {α : Type} {old new : List α} (before : old.Nodup) (brought : new.Nodup) : (overwriteList old new).Nodup := by
  unfold overwriteList
  split
  · exact brought
  · exact before

theorem SnapshotPeer.Distinct.join (distinct : p.Distinct) (brings : e.Distinct) : (p.join e).Distinct := by
  unfold SnapshotPeer.join
  cases brought : e.peerData with
  | none => exact distinct
  | some data =>
    obtain ⟨_, groups, roles⟩ := brings data brought
    exact ⟨distinct.1, overwriteList_nodup distinct.2.1 groups, overwriteList_nodup distinct.2.2 roles⟩

theorem SnapshotPeer.Distinct.update (distinct : p.Distinct) (brings : e.Distinct) : (p.update e).Distinct := by
  unfold SnapshotPeer.update
  cases brought : e.peerData with
  | none => exact distinct
  | some data =>
    obtain ⟨services, groups, _⟩ := brings data brought
    refine ⟨?_, overwriteList_nodup distinct.2.1 groups, distinct.2.2⟩
    have named : (overwriteList p.services data.services).map ServiceData.name =
        overwriteList p.serviceNames (data.services.map ServiceData.name) := by
      unfold overwriteList
      rw [List.length_map]
      split <;> rfl
    unfold SnapshotPeer.serviceNames
    rw [named]
    exact overwriteList_nodup distinct.1 services

theorem SnapshotPeer.new_distinct (e : NodeEvent ι) : (SnapshotPeer.new e).Distinct :=
  ⟨List.nodup_nil, List.nodup_nil, List.nodup_nil⟩

/-- The peers of a table, listed or not, are distinct. -/
abbrev EveryDistinct (peers : Peers ι) : Prop := Store.All (fun _ p => p.Distinct) peers

theorem EveryDistinct.applyEvent {peers : Peers ι} (every : EveryDistinct peers) (brings : e.Distinct) :
    EveryDistinct (applyEvent peers e) := by
  have fresh := SnapshotPeer.new_distinct e
  unfold Snapshot.applyEvent
  cases e.type with
  | swimJoin => exact Store.All.insert every ((Store.All.getD every fresh).join brings)
  | swimAlive => exact Store.All.insert every ((Store.All.getD every fresh).join brings)
  | swimSuspect => exact Store.All.insert every (Store.All.getD every fresh)
  | swimDead => exact Store.All.erase every _
  | crdtUpdate => exact Store.All.insert every ((Store.All.getD every fresh).update brings)
  | crdtDelete => exact Store.All.erase every _

theorem EveryDistinct.foldl {peers : Peers ι} (every : EveryDistinct peers) {events : List (NodeEvent ι)}
    (brings : ∀ e ∈ events, e.Distinct) : EveryDistinct (events.foldl Snapshot.applyEvent peers) := by
  induction events generalizing peers with
  | nil => exact every
  | cons e rest ih =>
    have here := every.applyEvent (brings e List.mem_cons_self)
    exact ih here (fun e' later => brings e' (List.mem_cons_of_mem _ later))

end Events

section Runs

/-- Only a batch that is applied is published. -/
theorem Writer.step_published (w : Writer ι) (step : Writer.Step ι) :
    ∀ s ∈ (w.step step).published, s ∈ w.published ∨ ∃ order batch, s = w.table.applyBatch order batch := by
  have applied : ∀ (w' : Writer ι) order, w'.table = w.table → w'.published = w.published →
      ∀ s ∈ (w'.applyBatch order).published, s ∈ w.published ∨ ∃ order batch, s = w.table.applyBatch order batch := by
    intro w' order table published s member
    rcases List.mem_cons.mp member with rfl | before
    · exact Or.inr ⟨order, w'.batch, by rw [table]⟩
    · exact Or.inl (published ▸ before)
  intro s member
  cases step with
  | send e =>
    simp only [Writer.step, Writer.send] at member
    split at member <;> exact Or.inl member
  | receive order =>
    simp only [Writer.step] at member
    split at member
    · split at member
      · exact applied _ order (by rfl) (by rfl) s member
      · exact Or.inl member
    · exact Or.inl member
  | tick order =>
    simp only [Writer.step] at member
    split at member
    · exact applied _ order (by rfl) (by rfl) s member
    · exact Or.inl member
  | stop =>
    simp only [Writer.step] at member
    split at member <;> exact Or.inl member
  | drain =>
    simp only [Writer.step] at member
    split at member <;> exact Or.inl member
  | finish order =>
    simp only [Writer.step] at member
    split at member
    · split at member
      · exact applied _ order (by rfl) (by rfl) s member
      · exact Or.inl member
    · exact Or.inl member

variable {w : Writer ι}

/-- The condition on the table that is published. -/
def Writer.OnceIff (w : Writer ι) : Prop := ∀ s ∈ w.published, s.Once ↔ AllDistinct s.peers

theorem Writer.OnceIff.step (sound : w.Sound) (once : w.OnceIff) (step : Writer.Step ι) : (w.step step).OnceIff := by
  intro s member
  rcases w.step_published step s member with before | ⟨order, batch, rfl⟩
  · exact once s before
  · have present : w.table ∈ w.published := List.mem_of_mem_head? (by rw [sound.latest]; rfl)
    obtain ⟨_, keyed, _⟩ := sound.exact _ present
    have after : Keyed (batch.foldl applyEvent w.table.peers) := foldl_applyEvent_keyed keyed batch
    exact rebuildIndexes_once order (s := { w.table with peers := batch.foldl applyEvent w.table.peers }) after

theorem Writer.OnceIff.run (sound : w.Sound) (once : w.OnceIff) (steps : List (Writer.Step ι)) : (w.run steps).OnceIff := by
  induction steps generalizing w with
  | nil => exact once
  | cons step rest ih => exact ih (sound.step step) (once.step sound step)

theorem Writer.OnceIff.start : ({} : Writer ι).OnceIff := by
  intro s member
  obtain rfl := List.mem_singleton.mp member
  have none : ∀ k, Index.at (∅ : Index ι) k = [] := fun _ => rfl
  constructor
  · exact fun _ pid p found => by cases found
  · refine fun _ => ⟨fun k => ?_, fun k => ?_, fun k => ?_⟩ <;> exact List.nodup_nil

theorem Writer.run_sent (w : Writer ι) (steps : List (Writer.Step ι)) :
    ∀ e ∈ (w.run steps).sent, e ∈ w.sent ∨ .send e ∈ steps := by
  induction steps generalizing w with
  | nil => exact fun e member => Or.inl member
  | cons step rest ih =>
    intro e member
    rcases ih (w.step step) e member with before | later
    · by_cases own : ∃ sent, step = .send sent
      · obtain ⟨sent, rfl⟩ := own
        rcases w.send_sent sent e before with old | rfl
        · exact Or.inl old
        · exact Or.inr List.mem_cons_self
      · rw [w.step_sent step (fun sent same => own ⟨sent, same⟩)] at before
        exact Or.inl before
    · exact Or.inr (List.mem_cons_of_mem _ later)

end Runs

/-- In a published snapshot no list has a peer twice exactly if the events shown left no listed peer with two services
of one name or a repeated group or role; and none does if no event ever brings such repetitions. -/
theorem published_once_iff (steps : List (Writer.Step ι)) :
    (∀ s ∈ (({} : Writer ι).run steps).published, ∃ done, done <+: (({} : Writer ι).run steps).sent ∧
      s.peers = done.foldl applyEvent ∅ ∧ (s.Once ↔ AllDistinct s.peers)) ∧
    ((∀ e, .send e ∈ steps → e.Distinct) → ∀ s ∈ (({} : Writer ι).run steps).published, s.Once) := by
  have sound : (({} : Writer ι).run steps).Sound := Writer.Sound.start.run steps
  have once : (({} : Writer ι).run steps).OnceIff := Writer.OnceIff.start.run Writer.Sound.start steps
  refine ⟨fun s member => ?_, fun brings s member => ?_⟩
  · obtain ⟨_, _, done, shown, peers⟩ := sound.exact s member
    exact ⟨done, shown, peers, once s member⟩
  · obtain ⟨_, _, done, shown, peers⟩ := sound.exact s member
    have sent : ∀ e ∈ done, e.Distinct := by
      intro e among
      rcases Writer.run_sent {} steps e (shown.subset among) with none | sent
      · exact absurd none List.not_mem_nil
      · exact brings e sent
    have every : EveryDistinct (done.foldl applyEvent (∅ : Peers ι)) :=
      EveryDistinct.foldl Store.All.empty sent
    refine (once s member).mpr (fun pid p found _ => ?_)
    rw [peers] at found
    exact every pid p found

namespace Twice

/-- Two instances of one model, on two ports. -/
def offer : PeerData Unit :=
  { services := [{ name := "llm", port := "8080" }, { name := "llm", port := "8081" }], identityGroups := ["model=tiny"] }

def steps : List (Writer.Step Unit) :=
  [.send { type := .swimJoin, peerID := "worker", timestamp := 1 },
   .send { type := .crdtUpdate, peerID := "worker", timestamp := 2, peerData := some offer },
   .receive (fun _ => 0), .receive (fun _ => 0), .tick (fun _ => 0)]

end Twice

open Twice in
/-- A peer with two services of one name is listed twice under the name. -/
theorem published_twice : ¬ ∀ (steps : List (Writer.Step Unit)), ∀ s ∈ (({} : Writer Unit).run steps).published, s.Once := by
  intro all
  have listed : ((({} : Writer Unit).run steps).table.byService.at "llm").map SnapshotPeer.peerID = ["worker", "worker"] := by
    decide +kernel
  have present : (({} : Writer Unit).run steps).table ∈ (({} : Writer Unit).run steps).published := List.mem_cons_self
  have once := (all steps _ present).1 "llm"
  rw [listed] at once
  exact absurd once (by decide)

end OpenTela.Snapshot
