import OpenTela.Crdt.Elements
import OpenTela.Dag.Absorbed

namespace OpenTela

open Prog

/-- A replica that has come to rest: nothing is under way or left to repair, each head has been
merged, and no link of a merged block has been given up. -/
structure AtRest (net : Net) (c : Crew) : Prop where
  reach : Crew.Reach net.system (fun c i task o r => TakesCare net c i task o r ∧ KeepsTrack net c i task o r) Crew.fresh c
  idle : NoJobs c
  clean : c.state.dirty = false
  merged : ∀ h ∈ c.state.heads, h ∈ c.state.processed
  kept : ∀ p ∈ c.state.processed, ∀ l ∈ net.links p, l ∈ c.state.banned → l ∈ c.state.processed

/-- What the heads go back to. -/
def Net.history (net : Net) (heads : Store Cid ℕ) : Set Cid := {b | ∃ h ∈ heads, net.Below b h}

/-- The ranks of the elements of a key in these blocks that none of the blocks removes. -/
def Net.liveRanks (net : Net) (blocks : Set Cid) (key : Key) : Set Rank :=
  {r | ∃ b ∈ blocks, (net.block b).delta.rank key = some r ∧ ∀ a ∈ blocks, b ∉ (net.block a).delta.tombIds key}

/-- `Get` returns the value of this rank for the key, and `Has` whether there is one. -/
def Net.Shows (net : Net) (w : Replica) (key : Key) (q : Option Rank) : Prop :=
  ∀ i, (element key).run (OpenTela.exec net.env i) w.set = some (.ok (q.map (fun r => (ofLex r).2)), w.set) ∧
    (inSet key).run (OpenTela.exec net.env i) w.set = some (.ok q.isSome, w.set)

/-- A delta ranks only the keys it has an element for. -/
theorem Delta.key_of_rank {d : Delta} {key : Key} {r : Rank} (rank : d.rank key = some r) : key ∈ d.keys := by
  by_contra absent
  have other : ∀ e ∈ d.elements, e.key ≠ key := by
    rintro e member rfl
    exact absent (List.mem_map_of_mem member)
  have nothing : greatestValueInDelta key d = none := greatest_fold_other other none
  rw [Delta.rank, nothing] at rank
  cases rank

section Rest

variable {net : Net} {c : Crew}

theorem AtRest.calm (rest : AtRest net c) (honest : net.Honest) (produced : ∀ c, (net.block c).delta.Produced) : Calm net c :=
  calm_of_reach honest produced (rest.reach.mono (fun _ _ _ _ _ both => both.1))

theorem AtRest.thorough (rest : AtRest net c) (honest : net.Honest) (produced : ∀ c, (net.block c).delta.Produced) :
    Thorough net c :=
  thorough_of_reach honest produced (rest.reach.mono (fun _ _ _ _ _ both => both.1))

/-- Whatever a merged block goes back to has been merged. -/
theorem AtRest.closed (rest : AtRest net c) {a b : Cid} (below : net.Below a b) (processed : b ∈ c.state.processed) :
    a ∈ c.state.processed := by
  have complete := repair_complete (rest.reach.mono (fun _ _ _ _ _ both => both.2)) rest.idle rest.clean
  induction below using Relation.ReflTransGen.head_induction_on with
  | refl => exact processed
  | @head l p link _ ih =>
    rcases complete p ih l link with done | banned
    · exact done
    · exact rest.kept p ih l link banned

variable (honest : net.Honest) (produced : ∀ c, (net.block c).delta.Produced)

include honest produced in
/-- No block is half-way through its merge. -/
theorem AtRest.processed_of_handled (rest : AtRest net c) {b : Cid} (handled : c.state.Handled b) : b ∈ c.state.processed := by
  rcases handled with done | ⟨j, noted⟩
  · exact done
  · obtain ⟨t, present, walks, inMerge⟩ := (rest.calm honest produced).merging j b noted
    exact absurd (rest.idle t (List.mem_of_getElem? present) walks) inMerge.not_ended

include honest produced in
/-- The merged blocks are the history of the heads. -/
theorem AtRest.processed_iff (rest : AtRest net c) (b : Cid) :
    b ∈ c.state.processed ↔ b ∈ net.history c.state.heads := by
  constructor
  · intro processed
    obtain ⟨h, height, found, below⟩ := ((rest.calm honest produced).idle rest.idle).2 b (Or.inl processed)
    exact ⟨h, AList.lookup_isSome.mp (by rw [found]; rfl), below⟩
  · rintro ⟨h, head, below⟩
    exact rest.closed below (rest.merged h head)

include honest produced in
theorem AtRest.elems_iff (rest : AtRest net c) (key : Key) (x : Cid) :
    x ∈ elemsOf c.state.set.store key ↔ x ∈ c.state.processed ∧ key ∈ (net.block x).delta.keys := by
  have kempt := (rest.calm honest produced).kempt
  constructor
  · intro element
    obtain ⟨r, rank⟩ := kempt.sane.known key x element
    rw [Env.rank, net.serves, Option.bind_some] at rank
    exact ⟨rest.processed_of_handled honest produced (kempt.elems key x element), Delta.key_of_rank rank⟩
  · rintro ⟨processed, own⟩
    exact ((rest.thorough honest produced).absorbed x processed).elems key own

include honest produced in
theorem AtRest.tombs_iff (rest : AtRest net c) (key : Key) (x : Cid) :
    x ∈ tombsOf c.state.set.store key ↔ ∃ a ∈ c.state.processed, x ∈ (net.block a).delta.tombIds key := by
  constructor
  · intro buried
    obtain ⟨a, handled, names⟩ := (rest.calm honest produced).kempt.tombs key x buried
    exact ⟨a, rest.processed_of_handled honest produced handled, names⟩
  · rintro ⟨a, processed, names⟩
    exact ((rest.thorough honest produced).absorbed a processed).tombs key names

include honest produced in
/-- The live elements of a key are those that its merged blocks leave. -/
theorem AtRest.ranks_eq (rest : AtRest net c) (key : Key) :
    net.env.ranks key (survivors c.state.set.store key ∅) = net.liveRanks (net.history c.state.heads) key := by
  ext r
  have rankOf : ∀ x, net.env.rank key x = (net.block x).delta.rank key := fun x => by
    rw [Env.rank, net.serves, Option.bind_some]
  constructor
  · rintro ⟨x, ⟨element, alive, _⟩, rank⟩
    rw [rankOf] at rank
    have processed := ((rest.elems_iff honest produced key x).mp element).1
    refine ⟨x, (rest.processed_iff honest produced x).mp processed, rank, fun a before names => alive ?_⟩
    exact (rest.tombs_iff honest produced key x).mpr ⟨a, (rest.processed_iff honest produced a).mpr before, names⟩
  · rintro ⟨x, before, rank, unnamed⟩
    have processed := (rest.processed_iff honest produced x).mpr before
    refine ⟨x, ⟨?_, fun buried => ?_, id⟩, (rankOf x).trans rank⟩
    · exact (rest.elems_iff honest produced key x).mpr ⟨processed, Delta.key_of_rank rank⟩
    · obtain ⟨a, done, names⟩ := (rest.tombs_iff honest produced key x).mp buried
      exact unnamed a ((rest.processed_iff honest produced a).mp done) names

include honest produced in
/-- What a replica at rest answers is decided by its heads: the best of what their history leaves. -/
theorem AtRest.shows (rest : AtRest net c) {key : Key} {q : Option Rank}
    (winner : Winner (net.liveRanks (net.history c.state.heads) key) q) : net.Shows c.state key q := by
  intro i
  obtain ⟨q', stores, best⟩ := (rest.calm honest produced).kempt.settled key
  rw [rest.ranks_eq honest produced] at best
  obtain rfl := winner.unique best
  have value := stores.lookup_value
  have found : c.state.set.store.has (valueKey key) = q.isSome := by rw [Store.has, value, Option.isSome_map]
  exact ⟨congrArg (fun found => some (Except.ok found, c.state.set)) value,
    congrArg (fun found => some (Except.ok found, c.state.set)) found⟩

include honest produced in
/-- What a replica at rest lists: every key in scope that the history of its heads leaves a value for. -/
theorem AtRest.lists (rest : AtRest net c) (i : ℕ) (keysOnly : Bool) (pre : Key) :
    ∃ r, (queryElements keysOnly pre).run (OpenTela.exec net.env i) c.state.set = some (.ok r, c.state.set) ∧
      (r.map Prod.fst).Nodup ∧ ∀ key value, (key, value) ∈ r ↔ inScope pre key = true ∧
        ∃ q, Winner (net.liveRanks (net.history c.state.heads) key) (some q) ∧ value = if keysOnly then [] else (ofLex q).2 := by
  obtain ⟨r, ran, nodup, members⟩ := queryElements_run net.env i c.state.set keysOnly pre
  refine ⟨r, ran, nodup, fun key value => (members key value).trans (and_congr_right (fun _ => ?_))⟩
  obtain ⟨q, stores, winner⟩ := (rest.calm honest produced).kempt.settled key
  rw [rest.ranks_eq honest produced] at winner
  rw [stores.lookup_value]
  constructor
  · rintro ⟨v, stored, rfl⟩
    obtain ⟨best, rfl, rfl⟩ := Option.map_eq_some_iff.mp stored
    exact ⟨best, winner, rfl⟩
  · rintro ⟨best, winner', rfl⟩
    obtain rfl := winner.unique winner'
    exact ⟨(ofLex best).2, rfl, rfl⟩

end Rest

section Same

variable {net₁ net₂ : Net} (same : net₁.block = net₂.block)

include same in
theorem Net.links_congr : net₁.links = net₂.links := funext (fun c => by rw [Net.links, Net.links, same])

include same in
theorem Net.Honest.congr (honest : net₁.Honest) : net₂.Honest := by
  refine ⟨fun c l member => ?_⟩
  have higher := honest.higher c l (by rw [Net.links_congr same]; exact member)
  simpa only [Net.priority, same] using higher

include same in
/-- The same heads have the same history, and it leaves the same elements. -/
theorem Net.history_congr {heads₁ heads₂ : Store Cid ℕ} (heads : ∀ h, h ∈ heads₁ ↔ h ∈ heads₂) :
    net₁.history heads₁ = net₂.history heads₂ ∧
      ∀ key, net₁.liveRanks (net₁.history heads₁) key = net₂.liveRanks (net₂.history heads₂) key := by
  have history : net₁.history heads₁ = net₂.history heads₂ := by
    simp only [Net.history, Net.Below, Net.links_congr same, heads]
  refine ⟨history, fun key => ?_⟩
  rw [history]
  simp only [Net.liveRanks, same]

end Same

namespace Twins

open Stranded

/-- One replica receives `r` and fetches `m` below it. -/
def together : List Chain.Move :=
  .enter (.receive ["r"]) :: (Chain.moves 0 6 [] ++ Chain.moves 1 9 ["r"] ++ Chain.moves 2 30 ["m"] ++ Chain.moves 3 30 [] ++
    Chain.moves 1 3 [])

/-- The other one receives `m`, and `r` later. -/
def apart : List Chain.Move :=
  .enter (.receive ["m"]) :: (Chain.moves 0 6 [] ++ Chain.moves 1 9 ["m"] ++ Chain.moves 2 30 [] ++ Chain.moves 1 3 [] ++
    .enter (.receive ["r"]) :: (Chain.moves 3 6 [] ++ Chain.moves 4 9 ["r"] ++ Chain.moves 5 30 [] ++ Chain.moves 4 3 []))

/-- Steps that give up no root and lose sight of no link. -/
def careful (task : Task) (o : DagOp) : Bool :=
  Stranded.careful task o && match o with
    | .markClean | .recordFailure _ => false
    | .visit _ => !task.writes
    | _ => true

theorem careful_meets (c : Crew) (i : ℕ) (task : Task) (o : DagOp) (r : o.Res) (allowed : careful task o = true) :
    TakesCare net c i task o r ∧ KeepsTrack net c i task o r := by
  obtain ⟨takes, keeps⟩ := (Bool.and_eq_true _ _).mp allowed
  refine ⟨careful_takes c i task o r takes, ?_⟩
  cases o with
  | markClean | recordFailure => cases keeps
  | visit l =>
    intro writes
    simp [writes] at keeps
  | _ => trivial

end Twins

set_option maxRecDepth 8000 in
theorem Twins.heads : ∀ moves ∈ [Twins.together, Twins.apart],
    (Crew.fresh.play Stranded.net.system Twins.careful moves).state.heads.keys = ["r"] := by
  decide

set_option maxRecDepth 8000 in
theorem Twins.rest : ∀ moves ∈ [Twins.together, Twins.apart],
    AtRest Stranded.net (Crew.fresh.play Stranded.net.system Twins.careful moves) := by
  intro moves member
  refine ⟨.of_play Twins.careful Twins.careful_meets moves .start, ?_, ?_, fun h head => ?_, ?_⟩
  · revert moves
    decide
  · revert moves
    decide
  · rw [AList.mem_keys, Twins.heads moves member] at head
    obtain rfl := List.mem_singleton.mp head
    revert moves
    decide
  · revert moves
    decide

theorem Twins.same (h : Cid) : h ∈ (Crew.fresh.play Stranded.net.system Twins.careful Twins.together).state.heads ↔
    h ∈ (Crew.fresh.play Stranded.net.system Twins.careful Twins.apart).state.heads := by
  rw [AList.mem_keys, AList.mem_keys, Twins.heads _ (by simp), Twins.heads _ (by simp)]

end OpenTela
