import OpenTela.Dag.Agreement
import OpenTela.Dag.Awaited
import Mathlib.Data.Finset.Lattice.Basic

namespace OpenTela

open Prog

/-- Replicas that broadcast to one another. What has been sent may arrive at any of them, in any order,
any number of times or never. `listed` has the heads that the last rebroadcast of a replica covered. -/
structure Cluster (ι : Type) where
  crew : ι → Crew := fun _ => Crew.fresh
  seenHeads : ι → Finset Cid := fun _ => ∅
  delivered : ι → Finset Cid := fun _ => ∅
  listed : ι → Finset Cid := fun _ => ∅
  sent : List (List Cid) := []

/-- What a step of a thread sends out. -/
def announced : (o : DagOp) → o.Res → List (List Cid)
  | .broadcast c => fun (ok : Bool) => if ok then [[c]] else []
  | _ => fun _ => []

section Moves

variable {ι : Type} [DecidableEq ι] (nets : ι → Net) (cl : Cluster ι) (i : ι)

def Cluster.enter (task : Task) : Cluster ι :=
  { cl with crew := Function.update cl.crew i ⟨(cl.crew i).state, (cl.crew i).threads ++ [(nets i).system.start task]⟩ }

def Cluster.act (c : Crew) (news : List (List Cid)) : Cluster ι :=
  { cl with crew := Function.update cl.crew i c, sent := cl.sent ++ news }

/-- A broadcast arrives. -/
def Cluster.deliver (heads : List Cid) : Cluster ι :=
  { cl.enter nets i (.receive heads) with delivered := Function.update cl.delivered i (cl.delivered i ∪ heads.toFinset) }

/-- `handleNext` notes a head that it has come to. -/
def Cluster.see (h : Cid) : Cluster ι :=
  { cl with seenHeads := Function.update cl.seenHeads i (insert h (cl.seenHeads i)) }

/-- The heads that are not banned. -/
def Cluster.unbanned : List Cid :=
  ((nets i).headOrder (cl.crew i).state.heads.keys).filter (fun h => h ∉ (cl.crew i).state.banned)

/-- The broadcast of some heads, after which none counts as seen. With nothing to send nothing is sent. -/
def Cluster.rebroadcast (heads : List Cid) (ok : Bool) : Cluster ι :=
  { cl with
    seenHeads := Function.update cl.seenHeads i ∅
    listed := if ok then Function.update cl.listed i (cl.unbanned nets i).toFinset else cl.listed
    sent := if ok ∧ heads ≠ [] then cl.sent ++ [heads] else cl.sent }

/-- `rebroadcastHeads`: the heads that have not been seen in a broadcast since the last time. -/
def Cluster.rebroadcastHeads (ok : Bool) : Cluster ι :=
  cl.rebroadcast nets i ((cl.unbanned nets i).filter (fun h => h ∉ cl.seenHeads i)) ok

/-- `RebroadcastHeads`: all heads. -/
def Cluster.rebroadcastAll (ok : Bool) : Cluster ι :=
  if (cl.crew i).state.heads.keys = [] then cl
  else cl.rebroadcast nets i ((nets i).headOrder (cl.crew i).state.heads.keys) ok

end Moves

/-- A step that takes care of merged blocks, and keeps track of links and of received heads. -/
structure Careful (net : Net) (received : Finset Cid) (c : Crew) (i : ℕ) (task : Task) (o : DagOp) (r : o.Res) : Prop where
  takes : TakesCare net c i task o r
  keeps : KeepsTrack net c i task o r
  heeds : Heeds net received c i task o r

section Runs

variable {ι : Type} [DecidableEq ι] (nets : ι → Net)

inductive Cluster.Step : Cluster ι → Cluster ι → Prop
  | enter {cl : Cluster ι} (i : ι) (task : Task) : task.outside = true → (∀ heads, task ≠ .receive heads) →
      Step cl (cl.enter nets i task)
  | act {cl : Cluster ι} (i : ι) (k : ℕ) (choice : Choice) {task : Task} {o : DagOp} {next : o.Res → DagM Unit} {r : o.Res}
      {s : Replica} : (cl.crew i).threads[k]? = some ⟨task, .op o next⟩ →
      (nets i).exec k choice o (cl.crew i).state = some (r, s) → Careful (nets i) (cl.delivered i) (cl.crew i) k task o r →
      Step cl (cl.act i (stepped (nets i) (cl.crew i) k s task o (next r)) (announced o r))
  | deliver {cl : Cluster ι} (i : ι) (heads : List Cid) : heads ∈ cl.sent → Step cl (cl.deliver nets i heads)
  | see {cl : Cluster ι} (i : ι) (h : Cid) : h ∈ cl.delivered i → Step cl (cl.see i h)
  | rebroadcastHeads {cl : Cluster ι} (i : ι) (ok : Bool) : Step cl (cl.rebroadcastHeads nets i ok)
  | rebroadcastAll {cl : Cluster ι} (i : ι) (ok : Bool) : Step cl (cl.rebroadcastAll nets i ok)

/-- The clusters a run leads to from new replicas. -/
inductive Cluster.Reach : Cluster ι → Prop
  | start : Reach {}
  | next {cl cl' : Cluster ι} : Reach cl → Step nets cl cl' → Reach cl'

/-- A replica with nothing under way and nothing left to repair, where no block that has been given up is missing. -/
structure Cluster.Rests (cl : Cluster ι) (i : ι) : Prop where
  ended : ∀ t ∈ (cl.crew i).threads, t.prog.Ended
  clean : (cl.crew i).state.dirty = false
  kept : (cl.crew i).state.banned ⊆ (cl.crew i).state.processed

/-- What every run keeps. -/
structure Cluster.Kept (cl : Cluster ι) : Prop where
  reach : ∀ i, Crew.Reach (nets i).system (fun c k task o r => TakesCare (nets i) c k task o r ∧ KeepsTrack (nets i) c k task o r)
    Crew.fresh (cl.crew i)
  awaited : ∀ i, ∀ h ∈ cl.delivered i, (nets i).Awaited (cl.crew i).threads (cl.crew i).state h
  delivered : ∀ i, ∀ h ∈ cl.delivered i, ∃ heads ∈ cl.sent, h ∈ heads
  seen : ∀ i, cl.seenHeads i ⊆ cl.delivered i
  listed : ∀ i, ∀ h ∈ cl.listed i, ∃ heads ∈ cl.sent, h ∈ heads

end Runs

section Kept

variable {ι : Type} {nets : ι → Net} {cl : Cluster ι}

theorem Cluster.Kept.upheld (kept : cl.Kept nets) (i : ι) : Upheld (nets i) (cl.crew i) :=
  upheld_of_reach ((kept.reach i).mono (fun _ _ _ _ _ both => both.2))

theorem Cluster.Kept.start : ({} : Cluster ι).Kept nets where
  reach := fun _ => .start
  awaited := fun _ _ none => absurd none (Finset.notMem_empty _)
  delivered := fun _ _ none => absurd none (Finset.notMem_empty _)
  seen := fun _ => Finset.empty_subset _
  listed := fun _ _ none => absurd none (Finset.notMem_empty _)

/-- Where everything has arrived, a replica at rest has merged whatever has been sent. -/
theorem Cluster.Kept.merged (kept : cl.Kept nets) {i : ι} (rests : cl.Rests i)
    (arrived : ∀ heads ∈ cl.sent, ∀ h ∈ heads, h ∈ cl.delivered i) {h : Cid} (sent : ∃ heads ∈ cl.sent, h ∈ heads) :
    h ∈ (cl.crew i).state.processed := by
  obtain ⟨heads, member, inside⟩ := sent
  rcases (kept.awaited i h (arrived heads member h inside)).settled rests.ended rests.clean with done | ban
  · exact done
  · exact rests.kept ban

/-- Then it is at rest in the narrower sense. -/
theorem Cluster.Kept.atRest (kept : cl.Kept nets) {i : ι} (rests : cl.Rests i)
    (merged : ∀ h ∈ (cl.crew i).state.heads, h ∈ (cl.crew i).state.processed) : AtRest (nets i) (cl.crew i) where
  reach := kept.reach i
  idle := fun t member _ => rests.ended t member
  clean := rests.clean
  merged := merged
  kept := fun _ _ _ _ ban => rests.kept ban

end Kept

section Steps

variable {ι : Type} [DecidableEq ι] {nets : ι → Net} {cl : Cluster ι}

theorem Cluster.Kept.enter (kept : cl.Kept nets) (i : ι) {task : Task} (outside : task.outside = true) :
    (cl.enter nets i task).Kept nets := by
  refine { kept with reach := fun j => ?_, awaited := fun j h member => ?_ }
  · by_cases same : j = i
    · subst same
      simp only [Cluster.enter, Function.update_self]
      exact .next (kept.reach j) (.enter task outside)
    · simp only [Cluster.enter, Function.update_of_ne same]
      exact kept.reach j
  · by_cases same : j = i
    · subst same
      simp only [Cluster.enter, Function.update_self]
      exact (kept.awaited j h member).mono (fun t old => List.mem_append_left _ old) subset_rfl subset_rfl
        (fun dirty => dirty) (fun queued => queued)
    · simp only [Cluster.enter, Function.update_of_ne same]
      exact kept.awaited j h member

theorem Cluster.Kept.deliver (kept : cl.Kept nets) (i : ι) {heads : List Cid} (sent : heads ∈ cl.sent) :
    (cl.deliver nets i heads).Kept nets := by
  have entered : (cl.enter nets i (.receive heads)).Kept nets := kept.enter i rfl
  refine { entered with awaited := fun j h member => ?_, delivered := fun j h member => ?_, seen := fun j => ?_ }
  · by_cases same : j = i
    · subst same
      simp only [Cluster.deliver, Function.update_self, Finset.mem_union, List.mem_toFinset] at member
      rcases member with old | new
      · exact entered.awaited j h old
      · refine Or.inr ⟨(nets j).system.start (.receive heads), ?_, handleNext_heading new⟩
        simp only [Cluster.deliver, Cluster.enter, Function.update_self]
        exact List.mem_append_right _ (List.mem_singleton.mpr rfl)
    · simp only [Cluster.deliver, Function.update_of_ne same] at member
      exact entered.awaited j h member
  · by_cases same : j = i
    · subst same
      simp only [Cluster.deliver, Function.update_self, Finset.mem_union, List.mem_toFinset] at member
      rcases member with old | new
      · exact kept.delivered j h old
      · exact ⟨heads, sent, new⟩
    · simp only [Cluster.deliver, Function.update_of_ne same] at member
      exact kept.delivered j h member
  · by_cases same : j = i
    · subst same
      simp only [Cluster.deliver, Function.update_self]
      exact (kept.seen j).trans Finset.subset_union_left
    · simp only [Cluster.deliver, Function.update_of_ne same]
      exact kept.seen j

theorem Cluster.Kept.act (kept : cl.Kept nets) (i : ι) {k : ℕ} {choice : Choice} {task : Task} {o : DagOp}
    {next : o.Res → DagM Unit} {r : o.Res} {s : Replica} (present : (cl.crew i).threads[k]? = some ⟨task, .op o next⟩)
    (executed : (nets i).exec k choice o (cl.crew i).state = some (r, s))
    (careful : Careful (nets i) (cl.delivered i) (cl.crew i) k task o r) :
    (cl.act i (stepped (nets i) (cl.crew i) k s task o (next r)) (announced o r)).Kept nets where
  reach := by
    intro j
    by_cases same : j = i
    · subst same
      simp only [Cluster.act, Function.update_self]
      exact .next (kept.reach j) (.act k choice present executed ⟨careful.takes, careful.keeps⟩)
    · simp only [Cluster.act, Function.update_of_ne same]
      exact kept.reach j
  awaited := by
    intro j h member
    by_cases same : j = i
    · subst same
      simp only [Cluster.act, Function.update_self]
      exact (kept.awaited j h member).step (kept.upheld j) present executed careful.heeds member
    · simp only [Cluster.act, Function.update_of_ne same]
      exact kept.awaited j h member
  delivered := fun j h member =>
    let ⟨heads, sent, inside⟩ := kept.delivered j h member
    ⟨heads, List.mem_append_left _ sent, inside⟩
  seen := kept.seen
  listed := fun j h member =>
    let ⟨heads, sent, inside⟩ := kept.listed j h member
    ⟨heads, List.mem_append_left _ sent, inside⟩

theorem Cluster.Kept.see (kept : cl.Kept nets) (i : ι) {h : Cid} (arrived : h ∈ cl.delivered i) : (cl.see i h).Kept nets := by
  refine { kept with seen := fun j => ?_ }
  by_cases same : j = i
  · subst same
    simp only [Cluster.see, Function.update_self]
    exact Finset.insert_subset arrived (kept.seen j)
  · simp only [Cluster.see, Function.update_of_ne same]
    exact kept.seen j

/-- Every head that a rebroadcast covers has been sent, by whomever. -/
theorem Cluster.Kept.rebroadcast (kept : cl.Kept nets) (i : ι) {heads : List Cid} {ok : Bool}
    (covers : ∀ h ∈ cl.unbanned nets i, h ∈ heads ∨ h ∈ cl.seenHeads i) : (cl.rebroadcast nets i heads ok).Kept nets := by
  have more : ∀ h, (∃ heads ∈ cl.sent, h ∈ heads) → ∃ heads' ∈ (cl.rebroadcast nets i heads ok).sent, h ∈ heads' := by
    rintro h ⟨before, sent, inside⟩
    refine ⟨before, ?_, inside⟩
    simp only [Cluster.rebroadcast]
    split
    · exact List.mem_append_left _ sent
    · exact sent
  refine { kept with
    delivered := fun j h member => more h (kept.delivered j h member), seen := fun j => ?_, listed := fun j h member => ?_ }
  · by_cases same : j = i
    · subst same
      simp only [Cluster.rebroadcast, Function.update_self]
      exact Finset.empty_subset _
    · simp only [Cluster.rebroadcast, Function.update_of_ne same]
      exact kept.seen j
  · cases ok with
    | false => exact more h (kept.listed j h member)
    | true =>
      by_cases same : j = i
      · subst same
        simp only [Cluster.rebroadcast, if_true, Function.update_self, List.mem_toFinset] at member
        rcases covers h member with inside | seen
        · refine ⟨heads, ?_, inside⟩
          have some : heads ≠ [] := List.ne_nil_of_mem inside
          simp [Cluster.rebroadcast, some]
        · exact more h (kept.delivered j h (kept.seen j seen))
      · simp only [Cluster.rebroadcast, if_true, Function.update_of_ne same] at member
        exact more h (kept.listed j h member)

theorem Cluster.Kept.step {cl' : Cluster ι} (kept : cl.Kept nets) (step : Cluster.Step nets cl cl') : cl'.Kept nets := by
  cases step with
  | enter i task outside _ => exact kept.enter i outside
  | act i k choice present executed careful => exact kept.act i present executed careful
  | deliver i heads sent => exact kept.deliver i sent
  | see i h arrived => exact kept.see i arrived
  | rebroadcastHeads i ok =>
    refine kept.rebroadcast i (fun h member => ?_)
    by_cases seen : h ∈ cl.seenHeads i
    · exact Or.inr seen
    · exact Or.inl (List.mem_filter.mpr ⟨member, decide_eq_true seen⟩)
  | rebroadcastAll i ok =>
    simp only [Cluster.rebroadcastAll]
    split
    · exact kept
    · exact kept.rebroadcast i (fun h member => Or.inl (List.mem_filter.mp member).1)

theorem Cluster.Kept.of_reach (reach : Cluster.Reach nets cl) : cl.Kept nets := by
  induction reach with
  | start => exact .start
  | next _ step ih => exact ih.step step

end Steps

/-- A move as a schedule writes it down. -/
inductive Cluster.Move (ι : Type) where
  | enter (i : ι) (task : Task)
  | act (i : ι) (k : ℕ) (choice : Choice)
  | deliver (i : ι) (heads : List Cid)
  | rebroadcastHeads (i : ι)

section Plays

variable {ι : Type} [DecidableEq ι] (nets : ι → Net) (allowed : Crew → Task → DagOp → Bool)

def Cluster.advance (cl : Cluster ι) : Move ι → Option (Cluster ι)
  | .enter i task =>
    match task with
    | .receive _ => none
    | task => if task.outside then some (cl.enter nets i task) else none
  | .act i k choice =>
    match (cl.crew i).threads[k]? with
    | some ⟨task, .op o next⟩ =>
      if allowed (cl.crew i) task o then
        ((nets i).exec k choice o (cl.crew i).state).map (fun out =>
          cl.act i (stepped (nets i) (cl.crew i) k out.2 task o (next out.1)) (announced o out.1))
      else none
    | _ => none
  | .deliver i heads => if heads ∈ cl.sent then some (cl.deliver nets i heads) else none
  | .rebroadcastHeads i => some (cl.rebroadcastHeads nets i true)

/-- A schedule, played from the left. A move that is not possible is passed over. -/
def Cluster.play : List (Move ι) → Cluster ι → Cluster ι
  | [], cl => cl
  | move :: rest, cl => play rest ((cl.advance nets allowed move).getD cl)

variable {nets allowed}

theorem Cluster.Step.of_advance {cl cl' : Cluster ι} {move : Move ι}
    (careful : ∀ i received c k task o r, allowed c task o = true → Careful (nets i) received c k task o r)
    (moved : cl.advance nets allowed move = some cl') : Cluster.Step nets cl cl' := by
  cases move with
  | enter i task =>
    cases task with
    | receive heads => cases moved
    | put | delete | repairTimer | repairCall =>
      obtain rfl := Option.some.inj moved
      exact .enter i _ rfl (by simp)
    | head | job | sweep => cases moved
  | act i k choice =>
    simp only [advance] at moved
    split at moved
    · rename_i task o next present
      split at moved
      · rename_i fine
        obtain ⟨⟨r, s⟩, executed, rfl⟩ := Option.map_eq_some_iff.mp moved
        exact .act i k choice present executed (careful i _ _ k task o r fine)
      · cases moved
    · cases moved
  | deliver i heads =>
    simp only [advance] at moved
    split at moved
    · rename_i sent
      obtain rfl := Option.some.inj moved
      exact .deliver i heads sent
    · cases moved
  | rebroadcastHeads i =>
    obtain rfl := Option.some.inj moved
    exact .rebroadcastHeads i true

theorem Cluster.Reach.of_play (careful : ∀ i received c k task o r, allowed c task o = true → Careful (nets i) received c k task o r)
    (moves : List (Move ι)) {cl : Cluster ι} (reach : Cluster.Reach nets cl) : Cluster.Reach nets (cl.play nets allowed moves) := by
  induction moves generalizing cl with
  | nil => exact reach
  | cons move rest ih =>
    apply ih
    cases moved : cl.advance nets allowed move with
    | none => exact reach
    | some cl' => exact .next reach (.of_advance careful moved)

end Plays

namespace Pair

/-- The block that a put makes. -/
def block : Cid → Block
  | "p" => ⟨newDelta (add ["k"] [5]) [] 0, []⟩
  | _ => ⟨.of [] [] 0, []⟩

def net : Net := .plain block

theorem links (c : Cid) : net.links c = [] := by
  simp only [net, Net.plain, Net.links, block]
  split <;> rfl

theorem tombstones (c : Cid) : (net.block c).delta.tombstones = [] := by
  simp only [net, Net.plain, block]
  split <;> rfl

theorem produced (c : Cid) : (net.block c).delta.Produced := by
  simp only [net, Net.plain, block]
  split <;> decide

/-- Steps that lose sight of nothing. -/
def careful (c : Crew) (task : Task) : DagOp → Bool
  | .branch head c => head == c
  | .visit _ => !task.writes
  | .broadcast root => decide (root ∈ c.state.heads.keys)
  | .markDirty | .markClean | .recordFailure _ => false
  | _ => true

theorem careful_meets (received : Finset Cid) (c : Crew) (k : ℕ) (task : Task) (o : DagOp) (r : o.Res)
    (allowed : careful c task o = true) : Careful net received c k task o r where
  takes.own := by
    cases o with
    | branch head c => exact beq_iff_eq.mp allowed
    | _ => trivial
  takes.covered := by
    intro root quits
    cases o with
    | markDirty => cases allowed
    | broadcast c =>
      have head : c ∈ _ := AList.mem_keys.mpr (of_decide_eq_true allowed)
      obtain ⟨height, found⟩ := Option.isSome_iff_exists.mp (AList.lookup_isSome.mpr head)
      have same : c = root := by cases task <;> first | exact quits | exact quits.elim
      exact Or.inl ⟨c, height, found, same ▸ .refl net c⟩
    | _ => cases task <;> exact quits.elim
  takes.apart := by
    rintro a _ j b _ _ x key ⟨_, e, none, _⟩
    rw [tombstones] at none
    cases none
  keeps := by
    cases o with
    | markClean | recordFailure => cases allowed
    | visit l =>
      intro writes
      simp [careful, writes] at allowed
    | _ => trivial
  heeds := by
    cases o with
    | markClean | recordFailure => cases allowed
    | visit l =>
      intro _ writes
      simp [careful, writes] at allowed
    | _ => trivial

def acts (i : Bool) (k n : ℕ) (arrived : List Cid) : List (Cluster.Move Bool) := List.replicate n (.act i k { arrived, cid := "p" })

/-- One replica writes, the other one fetches the block, and both rebroadcast. -/
def moves : List (Cluster.Move Bool) :=
  .enter true (.put ["k"] [5]) :: (acts true 0 30 [] ++
    [.deliver true ["p"]] ++ acts true 1 4 [] ++ acts true 2 4 [] ++
    [.deliver false ["p"]] ++ acts false 0 6 [] ++ acts false 1 9 ["p"] ++ acts false 2 30 [] ++ acts false 1 3 [] ++
    [.rebroadcastHeads true, .rebroadcastHeads false])

def cluster : Cluster Bool := ({} : Cluster Bool).play (fun _ => net) careful moves

end Pair

set_option maxRecDepth 20000 in
theorem Pair.rests (i : Bool) : Pair.cluster.Rests i where
  ended := by revert i; decide
  clean := by revert i; decide
  kept := by revert i; decide

set_option maxRecDepth 20000 in
theorem Pair.heads : ∀ i, (Pair.cluster.crew i).state.heads.keys = ["p"] := by decide

end OpenTela
