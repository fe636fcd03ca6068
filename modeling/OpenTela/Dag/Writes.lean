import OpenTela.Crdt.Removal
import OpenTela.Dag.Calm
import OpenTela.Dag.Repair

namespace OpenTela

open Prog

/-- The block names the other one, as a link or in a tombstone. -/
def Net.Names (net : Net) (a b : Cid) : Prop := a ∈ net.links b ∨ ∃ key, a ∈ (net.block b).delta.tombIds key

/-- Deltas are as writes produce them, and no block's cid is among what its own content goes
back to: cids are hashes. -/
structure Net.Genuine (net : Net) : Prop where
  produced : ∀ c, (net.block c).delta.Produced
  acyclic : ∀ c, ¬ Relation.TransGen net.Names c c

/-- A write on its own takes effect: the priority of its block is above what is stored for
any key, a value put is the one read next, and a key deleted is gone. -/
structure TakesEffect (net : Net) (w : Replica) : Prop where
  above : ∀ key, curPriority w.set.store key < maxHeight w.heads + 1
  put : ∀ i key value choices w', (put net key value).runWith (net.exec i) choices w = some (.ok (), w') →
    (element key).run (exec net.env i) w'.set = some (.ok (some value), w'.set)
  delete : ∀ i key choices w', (delete net key).runWith (net.exec i) choices w = some (.ok (), w') →
    (inSet key).run (exec net.env i) w'.set = some (.ok false, w'.set)

section Alone

variable {net : Net} {i : ℕ} {choices : List Choice} {w w' : Replica}

/-- A program of the set, inside another, runs as it does by itself. -/
theorem set_run {α β : Type} {K : DagM α → DagM β} (context : Context K) {m : SetM α} {a : α} {u : World ℕ}
    {out : Except String β × Replica} (ran : m.run (exec net.env i) w.set = some (.ok a, u))
    (whole : (K (DagM.set m)).runWith (net.exec i) choices w = some out) :
    ∃ rest, (K (.ret a)).runWith (net.exec i) rest { w with set := u } = some out := by
  induction m generalizing w choices with
  | ret b =>
    obtain ⟨same, rfl⟩ := Prod.mk.inj (Option.some.inj ran)
    cases same
    exact ⟨choices, whole⟩
  | fail e => cases ran
  | op o next ih =>
    rw [show DagM.set (.op o next) = .op (.set o) (fun r => DagM.set (next r)) from rfl, context] at whole
    obtain ⟨choice, rest, r, t, executed, later⟩ := runWith_op whole
    obtain ⟨v, inner, rfl⟩ := Net.exec_set executed
    simp only [Prog.run, inner, Option.bind_some] at ran
    exact ih r (w := { w with set := v }) ran later

/-- A program that keeps out of merges leaves the set alone. -/
theorem aloof_run {α : Type} {p : DagM α} {out : Except String α} (decodes : Decodes w.set.store)
    (aloof : Obeys net.can DagOp.Aloof (fun _ => True) p)
    (ran : p.runWith (net.exec i) choices w = some (out, w')) : w'.set = w.set := by
  induction p generalizing w choices with
  | ret a =>
    obtain ⟨_, rfl⟩ := Prod.mk.inj (Option.some.inj ran)
    rfl
  | fail e =>
    obtain ⟨_, rfl⟩ := Prod.mk.inj (Option.some.inj ran)
    rfl
  | op o next ih =>
    obtain ⟨choice, rest, r, t, executed, later⟩ := runWith_op ran
    obtain ⟨here, onward⟩ := aloof r (Net.exec_can decodes executed)
    have same := Net.exec_aloof executed (Or.inl here)
    exact (ih r (same ▸ decodes) onward later).trans same

theorem Sane.decodes {env : Env} {s : SetStore} (sane : Sane env s) : Decodes s := by
  intro key data found
  obtain ⟨q, stores⟩ := sane.cells key
  cases q with
  | none => rw [stores.2] at found; cases found
  | some r =>
    rw [stores.2.1] at found
    obtain rfl := Option.some.inj found
    exact ⟨_, uvarint_putUvarint (Nat.mod_lt _ (by decide))⟩

/-- A block processed on its own: its delta is merged, and nothing else is done to the set. -/
theorem processNode_set {K : DagM (List Cid) → DagM Unit} (context : Context K)
    (aloof : ∀ children, Obeys net.can DagOp.Aloof (fun _ => True) (K (.ret children))) {root b : Cid} {rootPrio : ℕ}
    {out : Except String Unit} (produced : (net.block b).delta.Produced) (sane : Sane net.env w.set.store)
    (free : w.set.mutex = none) (ran : (K (processNode net root rootPrio b)).runWith (net.exec i) choices w = some (out, w')) :
    (merge (net.block b).delta b).run (exec net.env i) w.set = some (.ok (), w'.set) := by
  obtain ⟨u, s, merged, _, buried, added, _⟩ := merge_run (i := i) (produced.orderly b) (net.serves b) sane free
  rw [processNode_eq, show (DagM.enterMerge b >>= fun _ => DagM.set (merge (net.block b).delta b) >>= fun _ =>
    DagM.markProcessed b >>= fun _ => processNode.links net root rootPrio b) = .op (.enterMerge b) (fun _ =>
      DagM.set (merge (net.block b).delta b) >>= fun _ => DagM.markProcessed b >>= fun _ =>
        processNode.links net root rootPrio b) from rfl, context] at ran
  obtain ⟨_, _, _, _, executed, ran⟩ := runWith_op ran
  obtain ⟨_, rfl⟩ := Prod.mk.inj (Option.some.inj executed)
  have marks : Context (fun q : DagM Unit => K (q >>= fun _ => DagM.markProcessed b >>= fun _ =>
      processNode.links net root rootPrio b)) := Context.comp context (Context.bind _)
  obtain ⟨_, ran⟩ := set_run (w := { w with merging := w.merging.insert i b }) marks merged ran
  have marking := context (.markProcessed b) (fun _ => processNode.links net root rootPrio b)
  rw [show ((.ret () : DagM Unit) >>= fun _ => DagM.markProcessed b >>= fun _ => processNode.links net root rootPrio b) =
    .op (.markProcessed b) (fun _ => processNode.links net root rootPrio b) from rfl, marking] at ran
  obtain ⟨_, _, _, _, executed, ran⟩ := runWith_op ran
  obtain ⟨_, rfl⟩ := Prod.mk.inj (Option.some.inj executed)
  have last := aloof_run (added.sane produced.ranked (net.serves b) (buried.sane sane)).decodes (links_aloof context aloof b) ran
  rw [last]
  exact merged

/-- What a write on its own does to the set: it merges a block made of its delta and the heads,
unless that block could not be written. -/
theorem publish_set {elements tombstones : List Element} {out : Except String Unit}
    (produced : ∀ c, (net.block c).delta.Produced) (sane : Sane net.env w.set.store) (free : w.set.mutex = none)
    (ran : (publish net elements tombstones).runWith (net.exec i) choices w = some (out, w')) :
    (out ≠ .ok () ∧ w'.set = w.set) ∨
    ∃ b, net.block b = ⟨newDelta elements tombstones (maxHeight w.heads), net.headOrder w.heads.keys⟩ ∧
      (merge (net.block b).delta b).run (exec net.env i) w.set = some (.ok (), w'.set) := by
  obtain ⟨_, _, _, _, executed, ran⟩ := runWith_op ran
  obtain ⟨rfl, rfl⟩ := Prod.mk.inj (Option.some.inj executed)
  obtain ⟨_, _, made, v, executed, ran⟩ := runWith_op ran
  have same := (Net.exec_alike executed trivial).set
  have named := Net.exec_can sane.decodes executed
  cases made with
  | none =>
    obtain ⟨failed, rfl⟩ := Prod.mk.inj (Option.some.inj ran)
    exact Or.inl ⟨by rw [← failed]; simp, same⟩
  | some b =>
    refine Or.inr ⟨b, named b rfl, ?_⟩
    rw [← same]
    exact processNode_set (Context.publish b) (fun _ => publish_send_obeys aloof_of_plain b) (produced b) (same ▸ sane)
      (same ▸ free) ran

/-- A write that has returned has merged its block. -/
theorem publish_run {elements tombstones : List Element} (produced : ∀ c, (net.block c).delta.Produced)
    (sane : Sane net.env w.set.store) (free : w.set.mutex = none)
    (ran : (publish net elements tombstones).runWith (net.exec i) choices w = some (.ok (), w')) :
    ∃ b s, net.block b = ⟨newDelta elements tombstones (maxHeight w.heads), net.headOrder w.heads.keys⟩ ∧
      TombsCommitted net.env (net.block b).delta w.set.store s ∧
      ElemsCommitted net.env (net.block b).delta b s w'.set.store := by
  rcases publish_set produced sane free ran with ⟨failed, _⟩ | ⟨b, named, merged⟩
  · exact absurd rfl failed
  · obtain ⟨u, s, run, _, buried, added, _⟩ := merge_run (i := i) ((produced b).orderly b) (net.serves b) sane free
    obtain ⟨_, rfl⟩ := Prod.mk.inj (Option.some.inj (run.symm.trans merged))
    exact ⟨b, s, named, buried, added⟩

end Alone

section Idle

variable {net : Net} {c : Crew}

theorem Net.InMerge.not_ended {j : ℕ} {b : Cid} {p : DagM Unit} {w : World ℕ} (inMerge : net.InMerge j b p w) : ¬ p.Ended := by
  obtain ⟨m, ⟨K, context, rfl, last, marks⟩, triple⟩ := inMerge
  cases m with
  | ret u =>
    rw [show DagM.set (.ret u) = .ret () from rfl, marks]
    exact id
  | fail e => exact triple.elim
  | op o next =>
    rw [show DagM.set (.op o next) = .op (.set o) (fun r => DagM.set (next r)) from rfl, context]
    exact id

/-- With no job left nobody holds the mutex, and every block that was merged is below a head. -/
theorem Calm.idle (calm : Calm net c) (idle : NoJobs c) :
    c.state.set.mutex = none ∧ ∀ b, c.state.Handled b → ∃ h height, c.state.heads.lookup h = some height ∧ net.Below b h := by
  refine ⟨?_, fun b handled => ?_⟩
  · cases held : c.state.set.mutex with
    | none => rfl
    | some j =>
      obtain ⟨b, noted⟩ := calm.held j held
      obtain ⟨t, present, walks, inMerge⟩ := calm.merging j b noted
      exact absurd (idle t (List.mem_of_getElem? present) walks) inMerge.not_ended
  · rcases calm.covered b handled with below | ⟨t, member, walks, _, _, crowning⟩
    · exact below
    · exact absurd (idle t member walks) crowning.not_ended

/-- What is stored for a key is no higher than the highest head. -/
theorem Calm.stored_le (honest : net.Honest) (calm : Calm net c) (idle : NoJobs c) {key : Key} {r : Rank}
    (stores : Stores c.state.set.store key (some r)) : (ofLex r).1 ≤ maxHeight c.state.heads := by
  obtain ⟨q, stores', winner⟩ := calm.kempt.settled key
  obtain rfl := stores.unique stores'
  obtain ⟨x, ⟨elem, _⟩, rank⟩ := winner.1
  obtain ⟨h, height, found, below⟩ := (calm.idle idle).2 x (calm.kempt.elems key x elem)
  rw [Env.rank, net.serves, Option.bind_some, Delta.rank] at rank
  obtain ⟨value, _, rfl⟩ := Option.map_eq_some_iff.mp rank
  calc net.priority x ≤ net.priority h := honest.priority_le below
    _ = height := (calm.level.truth h height found).symm
    _ ≤ maxHeight c.state.heads := le_maxHeight found

/-- A block on top of all heads, at the height after theirs, is above them all: an honest one
does not wrap around. -/
theorem Net.Honest.above_heads (honest : net.Honest) {heads : Store Cid ℕ} (truth : HeightsTrue net heads) {b : Cid}
    {elements tombstones : List Element}
    (named : net.block b = ⟨newDelta elements tombstones (maxHeight heads), net.headOrder heads.keys⟩) :
    maxHeight heads < net.priority b := by
  have priority : net.priority b = (maxHeight heads + 1) % word := by rw [Net.priority, named]; rfl
  have lower : maxHeight heads ≤ net.priority b - 1 := by
    refine foldr_max_le (fun e member => ?_)
    have found : heads.lookup e.1 = some e.2 := AList.mem_lookup_iff.mpr member
    have link : e.1 ∈ net.links b := by
      rw [Net.links, named]
      exact (net.headOrder_perm _).mem_iff.mpr (AList.mem_keys.mp (AList.lookup_isSome.mp (by rw [found]; rfl)))
    have above := honest.higher b e.1 link
    rw [truth e.1 e.2 found]
    omega
  by_cases zero : net.priority b = 0
  · have none : maxHeight heads = 0 := by omega
    rw [none] at priority
    rw [priority] at zero
    exact absurd zero (by decide)
  · omega

/-- A block on top of all heads has not been tombstoned yet: what could name it is below it. -/
theorem Calm.unburied (genuine : net.Genuine) (calm : Calm net c) (idle : NoJobs c) {b : Cid}
    (tops : ∀ h ∈ c.state.heads, h ∈ net.links b) (key : Key) : b ∉ tombsOf c.state.set.store key := by
  intro buried
  obtain ⟨x, handled, names⟩ := calm.kempt.tombs key b buried
  obtain ⟨h, height, found, below⟩ := (calm.idle idle).2 x handled
  have link : h ∈ net.links b := tops h (AList.lookup_isSome.mp (by rw [found]; rfl))
  have descent : Relation.ReflTransGen net.Names x h := Relation.ReflTransGen.mono (fun _ _ linked => Or.inl linked) _ _ below
  have goesBack : Relation.TransGen net.Names b h := Relation.TransGen.trans_left (.single (Or.inr ⟨key, names⟩)) descent
  exact genuine.acyclic b (goesBack.tail (Or.inl link))

variable {i : ℕ} {key : Key} {choices : List Choice} {w : Replica}

theorem Calm.put_effect (honest : net.Honest) (genuine : net.Genuine) (calm : Calm net c) (idle : NoJobs c) {value : Bytes}
    (ran : (put net key value).runWith (net.exec i) choices c.state = some (.ok (), w)) :
    w.set.store.lookup (valueKey key) = some value := by
  obtain ⟨b, s, named, buried, added⟩ := publish_run genuine.produced calm.kempt.sane (calm.idle idle).1 ran
  have member : (⟨key, "", value⟩ : Element) ∈ (net.block b).delta.elements := by
    rw [named]
    exact List.mem_singleton.mpr rfl
  have noTombs : ∀ key, ¬ ((net.block b).delta.tombIds key).Nonempty := by
    rintro key ⟨x, e, none, _⟩
    rw [named] at none
    cases none
  have same := (buried key).2 (noTombs key)
  have tops : ∀ h ∈ c.state.heads, h ∈ net.links b := by
    intro h head
    rw [Net.links, named]
    exact (net.headOrder_perm _).mem_iff.mpr (AList.mem_keys.mp head)
  obtain ⟨q, stores⟩ := calm.kempt.sane.cells key
  have accepted : accepts s key b value (net.block b).delta.priority = true := by
    refine (accepts_iff b _ (same.stores stores) ((genuine.produced b).nonempty _ member)).mpr ⟨?_, ?_⟩
    · rw [same.tombs]
      exact calm.unburied genuine idle tops key
    · rintro r rfl
      have below := calm.stored_le honest idle stores
      have above := honest.above_heads calm.level.truth named
      exact Prod.Lex.lt_iff.mpr (Or.inl (Nat.lt_of_le_of_lt below above))
  rw [added.value (genuine.produced b) (net.serves b) (buried.sane calm.kempt.sane) member, if_pos accepted]

theorem Calm.delete_effect (genuine : net.Genuine) (calm : Calm net c) (idle : NoJobs c)
    (ran : (delete net key).runWith (net.exec i) choices c.state = some (.ok (), w)) :
    w.set.store.lookup (valueKey key) = none := by
  obtain ⟨tombstones, removed, keys, ids⟩ := rmv_run net.env i c.state.set key
  obtain ⟨rest, ran⟩ := set_run (Context.bind _) removed ran
  simp only [Prog.bind] at ran
  split at ran
  · -- No live element is left, so nothing is stored.
    rename_i empty
    obtain ⟨_, rfl⟩ := Prod.mk.inj (Option.some.inj ran)
    obtain ⟨q, stores, winner⟩ := calm.kempt.settled key
    cases q with
    | none => exact stores.1
    | some r =>
      obtain ⟨x, live, _⟩ := winner.1
      obtain ⟨e, member, _⟩ := (ids x).mpr live
      rw [List.isEmpty_iff.mp empty] at member
      cases member
  · rename_i some
    obtain ⟨b, s, named, buried, added⟩ := publish_run genuine.produced calm.kempt.sane (calm.idle idle).1 ran
    have tombs : (net.block b).delta.tombIds key = survivors c.state.set.store key ∅ := by
      ext x
      rw [← ids x, named]
      constructor
      · rintro ⟨e, member, _, same⟩
        exact ⟨e, member, same⟩
      · rintro ⟨e, member, same⟩
        exact ⟨e, member, keys e member, same⟩
    have nonempty : ((net.block b).delta.tombIds key).Nonempty := by
      obtain ⟨e, member⟩ := List.exists_mem_of_ne_nil tombstones (fun no => some (List.isEmpty_iff.mpr no))
      rw [tombs]
      exact ⟨e.id, (ids e.id).mp ⟨e, member, rfl⟩⟩
    have gone : survivors c.state.set.store key ((net.block b).delta.tombIds key) = ∅ := by
      rw [tombs]
      ext x
      exact ⟨fun live => live.2.2 ⟨live.1, live.2.1, id⟩, fun no => no.elim⟩
    obtain ⟨q, winner, stores⟩ := ((buried key).1 nonempty).best
    have nothing : key ∉ (net.block b).delta.keys := by
      rw [named]
      exact List.not_mem_nil
    rw [((added key).2 nothing).value]
    cases q with
    | none => exact stores.1
    | some r =>
      obtain ⟨x, live, _⟩ := winner.1
      rw [gone] at live
      exact live.elim

end Idle

/-- A local write takes effect wherever no job is in flight, in every run whose steps leave each
merged block at or below a head. -/
theorem local_write_takes_effect {net : Net} (honest : net.Honest) (genuine : net.Genuine) {c : Crew}
    (reach : Crew.Reach net.system (TakesCare net) Crew.fresh c) (idle : NoJobs c) : TakesEffect net c.state := by
  have calm := calm_of_reach honest genuine.produced reach
  refine ⟨fun key => ?_, fun i key value choices w ran => ?_, fun i key choices w ran => ?_⟩
  · obtain ⟨q, stores⟩ := calm.kempt.sane.cells key
    rw [curPriority_of_stores stores]
    cases q with
    | none => exact Nat.succ_pos _
    | some r => exact Nat.lt_succ_of_le (calm.stored_le honest idle stores)
  · have stored := calm.put_effect honest genuine idle ran
    exact congrArg (fun found => some (Except.ok found, w.set)) stored
  · have gone := calm.delete_effect genuine idle ran
    exact congrArg (fun found => some (Except.ok found.isSome, w.set)) gone

namespace Stranded

/-- A block from elsewhere, a branch of two more, and the block of a local write on the first. -/
def block : Cid → Block
  | "l" => ⟨.of [{ key := ["k"], value := [7] }] [] 1, []⟩
  | "m" => ⟨.of [] [] 2, []⟩
  | "r" => ⟨.of [{ key := ["k"], value := [9] }] [] 3, ["m"]⟩
  | "n" => ⟨newDelta (add ["k"] [5]) [] 1, ["l"]⟩
  | _ => ⟨.of [] [] 0, []⟩

def net : Net := .plain block

theorem honest : net.Honest where
  higher := by
    intro c l member
    simp only [Net.links, Net.priority, net, Net.plain, block] at member ⊢
    split at member
    · cases member
    · cases member
    · obtain rfl := List.mem_singleton.mp member
      decide
    · obtain rfl := List.mem_singleton.mp member
      decide
    · cases member

theorem no_tombstones (c : Cid) : (net.block c).delta.tombstones = [] := by
  simp only [net, Net.plain, block]
  split <;> rfl

theorem genuine : net.Genuine where
  produced := by
    intro c
    simp only [net, Net.plain, block]
    split <;> decide
  acyclic := by
    intro c cycle
    have rises : ∀ a b, net.Names a b → net.priority a < net.priority b := by
      rintro a b (link | ⟨key, e, none, _⟩)
      · exact honest.higher b a link
      · rw [no_tombstones] at none
        cases none
    have above : ∀ {d}, Relation.TransGen net.Names c d → net.priority c < net.priority d := by
      intro d path
      induction path with
      | single named => exact rises _ _ named
      | tail _ named ih => exact ih.trans (rises _ _ named)
    exact absurd (above cycle) (Nat.lt_irrefl _)

/-- `l` is received by a new replica. -/
def received : List Chain.Move :=
  .enter (.receive ["l"]) :: (Chain.moves 0 6 [] ++ Chain.moves 1 9 ["l"] ++ Chain.moves 2 30 [] ++ Chain.moves 1 3 [])

/-- Then `r` is received and merged, and the fetch of `m` fails. -/
def cutOff : List Chain.Move :=
  .enter (.receive ["r"]) :: (Chain.moves 3 6 [] ++ Chain.moves 4 9 ["r"] ++ Chain.moves 5 40 [] ++ Chain.moves 4 3 [])

/-- The local write makes the block `n`. -/
def choices : List Choice := List.replicate 16 { cid := "n" }

/-- Steps that give up no root. -/
def careful (_ : Task) : DagOp → Bool
  | .branch head c => head == c
  | .markDirty | .broadcast _ => false
  | _ => true

theorem careful_takes (c : Crew) (i : ℕ) (task : Task) (o : DagOp) (r : o.Res) (allowed : careful task o = true) :
    TakesCare net c i task o r where
  own := by
    cases o with
    | branch head c => exact beq_iff_eq.mp allowed
    | _ => trivial
  covered := by
    intro root quits
    cases o with
    | markDirty | broadcast => cases allowed
    | _ => cases task <;> exact quits.elim
  apart := by
    rintro a _ j b _ _ x key ⟨_, e, none, _⟩
    rw [no_tombstones] at none
    cases none

end Stranded

set_option maxRecDepth 8000 in
/-- On top of a block received in full, a put returns and its value is read. -/
theorem local_write_takes_effect_received :
    ∃ w, (put Stranded.net ["k"] [5]).runWith (Stranded.net.exec 9) Stranded.choices
        (Crew.fresh.play Stranded.net.system Stranded.careful Stranded.received).state = some (.ok (), w) ∧
      (element ["k"]).run (exec Stranded.net.env 9) w.set = some (.ok (some [5]), w.set) := by
  have returns : ((put Stranded.net ["k"] [5]).runWith (Stranded.net.exec 9) Stranded.choices
      (Crew.fresh.play Stranded.net.system Stranded.careful Stranded.received).state).map Prod.fst = some (.ok ()) := by decide
  obtain ⟨⟨out, w⟩, ran, rfl⟩ := Option.map_eq_some_iff.mp returns
  have effect := local_write_takes_effect Stranded.honest Stranded.genuine
    (.of_play Stranded.careful Stranded.careful_takes Stranded.received .start) (by decide)
  exact ⟨w, ran, effect.put 9 ["k"] [5] Stranded.choices w ran⟩

set_option maxRecDepth 8000 in
/-- The walk from `r` stopped before `r` became a head, so the put gets priority 2, below what
`r` has left for the key: it returns, and the old value is read. -/
theorem local_write_lost : ¬ ∀ net : Net, net.Honest → net.Genuine → ∀ c, Crew.Reach net.system Crew.Anyhow Crew.fresh c →
    NoJobs c → TakesEffect net c.state := by
  intro always
  have effect := always Stranded.net Stranded.honest Stranded.genuine _
    (.of_play (fun _ _ => true) (fun _ _ _ _ _ _ => trivial) (Stranded.received ++ Stranded.cutOff) .start) (by decide)
  have returns : ((put Stranded.net ["k"] [5]).runWith (Stranded.net.exec 9) Stranded.choices
      (Crew.fresh.play Stranded.net.system (fun _ _ => true) (Stranded.received ++ Stranded.cutOff)).state).map
        (fun out => (out.1, (element ["k"]).run (exec Stranded.net.env 9) out.2.set |>.map Prod.fst)) =
      some (.ok (), some (.ok (some [9]))) := by decide
  obtain ⟨⟨out, w⟩, ran, same⟩ := Option.map_eq_some_iff.mp returns
  obtain ⟨rfl, read⟩ := Prod.mk.inj same
  rw [effect.put 9 ["k"] [5] Stranded.choices w ran] at read
  exact absurd read (by simp)

end OpenTela
