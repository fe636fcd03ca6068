import OpenTela.Dag.Agreement

namespace OpenTela

open Prog

/-- A replica with nothing under way: what it has merged is below its heads, and what its set
holds comes from what it has merged. -/
structure Net.Still (net : Net) (w : Replica) : Prop where
  sane : Sane net.env w.set.store
  settled : ∀ key, Settled w.set.store key net.env
  free : w.set.mutex = none
  truth : HeightsTrue net w.heads
  merged : ∀ h ∈ w.heads, h ∈ w.processed
  covered : ∀ b ∈ w.processed, ∃ h ∈ w.heads, net.Below b h
  elems : ∀ key, ∀ x ∈ elemsOf w.set.store key, x ∈ w.processed
  tombs : ∀ key, ∀ x ∈ tombsOf w.set.store key, ∃ a ∈ w.processed, x ∈ (net.block a).delta.tombIds key

theorem AtRest.still {net : Net} {c : Crew} (honest : net.Honest) (produced : ∀ c, (net.block c).delta.Produced)
    (rest : AtRest net c) : net.Still c.state where
  sane := (rest.calm honest produced).kempt.sane
  settled := (rest.calm honest produced).kempt.settled
  free := ((rest.calm honest produced).idle rest.idle).1
  truth := (rest.calm honest produced).level.truth
  merged := rest.merged
  covered := fun b processed => (rest.processed_iff honest produced b).mp processed
  elems := fun key x element => ((rest.elems_iff honest produced key x).mp element).1
  tombs := fun key x buried => (rest.tombs_iff honest produced key x).mp buried

/-- What a write leaves behind once its block `b` is merged: `b` is the only head. -/
structure Net.Publishes (net : Net) (elements tombstones : List Element) (b : Cid) (w w' : Replica) : Prop where
  named : net.block b = ⟨newDelta elements tombstones (maxHeight w.heads), net.headOrder w.heads.keys⟩
  merges : ∃ s, TombsCommitted net.env (net.block b).delta w.set.store s ∧
    ElemsCommitted net.env (net.block b).delta b s w'.set.store
  free : w'.set.mutex = none
  processed : w'.processed = insert b w.processed
  heads : ∀ x, w'.heads.lookup x = if x = b then some (net.priority b) else none

section Alone

variable {net : Net} {i : ℕ} {choices : List Choice} {w w' : Replica} {K : DagM (List Cid) → DagM Unit}
  {out : Except String Unit × Replica}

/-- The heads once the root has taken the place of these. -/
def crown (root : Cid) (height : ℕ) (links : List Cid) (heads : Store Cid ℕ) : Store Cid ℕ :=
  links.foldl (fun heads h => (heads.erase h).insert root height) heads

theorem lookup_crown {root : Cid} {height : ℕ} (links : List Cid) (heads : Store Cid ℕ) (x : Cid) (other : x ≠ root) :
    (crown root height links heads).lookup x = if x ∈ links then none else heads.lookup x := by
  induction links generalizing heads with
  | nil => rfl
  | cons h rest ih =>
    rw [crown, List.foldl_cons, ← crown, ih, AList.lookup_insert_ne other]
    by_cases later : x ∈ rest
    · rw [if_pos later, if_pos (List.mem_cons_of_mem _ later)]
    · rw [if_neg later]
      by_cases same : x = h
      · subst same
        rw [AList.lookup_erase, if_pos (List.mem_cons_self ..)]
      · have absent : x ∉ h :: rest := by
          simp only [List.mem_cons, not_or]
          exact ⟨same, later⟩
        rw [AList.lookup_erase_ne same, if_neg absent]

theorem lookup_crown_root {root : Cid} {height : ℕ} {links : List Cid} {heads : Store Cid ℕ} (others : root ∉ links)
    (some : links ≠ [] ∨ heads.lookup root = some height) : (crown root height links heads).lookup root = .some height := by
  induction links generalizing heads with
  | nil => exact some.resolve_left (fun no => no rfl)
  | cons h rest ih => exact ih (fun later => others (List.mem_cons_of_mem _ later)) (Or.inr (AList.lookup_insert _))

/-- Where every link is a merged head that is not above the root, the root takes the place of them
all, and no child is left. -/
theorem loop_run (context : Context K) {root : Cid} {rootPrio : ℕ} (links : List Cid) {added : Bool} (nodup : links.Nodup)
    (others : root ∉ links) (tops : ∀ h ∈ links, ∃ height, w.heads.lookup h = some height ∧ height ≤ rootPrio)
    (merged : ∀ h ∈ links, h ∈ w.processed)
    (ran : (K (processNode.loop root rootPrio links added [])).runWith (net.exec i) choices w = some out) :
    ∃ rest, (K (.ret [])).runWith (net.exec i) rest { w with heads := crown root rootPrio links w.heads } = some out := by
  induction links generalizing w choices added with
  | nil => exact ⟨choices, ran⟩
  | cons h links ih =>
    obtain ⟨height, found, low⟩ := tops h (List.mem_cons_self ..)
    have here : decide (h ∈ w.processed) = true := decide_eq_true (merged h (List.mem_cons_self ..))
    have unfolded : processNode.loop root rootPrio (h :: links) added [] =
      .op (.isHead h) (fun existing => .op (.isProcessed h) (fun processed =>
        processNode.replaceChild root rootPrio h existing added >>= fun added =>
          if existing.isSome && processed then processNode.loop root rootPrio links added []
          else processNode.taken h processed >>= fun taken =>
            if taken then processNode.addOnce root rootPrio added >>= fun added => processNode.loop root rootPrio links added []
            else processNode.loop root rootPrio links added ([] ++ [h]))) := rfl
    rw [unfolded, context] at ran
    obtain ⟨_, _, _, _, executed, ran⟩ := runWith_op ran
    obtain ⟨rfl, rfl⟩ := Prod.mk.inj (Option.some.inj executed)
    rw [context] at ran
    obtain ⟨_, _, _, _, executed, ran⟩ := runWith_op ran
    obtain ⟨rfl, rfl⟩ := Prod.mk.inj (Option.some.inj executed)
    simp only [found, here, processNode.replaceChild, if_pos low, Option.isSome_some, Bool.and_self, if_true] at ran
    have replacing : (DagM.replaceHead h root rootPrio >>= fun _ => (pure true : DagM Bool)) >>=
        (fun added => processNode.loop root rootPrio links added []) =
      .op (.replaceHead h root rootPrio) (fun _ => processNode.loop root rootPrio links true []) := rfl
    rw [replacing, context] at ran
    obtain ⟨_, _, _, _, executed, ran⟩ := runWith_op ran
    obtain ⟨_, rfl⟩ := Prod.mk.inj (Option.some.inj executed)
    obtain ⟨fresh, nodup⟩ := List.nodup_cons.mp nodup
    refine ih (w := { w with heads := (w.heads.erase h).insert root rootPrio }) nodup
      (fun later => others (List.mem_cons_of_mem _ later)) (fun x later => ?_) (fun x later => merged x (List.mem_cons_of_mem _ later)) ran
    obtain ⟨height', found', low'⟩ := tops x (List.mem_cons_of_mem _ later)
    have apart : x ≠ root := fun same => others (List.mem_cons_of_mem _ (same ▸ later))
    have apart' : x ≠ h := fun same => fresh (same ▸ later)
    exact ⟨height', by rw [AList.lookup_insert_ne apart, AList.lookup_erase_ne apart', found'], low'⟩

/-- The root is a head in the end, and its links are none. -/
theorem links_run (context : Context K) {b : Cid} {prio : ℕ}
    (ran : (K (processNode.links net b prio b)).runWith (net.exec i) choices w = some out) (nodup : (net.links b).Nodup)
    (others : b ∉ net.links b) (tops : ∀ h ∈ net.links b, ∃ height, w.heads.lookup h = some height ∧ height ≤ prio)
    (merged : ∀ h ∈ net.links b, h ∈ w.processed) :
    ∃ rest v, (K (.ret [])).runWith (net.exec i) rest v = some out ∧ v.set = w.set ∧ v.processed = w.processed ∧
      ∀ x, v.heads.lookup x = if x = b then some prio else if x ∈ net.links b then none else w.heads.lookup x := by
  have unfolded : processNode.links net b prio b = .op (.dequeue b) (fun _ =>
      if (net.links b).isEmpty then DagM.addHead b prio >>= fun _ => processNode.loop b prio (net.links b) false []
      else processNode.loop b prio (net.links b) false []) := by
    unfold processNode.links
    cases (net.links b).isEmpty <;> rfl
  rw [unfolded, context] at ran
  obtain ⟨_, _, _, _, executed, ran⟩ := runWith_op ran
  obtain ⟨_, rfl⟩ := Prod.mk.inj (Option.some.inj executed)
  by_cases leaf : (net.links b).isEmpty
  · rw [if_pos leaf, List.isEmpty_iff.mp leaf] at ran
    have adding : DagM.addHead b prio >>= (fun _ => processNode.loop b prio [] false []) =
      .op (.addHead b prio) (fun _ => .ret []) := rfl
    rw [adding, context] at ran
    obtain ⟨_, _, _, _, executed, ran⟩ := runWith_op ran
    obtain ⟨_, rfl⟩ := Prod.mk.inj (Option.some.inj executed)
    refine ⟨_, _, ran, rfl, rfl, fun x => ?_⟩
    rw [List.isEmpty_iff.mp leaf]
    by_cases same : x = b
    · subst same
      rw [if_pos rfl, AList.lookup_insert]
    · rw [if_neg same, if_neg List.not_mem_nil, AList.lookup_insert_ne same]
  · rw [if_neg leaf] at ran
    obtain ⟨rest, ran⟩ := loop_run (w := { w with queuedChildren := w.queuedChildren.erase b }) context (net.links b) nodup
      others tops merged ran
    refine ⟨_, _, ran, rfl, rfl, fun x => ?_⟩
    by_cases same : x = b
    · subst same
      rw [if_pos rfl, lookup_crown_root others (Or.inl (fun none => leaf (List.isEmpty_iff.mpr none)))]
    · rw [if_neg same, lookup_crown _ _ _ same]

/-- A block made on top of all heads, processed on its own. -/
theorem processNode_run (context : Context K) {b : Cid} {elements tombstones : List Element} (honest : net.Honest)
    (produced : (net.block b).delta.Produced) (still : net.Still w)
    (named : net.block b = ⟨newDelta elements tombstones (maxHeight w.heads), net.headOrder w.heads.keys⟩)
    (ran : (K (processNode net b (net.priority b) b)).runWith (net.exec i) choices w = some out) :
    ∃ rest v, net.Publishes elements tombstones b w v ∧ (K (.ret [])).runWith (net.exec i) rest v = some out := by
  have linked : ∀ h, h ∈ net.links b ↔ h ∈ w.heads := fun h => by
    rw [Net.links, named, (net.headOrder_perm _).mem_iff, AList.mem_keys]
  have nodup : (net.links b).Nodup := by
    rw [Net.links, named]
    exact (net.headOrder_perm _).nodup_iff.mpr w.heads.nodupKeys
  have others : b ∉ net.links b := fun own => absurd (honest.higher b b own) (Nat.lt_irrefl _)
  have above := honest.above_heads still.truth named
  obtain ⟨u, s, merges, unlocked, buried, added, _⟩ := merge_run (i := i) (produced.orderly b) (net.serves b) still.sane still.free
  have unfolded : processNode net b (net.priority b) b = .op (.enterMerge b) (fun _ =>
      DagM.set (merge (net.block b).delta b) >>= fun _ => DagM.markProcessed b >>= fun _ =>
        processNode.links net b (net.priority b) b) := processNode_eq ..
  rw [unfolded, context] at ran
  obtain ⟨_, _, _, _, executed, ran⟩ := runWith_op ran
  obtain ⟨_, rfl⟩ := Prod.mk.inj (Option.some.inj executed)
  have marks : Context (fun q : DagM Unit => K (q >>= fun _ => DagM.markProcessed b >>= fun _ =>
      processNode.links net b (net.priority b) b)) := Context.comp context (Context.bind _)
  obtain ⟨_, ran⟩ := set_run (w := { w with merging := w.merging.insert i b }) marks merges ran
  have marking := context (.markProcessed b) (fun _ => processNode.links net b (net.priority b) b)
  have marked : (.ret () : DagM Unit) >>= (fun _ => DagM.markProcessed b >>= fun _ => processNode.links net b (net.priority b) b) =
    .op (.markProcessed b) (fun _ => processNode.links net b (net.priority b) b) := rfl
  rw [marked, marking] at ran
  obtain ⟨_, _, _, _, executed, ran⟩ := runWith_op ran
  obtain ⟨_, rfl⟩ := Prod.mk.inj (Option.some.inj executed)
  have tops : ∀ h ∈ net.links b, ∃ height, w.heads.lookup h = some height ∧ height ≤ net.priority b := by
    intro h link
    obtain ⟨height, found⟩ := Option.isSome_iff_exists.mp (AList.lookup_isSome.mpr ((linked h).mp link))
    exact ⟨height, found, (le_maxHeight found).trans above.le⟩
  obtain ⟨rest, v, ran, set, processed, heads⟩ := links_run context ran nodup others tops
    (fun h link => Finset.mem_insert_of_mem (still.merged h ((linked h).mp link)))
  refine ⟨rest, v, ⟨named, ⟨s, buried, by rw [set]; exact added⟩, by rw [set]; exact unlocked, processed, fun x => ?_⟩, ran⟩
  rw [heads]
  by_cases same : x = b
  · rw [if_pos same, if_pos same]
  · rw [if_neg same, if_neg same]
    by_cases head : x ∈ w.heads
    · rw [if_pos ((linked x).mpr head)]
    · rw [if_neg (fun link => head ((linked x).mp link))]
      exact AList.lookup_eq_none.mpr head

/-- A write on its own either could not write its block, and then nothing has changed, or it has
merged the block, whether or not the broadcast went out. -/
theorem publish_alone {elements tombstones : List Element} {out : Except String Unit} (honest : net.Honest)
    (produced : ∀ c, (net.block c).delta.Produced) (still : net.Still w)
    (ran : (publish net elements tombstones).runWith (net.exec i) choices w = some (out, w')) :
    (out = .error "error writing new block" ∧ w' = w) ∨
      ((out = .ok () ∨ out = .error "error broadcasting") ∧ ∃ b, net.Publishes elements tombstones b w w') := by
  obtain ⟨_, _, _, _, executed, ran⟩ := runWith_op ran
  obtain ⟨rfl, rfl⟩ := Prod.mk.inj (Option.some.inj executed)
  obtain ⟨choice, _, made, v, executed, ran⟩ := runWith_op ran
  have named := Net.exec_can still.sane.decodes executed
  have same : v = w := by
    simp only [Net.exec] at executed
    split at executed
    · exact (Prod.mk.inj (Option.some.inj executed)).2.symm
    · split at executed
      · exact (Prod.mk.inj (Option.some.inj executed)).2.symm
      · cases executed
  subst same
  cases made with
  | none =>
    obtain ⟨failed, rfl⟩ := Prod.mk.inj (Option.some.inj ran)
    exact Or.inl ⟨failed.symm, rfl⟩
  | some b =>
    have priority : net.priority b = (maxHeight v.heads + 1) % word := by rw [Net.priority, named b rfl]; rfl
    rw [← priority] at ran
    obtain ⟨_, u, published, ran⟩ := processNode_run (Context.publish b) honest (produced b) still (named b rfl) ran
    obtain ⟨_, _, sent, _, executed, ran⟩ := runWith_op ran
    obtain ⟨_, rfl⟩ := Prod.mk.inj (Option.some.inj executed)
    cases sent with
    | true =>
      obtain ⟨returned, rfl⟩ := Prod.mk.inj (Option.some.inj ran)
      exact Or.inr ⟨Or.inl returned.symm, b, published⟩
    | false =>
      obtain ⟨failed, rfl⟩ := Prod.mk.inj (Option.some.inj ran)
      exact Or.inr ⟨Or.inr failed.symm, b, published⟩

end Alone

/-- The blocks whose element of the key these tombstones remove. -/
def removedBy (tombstones : List Element) (key : Key) : Set Cid := {x | ∃ e ∈ tombstones, e.key = key ∧ e.id = x}

section Effect

variable {net : Net} {w w' : Replica} {elements tombstones : List Element} {b : Cid}

theorem Net.Publishes.links_iff (published : net.Publishes elements tombstones b w w') (h : Cid) :
    h ∈ net.links b ↔ h ∈ w.heads := by
  rw [Net.links, published.named, (net.headOrder_perm _).mem_iff, AList.mem_keys]

theorem Net.Publishes.elements_eq (published : net.Publishes elements tombstones b w w') :
    (net.block b).delta.elements = elements := by
  rw [published.named]
  rfl

theorem Net.Publishes.tombIds_eq (published : net.Publishes elements tombstones b w w') (key : Key) :
    (net.block b).delta.tombIds key = removedBy tombstones key := by
  rw [published.named]
  rfl

/-- No element ranks above the highest head. -/
theorem Net.Still.rank_le (honest : net.Honest) (still : net.Still w) {key : Key} {x : Cid} {r : Rank}
    (element : x ∈ elemsOf w.set.store key) (rank : net.env.rank key x = some r) : (ofLex r).1 ≤ maxHeight w.heads := by
  obtain ⟨h, head, below⟩ := still.covered x (still.elems key x element)
  obtain ⟨height, found⟩ := Option.isSome_iff_exists.mp (AList.lookup_isSome.mpr head)
  rw [Env.rank, net.serves, Option.bind_some, Delta.rank] at rank
  obtain ⟨value, _, rfl⟩ := Option.map_eq_some_iff.mp rank
  calc net.priority x ≤ net.priority h := honest.priority_le below
    _ = height := (still.truth h height found).symm
    _ ≤ maxHeight w.heads := le_maxHeight found

/-- Once the tombstones of a delta are committed, the best of what they leave is stored. -/
theorem TombsCommitted.best {env : Env} {d : Delta} {s t : SetStore} {key : Key} (buried : TombsCommitted env d s t)
    (settled : Settled s key env) : ∃ q, Winner (env.ranks key (survivors s key (d.tombIds key))) q ∧ Stores t key q := by
  by_cases some : (d.tombIds key).Nonempty
  · exact ((buried key).1 some).best
  · obtain ⟨q, stores, winner⟩ := settled
    rw [Set.not_nonempty_iff_eq_empty.mp some]
    exact ⟨q, winner, ((buried key).2 some).stores stores⟩

/-- The block goes back to whatever has been merged, so nothing merged goes back to it. -/
theorem Net.Publishes.fresh (genuine : net.Genuine) (still : net.Still w) (published : net.Publishes elements tombstones b w w')
    {x : Cid} (named : Relation.ReflTransGen net.Names b x) : x ∉ w.processed := by
  intro processed
  obtain ⟨h, head, below⟩ := still.covered x processed
  have descent : Relation.ReflTransGen net.Names x h := Relation.ReflTransGen.mono (fun _ _ linked => Or.inl linked) _ _ below
  exact genuine.acyclic b (.tail' (named.trans descent) (Or.inl ((published.links_iff h).mpr head)))

theorem Net.Publishes.unburied (genuine : net.Genuine) (still : net.Still w)
    (published : net.Publishes elements tombstones b w w') (key : Key) : b ∉ tombsOf w.set.store key := by
  intro buried
  obtain ⟨a, processed, names⟩ := still.tombs key b buried
  exact published.fresh genuine still (.single (Or.inr ⟨key, names⟩)) processed

/-- The replica is still again. -/
theorem Net.Publishes.still (produced : ∀ c, (net.block c).delta.Produced) (still : net.Still w)
    (published : net.Publishes elements tombstones b w w') : net.Still w' := by
  obtain ⟨s, buried, added⟩ := published.merges
  have here : ∀ x, x ∈ w'.heads ↔ x = b := fun x => by
    rw [← AList.lookup_isSome, published.heads]
    by_cases same : x = b
    · simp [same]
    · simp [same]
  have mine : b ∈ w'.processed := by
    rw [published.processed]
    exact Finset.mem_insert_self _ _
  have kept : ∀ {x}, x ∈ w.processed → x ∈ w'.processed := fun old => by
    rw [published.processed]
    exact Finset.mem_insert_of_mem old
  refine ⟨added.sane (produced b).ranked (net.serves b) (buried.sane still.sane), fun key => ?_, published.free, fun h height found => ?_,
    fun h head => ?_, fun x processed => ?_, fun key x element => ?_, fun key x tombstone => ?_⟩
  · exact added.settled (produced b).ranked (net.serves b) (buried.settled (still.settled key))
  · rw [published.heads] at found
    split at found
    · rename_i same
      rw [same]
      exact (Option.some.inj found).symm
    · cases found
  · rw [(here h).mp head]
    exact mine
  · refine ⟨b, (here b).mpr rfl, ?_⟩
    rw [published.processed] at processed
    rcases Finset.mem_insert.mp processed with rfl | old
    · exact .refl net x
    · obtain ⟨h, head, below⟩ := still.covered x old
      exact below.trans ((Net.Below.refl net b).link ((published.links_iff h).mpr head))
  · rcases (added.elems_iff key x).mp element with old | ⟨rfl, _⟩
    · rw [buried.elems_eq] at old
      exact kept (still.elems key x old)
    · exact mine
  · rw [added.tombs_eq, buried.tombs_eq] at tombstone
    rcases tombstone with old | new
    · obtain ⟨a, processed, names⟩ := still.tombs key x old
      exact ⟨a, kept processed, names⟩
    · exact ⟨b, mine, new⟩

/-- An element of the delta is what its key stores. -/
theorem Net.Publishes.stores_element (honest : net.Honest) (genuine : net.Genuine) (still : net.Still w)
    (published : net.Publishes elements tombstones b w w') {e : Element} (member : e ∈ elements) :
    Stores w'.set.store e.key (some (toLex (net.priority b, e.value))) := by
  obtain ⟨s, buried, added⟩ := published.merges
  have own : e ∈ (net.block b).delta.elements := published.elements_eq ▸ member
  have adds := (added e.key).1 (List.mem_map_of_mem own)
  have rank : net.env.rank e.key b = some (toLex (net.priority b, e.value)) := by
    rw [Env.rank, net.serves, Option.bind_some, (genuine.produced b).rank own]
    rfl
  have alive : b ∉ tombsOf s e.key := by
    rw [buried.tombs_eq]
    rintro (old | names)
    · exact published.unburied genuine still e.key old
    · exact genuine.acyclic b (.single (Or.inr ⟨e.key, names⟩))
  obtain ⟨q, winner, stores⟩ := buried.best (still.settled e.key)
  have after := adds.alive alive q _ stores rank
  cases q with
  | none => exact after
  | some r =>
    obtain ⟨x, ⟨element, _⟩, other⟩ := winner.1
    have lower := still.rank_le honest element other
    have above := honest.above_heads still.truth published.named
    have beaten : r < toLex (net.priority b, e.value) := Prod.Lex.lt_iff.mpr (Or.inl (lower.trans_lt above))
    rw [challenge_of_lt (fun r' same => Option.some.inj same ▸ beaten)] at after
    exact after

/-- The other keys store the best of what the tombstones leave. -/
theorem Net.Publishes.stores_rest (still : net.Still w) (published : net.Publishes elements tombstones b w w') {key : Key}
    (absent : key ∉ elements.map Element.key) :
    ∃ q, Winner (net.env.ranks key (survivors w.set.store key (removedBy tombstones key))) q ∧
      Stores w'.set.store key q := by
  obtain ⟨s, buried, added⟩ := published.merges
  obtain ⟨q, winner, stores⟩ := buried.best (still.settled key)
  rw [published.tombIds_eq] at winner
  have other : key ∉ (net.block b).delta.keys := by
    rw [Delta.keys, published.elements_eq]
    exact absent
  exact ⟨q, winner, ((added key).2 other).stores stores⟩

/-- What the tombstones `ids` would leave of a key, after the write. -/
theorem Net.Publishes.survivors_rest (published : net.Publishes elements tombstones b w w') {key : Key}
    (absent : key ∉ elements.map Element.key) (ids : Set Cid) :
    survivors w'.set.store key ids = survivors w.set.store key (removedBy tombstones key ∪ ids) := by
  obtain ⟨s, buried, added⟩ := published.merges
  have other : key ∉ (net.block b).delta.keys := by
    rw [Delta.keys, published.elements_eq]
    exact absent
  have same := (added key).2 other
  ext x
  simp only [survivors, same.elems, same.tombs, buried.elems_eq, buried.tombs_eq, published.tombIds_eq, Set.mem_ofPred_eq,
    Set.mem_union, not_or, and_assoc]

theorem Net.Publishes.survivors_element (genuine : net.Genuine) (still : net.Still w)
    (published : net.Publishes elements tombstones b w w') {key : Key} (own : key ∈ elements.map Element.key) {ids : Set Cid}
    (fresh : b ∉ ids) :
    survivors w'.set.store key ids = insert b (survivors w.set.store key (removedBy tombstones key ∪ ids)) := by
  obtain ⟨s, buried, added⟩ := published.merges
  have mine : key ∈ (net.block b).delta.keys := by
    rw [Delta.keys, published.elements_eq]
    exact own
  have adds := (added key).1 mine
  have alive := published.unburied genuine still key
  have unnamed : b ∉ removedBy tombstones key := fun names =>
    genuine.acyclic b (.single (Or.inr ⟨key, published.tombIds_eq key ▸ names⟩))
  ext x
  simp only [survivors, adds.elems, adds.tombs, buried.elems_eq, buried.tombs_eq, published.tombIds_eq, Set.mem_ofPred_eq,
    Set.mem_union, Set.mem_insert_iff, not_or, and_assoc]
  constructor
  · rintro ⟨rfl | old, rest⟩
    · exact Or.inl rfl
    · exact Or.inr ⟨old, rest⟩
  · rintro (rfl | ⟨old, rest⟩)
    · exact ⟨Or.inl rfl, alive, unnamed, fresh⟩
    · exact ⟨Or.inr old, rest⟩

end Effect

end OpenTela
