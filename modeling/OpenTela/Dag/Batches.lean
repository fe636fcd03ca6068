import OpenTela.Dag.Session

namespace OpenTela

open Prog

/-- A datastore as its caller sees it, with the delta that batches share. -/
structure Datastore where
  replica : Replica
  curDelta : Option Delta

/-- `proto.Size`, and the option `MaxBatchDeltaSize`. -/
structure BatchOptions where
  size : Delta → ℕ
  maxBatchDeltaSize : ℕ

inductive StoreCall where
  | put (key : Key) (value : Bytes)
  | delete (key : Key)
  | batchPut (key : Key) (value : Bytes)
  | batchDelete (key : Key)
  | commit
  deriving DecidableEq

namespace Datastore

/-- `curDelta.GetElements()`, also of a nil delta. -/
def elements (s : Datastore) : List Element := (s.curDelta.map Delta.elements).getD []

def tombstones (s : Datastore) : List Element := (s.curDelta.map Delta.tombstones).getD []

def priority (s : Datastore) : ℕ := (s.curDelta.map Delta.priority).getD 0

/-- `updateDelta`, where `deltaMerge` keeps the greater priority. A new delta has none yet. -/
def updateDelta (s : Datastore) (elements tombstones : List Element) : Datastore :=
  { s with curDelta := some (.of (s.elements ++ elements) (s.tombstones ++ tombstones) s.priority) }

/-- `updateDeltaWithRemove`: what the batch itself has put for the key goes. -/
def updateDeltaWithRemove (s : Datastore) (key : Key) (tombstones : List Element) : Datastore :=
  { s with curDelta := some (.of (s.elements.filter (fun e => e.key ≠ key)) (s.tombstones ++ tombstones) s.priority) }

/-- `addToDelta`. -/
def addToDelta (s : Datastore) (key : Key) (value : Bytes) : Datastore := s.updateDelta (add key value) []

end Datastore

section Calls

variable (net : Net) (opts : BatchOptions) (i : ℕ)

/-- `rmvToDelta`. -/
def Net.rmvToDelta (s : Datastore) (key : Key) : Option (Except String Datastore) :=
  ((rmv key).run (OpenTela.exec net.env i) s.replica.set).map (fun out =>
    out.1.map (fun tombstones => s.updateDeltaWithRemove key tombstones))

/-- `publishDelta`. A delta that could not be published stays, with the height it was given. -/
def Net.publishDelta (choices : List Choice) (s : Datastore) : Option (Except String Unit × Datastore) :=
  match s.curDelta with
  | none => some (.ok (), s)
  | some delta =>
    ((publish net delta.elements delta.tombstones).runWith (net.exec i) choices s.replica).map (fun out =>
      match out.1 with
      | .ok () => (.ok (), ⟨out.2, none⟩)
      | .error e => (.error e, ⟨out.2, some (newDelta delta.elements delta.tombstones (maxHeight s.replica.heads))⟩))

/-- The end of `batch.Put` and `batch.Delete`: a delta that has grown too large is committed at once. -/
def Net.commitOver (choices : List Choice) (s : Datastore) : Option (Except String Unit × Datastore) :=
  if (s.curDelta.map opts.size).getD 0 > opts.maxBatchDeltaSize then net.publishDelta i choices s else some (.ok (), s)

/-- One call on the datastore or on a batch of it. -/
def Net.call (choices : List Choice) (s : Datastore) : StoreCall → Option (Except String Unit × Datastore)
  | .put key value => ((put net key value).runWith (net.exec i) choices s.replica).map (fun out => (out.1, { s with replica := out.2 }))
  | .delete key => ((delete net key).runWith (net.exec i) choices s.replica).map (fun out => (out.1, { s with replica := out.2 }))
  | .batchPut key value => net.commitOver opts i choices (s.addToDelta key value)
  | .batchDelete key =>
    match net.rmvToDelta i s key with
    | none => none
    | some (.error e) => some (.error e, s)
    | some (.ok s) => net.commitOver opts i choices s
  | .commit => net.publishDelta i choices s

end Calls

/-- No value is empty, and a batch puts a key again only once the earlier put of it has been removed
or committed. -/
def Datastore.fits (s : Datastore) : StoreCall → Bool
  | .put _ value => !value.isEmpty
  | .batchPut key value => !value.isEmpty && s.elements.all (fun e => decide (e.key ≠ key))
  | _ => true

/-- Calls one after another, each with what it returned. -/
inductive Net.Session (net : Net) (opts : BatchOptions) (s : Datastore) : List (StoreCall × Except String Unit) → Datastore → Prop
  | start : Session net opts s [] s
  | next {calls t i choices call out u} : Session net opts s calls t → t.fits call = true →
      net.call opts i choices t call = some (out, u) → Session net opts s (calls ++ [(call, out)]) u

/-- What the datastore is to its caller: a map, and what the open batch will do to it. -/
structure Ledger where
  stored : Key → Option Bytes
  pending : Key → Option (Option Bytes)

namespace Ledger

/-- The map with the batch applied. -/
def merged (m : Ledger) (key : Key) : Option Bytes := (m.pending key).getD (m.stored key)

def store (m : Ledger) (key : Key) (value : Option Bytes) : Ledger :=
  { m with stored := Function.update m.stored key value }

/-- A put outside the batch is not undone by a deletion the batch made before it. -/
def spare (m : Ledger) (key : Key) : Ledger :=
  if m.pending key = some none then { m with pending := Function.update m.pending key none } else m

def note (m : Ledger) (key : Key) (value : Option Bytes) : Ledger :=
  { m with pending := Function.update m.pending key (some value) }

section Entries

variable {m : Ledger} {key x : Key} {value : Option Bytes}

theorem store_self : (m.store key value).stored key = value := Function.update_self ..

theorem store_other (other : x ≠ key) : (m.store key value).stored x = m.stored x := Function.update_of_ne other ..

theorem note_self : (m.note key value).pending key = some value := Function.update_self ..

theorem note_other (other : x ≠ key) : (m.note key value).pending x = m.pending x := Function.update_of_ne other ..

theorem merged_store_other (other : x ≠ key) : (m.store key value).merged x = m.merged x := by
  rw [merged, merged, store_other other]
  rfl

theorem merged_note_other (other : x ≠ key) : (m.note key value).merged x = m.merged x := by
  rw [merged, merged, note_other other]
  rfl

theorem merged_note_self : (m.note key value).merged key = value := by rw [merged, note_self, Option.getD_some]

theorem spare_stored : (m.spare key).stored = m.stored := by
  rw [spare]
  split <;> rfl

/-- Only an entry of the key itself that deletes it is dropped. -/
theorem spare_pending : (m.spare key).pending x = if x = key ∧ m.pending key = some none then none else m.pending x := by
  rw [spare]
  by_cases struck : m.pending key = some none
  · by_cases same : x = key
    · simp [struck, same]
    · simp [struck, same]
  · simp [struck]

end Entries

/-- A write takes effect unless its block could not be written. -/
def Lands (out : Except String Unit) : Prop := out = .ok () ∨ out = .error "error broadcasting"

/-- The batch stays open unless the commit returned without error. -/
inductive Commits (m : Ledger) : Except String Unit → Ledger → Prop
  | done : Commits m (.ok ()) ⟨m.merged, fun _ => none⟩
  | unsent : Commits m (.error "error broadcasting") ⟨m.merged, m.pending⟩
  | unwritten : Commits m (.error "error writing new block") m

/-- What one call does, by what it returned. -/
inductive Does (m : Ledger) : StoreCall → Except String Unit → Ledger → Prop
  | put {key value out} : Lands out → Does m (.put key value) out ((m.store key (some value)).spare key)
  | delete {key out} : Lands out → Does m (.delete key) out (m.store key none)
  | failed {call} : (∃ key value, call = .put key value) ∨ (∃ key, call = .delete key) →
      Does m call (.error "error writing new block") m
  | noted {key value} : Does m (.batchPut key value) (.ok ()) (m.note key (some value))
  | noteFull {key value out m'} : Commits (m.note key (some value)) out m' → Does m (.batchPut key value) out m'
  | struck {key} : Does m (.batchDelete key) (.ok ()) (m.note key none)
  | struckFull {key out m'} : Commits (m.note key none) out m' → Does m (.batchDelete key) out m'
  | commit {out m'} : Commits m out m' → Does m .commit out m'

inductive Run (m : Ledger) : List (StoreCall × Except String Unit) → Ledger → Prop
  | start : Run m [] m
  | next {calls m' call out m''} : Run m calls m' → Does m' call out m'' → Run m (calls ++ [(call, out)]) m''

end Ledger

/-- The ledger of a datastore: it says what is read, and what a commit would leave. -/
structure Net.Mirrors (net : Net) (s : Datastore) (m : Ledger) : Prop where
  still : net.Still s.replica
  stored : ∀ key, s.replica.set.store.lookup (valueKey key) = m.stored key
  known : ∀ e ∈ s.tombstones, e.id ∈ s.replica.processed
  puts : ∀ e ∈ s.elements, m.pending e.key = some (some e.value)
  kept : ∀ key value, m.pending key = some (some value) → key ∈ s.elements.map Element.key
  rest : ∀ key, key ∉ s.elements.map Element.key →
    ∃ q, Winner (net.env.ranks key (survivors s.replica.set.store key (removedBy s.tombstones key))) q ∧
      q.map (fun r => (ofLex r).2) = m.merged key

section Mirrors

variable {net : Net} {s t : Datastore} {m : Ledger}

theorem Net.Mirrors.congr (mirrors : net.Mirrors s m) (replica : t.replica = s.replica) (elements : t.elements = s.elements)
    (tombstones : t.tombstones = s.tombstones) : net.Mirrors t m where
  still := replica ▸ mirrors.still
  stored := by rw [replica]; exact mirrors.stored
  known := by rw [replica, tombstones]; exact mirrors.known
  puts := by rw [elements]; exact mirrors.puts
  kept := by rw [elements]; exact mirrors.kept
  rest := by rw [replica, elements, tombstones]; exact mirrors.rest

/-- Outside the batch's own puts, a key that has no pending entry or is to be deleted. -/
theorem Net.Mirrors.pending_rest (mirrors : net.Mirrors s m) {key : Key} (absent : key ∉ s.elements.map Element.key) :
    m.pending key = none ∨ m.pending key = some none := by
  cases pending : m.pending key with
  | none => exact Or.inl rfl
  | some value =>
    cases value with
    | none => exact Or.inr rfl
    | some value => exact absurd (mirrors.kept key value pending) absent

theorem removedBy_nil (key : Key) : removedBy [] key = ∅ := by
  ext x
  simp [removedBy]

theorem removedBy_append (first second : List Element) (key : Key) :
    removedBy (first ++ second) key = removedBy first key ∪ removedBy second key := by
  ext x
  simp only [removedBy, List.mem_append, Set.mem_ofPred_eq, Set.mem_union, or_and_right, exists_or]

/-- A batch that is not open would change nothing. -/
theorem Net.Still.mirrors {w : Replica} (still : net.Still w) {stored : Key → Option Bytes}
    (reads : ∀ key, w.set.store.lookup (valueKey key) = stored key) : net.Mirrors ⟨w, none⟩ ⟨stored, fun _ => none⟩ where
  still := still
  stored := reads
  known := fun _ none => by cases none
  puts := fun _ none => by cases none
  kept := fun _ _ none => by cases none
  rest := fun key _ => by
    obtain ⟨q, stores, winner⟩ := still.settled key
    refine ⟨q, ?_, ?_⟩
    · rw [show (⟨w, none⟩ : Datastore).tombstones = [] from rfl, removedBy_nil]
      exact winner
    · rw [← stores.lookup_value, reads]
      rfl

/-- What is read after the batch has been merged is what the ledger says of it. -/
theorem Net.Mirrors.merged (honest : net.Honest) (genuine : net.Genuine) (mirrors : net.Mirrors s m) {b : Cid} {w : Replica}
    (published : net.Publishes s.elements s.tombstones b s.replica w) (key : Key) :
    w.set.store.lookup (valueKey key) = m.merged key := by
  by_cases own : key ∈ s.elements.map Element.key
  · obtain ⟨e, member, rfl⟩ := List.mem_map.mp own
    rw [(published.stores_element honest genuine mirrors.still member).lookup_value, Ledger.merged, mirrors.puts e member]
    rfl
  · obtain ⟨q, winner, stores⟩ := published.stores_rest mirrors.still own
    obtain ⟨q', winner', value⟩ := mirrors.rest key own
    obtain rfl := winner.unique winner'
    rw [stores.lookup_value, value]

/-- The batch is still open after its block has been merged, and would change nothing more. -/
theorem Net.Mirrors.unsent (honest : net.Honest) (genuine : net.Genuine) (mirrors : net.Mirrors s m) {b : Cid} {w : Replica}
    (published : net.Publishes s.elements s.tombstones b s.replica w) :
    net.Mirrors ⟨w, s.curDelta⟩ ⟨m.merged, m.pending⟩ where
  still := published.still genuine.produced mirrors.still
  stored := mirrors.merged honest genuine published
  known := fun e member => by
    rw [published.processed]
    exact Finset.mem_insert_of_mem (mirrors.known e member)
  puts := mirrors.puts
  kept := mirrors.kept
  rest := fun key absent => by
    obtain ⟨q, winner, value⟩ := mirrors.rest key absent
    refine ⟨q, ?_, ?_⟩
    · rw [published.survivors_rest absent]
      exact (Set.union_self (removedBy s.tombstones key)).symm ▸ winner
    · rw [value]
      rcases mirrors.pending_rest absent with none | struck
      · simp only [Ledger.merged, none, Option.getD_none]
      · simp only [Ledger.merged, struck, Option.getD_some]

/-- `publishDelta` commits the ledger. -/
theorem Net.Mirrors.publishDelta (honest : net.Honest) (genuine : net.Genuine) (mirrors : net.Mirrors s m) {i : ℕ}
    {choices : List Choice} {out : Except String Unit} (ran : net.publishDelta i choices s = some (out, t)) :
    ∃ m', m.Commits out m' ∧ net.Mirrors t m' := by
  obtain ⟨w, curDelta⟩ := s
  cases curDelta with
  | none =>
    obtain ⟨rfl, rfl⟩ := Prod.mk.inj (Option.some.inj ran)
    refine ⟨_, .done, mirrors.still.mirrors (fun key => ?_)⟩
    obtain ⟨q, winner, value⟩ := mirrors.rest key List.not_mem_nil
    obtain ⟨q', stores, winner'⟩ := mirrors.still.settled key
    rw [show (⟨w, none⟩ : Datastore).tombstones = [] from rfl, removedBy_nil] at winner
    obtain rfl := winner.unique winner'
    rw [stores.lookup_value, value]
  | some delta =>
    obtain ⟨⟨out', w'⟩, inner, ended⟩ := Option.map_eq_some_iff.mp ran
    rcases publish_alone honest genuine.produced mirrors.still inner with ⟨rfl, rfl⟩ | ⟨rfl | rfl, b, published⟩
    · obtain ⟨rfl, rfl⟩ := Prod.mk.inj ended
      exact ⟨m, .unwritten, mirrors.congr rfl rfl rfl⟩
    · obtain ⟨rfl, rfl⟩ := Prod.mk.inj ended
      exact ⟨_, .done, (published.still genuine.produced mirrors.still).mirrors (mirrors.merged honest genuine published)⟩
    · obtain ⟨rfl, rfl⟩ := Prod.mk.inj ended
      exact ⟨_, .unsent, (mirrors.unsent honest genuine published).congr rfl rfl rfl⟩

/-- A put of its own. The block is new, so no open batch removes it. -/
theorem Net.Mirrors.put (honest : net.Honest) (genuine : net.Genuine) (mirrors : net.Mirrors s m) {key : Key} {value : Bytes}
    {b : Cid} {w : Replica} (published : net.Publishes (add key value) [] b s.replica w) :
    net.Mirrors { s with replica := w } ((m.store key (some value)).spare key) := by
  have member : (⟨key, "", value⟩ : Element) ∈ add key value := List.mem_singleton.mpr rfl
  have apart : ∀ {x}, x ≠ key → x ∉ (add key value).map Element.key := fun different here =>
    different (List.mem_singleton.mp here)
  refine ⟨published.still genuine.produced mirrors.still, fun x => ?_, fun e known => ?_, fun e own => ?_, fun x v noted => ?_,
    fun x absent => ?_⟩
  · rw [Ledger.spare_stored]
    by_cases same : x = key
    · subst same
      rw [(published.stores_element honest genuine mirrors.still member).lookup_value, Ledger.store_self]
      rfl
    · obtain ⟨q, winner, stores⟩ := published.stores_rest mirrors.still (apart same)
      obtain ⟨q', before, winner'⟩ := mirrors.still.settled x
      rw [removedBy_nil] at winner
      obtain rfl := winner.unique winner'
      rw [stores.lookup_value, Ledger.store_other same, ← mirrors.stored, before.lookup_value]
  · rw [published.processed]
    exact Finset.mem_insert_of_mem (mirrors.known e known)
  · have noted := mirrors.puts e own
    have unstruck : ¬ (e.key = key ∧ (m.store key (some value)).pending key = some none) := by
      rintro ⟨rfl, struck⟩
      cases noted.symm.trans struck
    rw [Ledger.spare_pending, if_neg unstruck]
    exact noted
  · rw [Ledger.spare_pending] at noted
    split at noted
    · cases noted
    · exact mirrors.kept x v noted
  · obtain ⟨q, winner, left⟩ := mirrors.rest x absent
    by_cases same : x = key
    · subst same
      have fresh : b ∉ removedBy s.tombstones x := by
        rintro ⟨e, known, _, rfl⟩
        exact published.fresh genuine mirrors.still .refl (mirrors.known e known)
      refine ⟨some (toLex (net.priority b, value)), ?_, ?_⟩
      · have own : x ∈ (add x value).map Element.key := List.mem_singleton.mpr rfl
        have rank : net.env.rank x b = some (toLex (net.priority b, value)) := by
          have inBlock : (⟨x, "", value⟩ : Element) ∈ (net.block b).delta.elements := published.elements_eq ▸ member
          rw [Env.rank, net.serves, Option.bind_some, (genuine.produced b).rank inBlock]
          rfl
        change Winner (net.env.ranks x (survivors w.set.store x (removedBy s.tombstones x))) _
        rw [published.survivors_element genuine mirrors.still own fresh, removedBy_nil, Set.empty_union,
          net.env.ranks_insert rank]
        have best := winner.insert (toLex (net.priority b, value))
        rw [challenge_of_lt (fun r here => ?_)] at best
        · exact best
        · subst here
          obtain ⟨y, ⟨element, _⟩, other⟩ := winner.1
          have lower := mirrors.still.rank_le honest element other
          exact Prod.Lex.lt_iff.mpr (Or.inl (lower.trans_lt (honest.above_heads mirrors.still.truth published.named)))
      · rw [Ledger.merged, Ledger.spare_pending, Ledger.spare_stored, Ledger.store_self]
        rcases mirrors.pending_rest absent with none | struck
        · simp [Ledger.store, none]
        · simp [Ledger.store, struck]
    · refine ⟨q, ?_, ?_⟩
      · rw [published.survivors_rest (apart same), removedBy_nil, Set.empty_union]
        exact winner
      · rw [left, Ledger.merged, Ledger.merged, Ledger.spare_pending, Ledger.spare_stored, if_neg (fun both => same both.1),
          Ledger.store_other same]
        rfl

/-- Tombstones for all live elements of a key leave none. -/
theorem survivors_removed {store : SetStore} {key : Key} {tombstones : List Element} (keys : ∀ e ∈ tombstones, e.key = key)
    (ids : ∀ x, (∃ e ∈ tombstones, e.id = x) ↔ x ∈ survivors store key ∅) (others : Set Cid) :
    survivors store key (removedBy tombstones key ∪ others) = ∅ := by
  ext x
  refine ⟨fun live => ?_, fun no => no.elim⟩
  obtain ⟨e, member, same⟩ := (ids x).mpr ⟨live.1, live.2.1, id⟩
  exact live.2.2 (Or.inl ⟨e, member, keys e member, same⟩)

theorem removedBy_other {key x : Key} {tombstones : List Element} (keys : ∀ e ∈ tombstones, e.key = key) (other : x ≠ key) :
    removedBy tombstones x = ∅ := by
  ext y
  refine ⟨fun ⟨e, member, same, _⟩ => ?_, fun no => no.elim⟩
  exact other (same.symm.trans (keys e member))

theorem winner_empty (env : Env) (key : Key) : Winner (env.ranks key ∅) none := by
  refine Set.eq_empty_iff_forall_notMem.mpr ?_
  rintro r ⟨x, no, _⟩
  exact no

/-- A deletion of its own. -/
theorem Net.Mirrors.delete (genuine : net.Genuine) (mirrors : net.Mirrors s m) {key : Key} {tombstones : List Element}
    (keys : ∀ e ∈ tombstones, e.key = key)
    (ids : ∀ x, (∃ e ∈ tombstones, e.id = x) ↔ x ∈ survivors s.replica.set.store key ∅) {b : Cid} {w : Replica}
    (published : net.Publishes [] tombstones b s.replica w) : net.Mirrors { s with replica := w } (m.store key none) where
  still := published.still genuine.produced mirrors.still
  stored := fun x => by
    obtain ⟨q, winner, stores⟩ := published.stores_rest mirrors.still (List.not_mem_nil (a := x))
    rw [stores.lookup_value]
    by_cases same : x = key
    · subst same
      rw [← Set.union_empty (removedBy tombstones x), survivors_removed keys ids] at winner
      obtain rfl := winner.unique (winner_empty net.env x)
      exact Ledger.store_self.symm
    · obtain ⟨q', before, winner'⟩ := mirrors.still.settled x
      rw [removedBy_other keys same] at winner
      obtain rfl := winner.unique winner'
      rw [← before.lookup_value, mirrors.stored]
      exact (Ledger.store_other same).symm
  known := fun e member => by
    rw [published.processed]
    exact Finset.mem_insert_of_mem (mirrors.known e member)
  puts := mirrors.puts
  kept := mirrors.kept
  rest := fun x absent => by
    change ∃ q, Winner (net.env.ranks x (survivors w.set.store x (removedBy s.tombstones x))) q ∧ _
    rw [published.survivors_rest List.not_mem_nil]
    by_cases same : x = key
    · subst same
      rw [survivors_removed keys ids]
      refine ⟨none, winner_empty net.env x, ?_⟩
      rcases mirrors.pending_rest absent with none | struck
      · simp [Ledger.merged, Ledger.store, none]
      · simp [Ledger.merged, Ledger.store, struck]
    · obtain ⟨q, winner, left⟩ := mirrors.rest x absent
      rw [removedBy_other keys same, Set.empty_union]
      refine ⟨q, winner, ?_⟩
      rw [left, Ledger.merged_store_other same]

/-- Where nothing of a key is live, its deletion is no write. -/
theorem Net.Mirrors.delete_absent (mirrors : net.Mirrors s m) {key : Key}
    (gone : survivors s.replica.set.store key ∅ = ∅) : net.Mirrors s (m.store key none) := by
  have empty : ∀ ids, survivors s.replica.set.store key ids = ∅ := fun ids => by
    refine Set.eq_empty_iff_forall_notMem.mpr (fun x live => ?_)
    exact Set.eq_empty_iff_forall_notMem.mp gone x ⟨live.1, live.2.1, id⟩
  refine ⟨mirrors.still, fun x => ?_, mirrors.known, mirrors.puts, mirrors.kept, fun x absent => ?_⟩
  · by_cases same : x = key
    · subst same
      obtain ⟨q, stores, winner⟩ := mirrors.still.settled x
      rw [gone] at winner
      obtain rfl := winner.unique (winner_empty net.env x)
      rw [stores.lookup_value]
      exact Ledger.store_self.symm
    · rw [mirrors.stored]
      exact (Ledger.store_other same).symm
  · by_cases same : x = key
    · subst same
      rw [empty]
      refine ⟨none, winner_empty net.env x, ?_⟩
      rcases mirrors.pending_rest absent with none | struck
      · simp [Ledger.merged, Ledger.store, none]
      · simp [Ledger.merged, Ledger.store, struck]
    · obtain ⟨q, winner, left⟩ := mirrors.rest x absent
      refine ⟨q, winner, ?_⟩
      rw [left, Ledger.merged_store_other same]

/-- A put of the batch. -/
theorem Net.Mirrors.batchPut (mirrors : net.Mirrors s m) {key : Key} {value : Bytes} (once : key ∉ s.elements.map Element.key) :
    net.Mirrors (s.addToDelta key value) (m.note key (some value)) := by
  have elements : (s.addToDelta key value).elements = s.elements ++ [⟨key, "", value⟩] := rfl
  have tombstones : (s.addToDelta key value).tombstones = s.tombstones := List.append_nil _
  refine ⟨mirrors.still, mirrors.stored, by rw [tombstones]; exact mirrors.known, fun e member => ?_, fun x v noted => ?_,
    fun x absent => ?_⟩
  · rw [elements] at member
    rcases List.mem_append.mp member with old | new
    · have other : e.key ≠ key := fun same => once (same ▸ List.mem_map_of_mem old)
      exact (Ledger.note_other other).trans (mirrors.puts e old)
    · obtain rfl := List.mem_singleton.mp new
      exact Ledger.note_self
  · rw [elements, List.map_append, List.mem_append]
    by_cases same : x = key
    · exact Or.inr (List.mem_singleton.mpr same)
    · exact Or.inl (mirrors.kept x v ((Ledger.note_other same).symm.trans noted))
  · rw [elements, List.map_append, List.mem_append, not_or] at absent
    have other : x ≠ key := fun same => absent.2 (List.mem_singleton.mpr same)
    obtain ⟨q, winner, left⟩ := mirrors.rest x absent.1
    refine ⟨q, by rw [tombstones]; exact winner, ?_⟩
    rw [left, Ledger.merged_note_other other]

/-- A deletion of the batch: what is live now, and what the batch has put itself. -/
theorem Net.Mirrors.batchDelete (mirrors : net.Mirrors s m) {key : Key} {tombstones : List Element}
    (keys : ∀ e ∈ tombstones, e.key = key)
    (ids : ∀ x, (∃ e ∈ tombstones, e.id = x) ↔ x ∈ survivors s.replica.set.store key ∅) :
    net.Mirrors (s.updateDeltaWithRemove key tombstones) (m.note key none) := by
  have elements : (s.updateDeltaWithRemove key tombstones).elements = s.elements.filter (fun e => e.key ≠ key) := rfl
  have all : (s.updateDeltaWithRemove key tombstones).tombstones = s.tombstones ++ tombstones := rfl
  refine ⟨mirrors.still, mirrors.stored, fun e member => ?_, fun e member => ?_, fun x v noted => ?_, fun x absent => ?_⟩
  · rw [all] at member
    rcases List.mem_append.mp member with old | new
    · exact mirrors.known e old
    · exact mirrors.still.elems key e.id ((ids e.id).mp ⟨e, new, rfl⟩).1
  · rw [elements, List.mem_filter] at member
    have other : e.key ≠ key := by simpa using member.2
    exact (Ledger.note_other other).trans (mirrors.puts e member.1)
  · have other : x ≠ key := by
      rintro rfl
      rw [Ledger.note_self] at noted
      cases noted
    obtain ⟨e, member, rfl⟩ := List.mem_map.mp (mirrors.kept x v ((Ledger.note_other other).symm.trans noted))
    rw [elements]
    exact List.mem_map_of_mem (List.mem_filter.mpr ⟨member, by simpa using other⟩)
  · rw [all, removedBy_append]
    by_cases same : x = key
    · subst same
      refine ⟨none, ?_, Ledger.merged_note_self.symm⟩
      rw [Set.union_comm]
      exact (survivors_removed keys ids _).symm ▸ winner_empty net.env x
    · have before : x ∉ s.elements.map Element.key := by
        intro own
        obtain ⟨e, member, rfl⟩ := List.mem_map.mp own
        rw [elements] at absent
        exact absent (List.mem_map_of_mem (List.mem_filter.mpr ⟨member, by simpa using same⟩))
      obtain ⟨q, winner, left⟩ := mirrors.rest x before
      refine ⟨q, ?_, ?_⟩
      · rw [removedBy_other keys same, Set.union_empty]
        exact winner
      · rw [left, Ledger.merged_note_other same]

variable {opts : BatchOptions} {i : ℕ} {choices : List Choice} {out : Except String Unit}

theorem Net.Mirrors.call_put (honest : net.Honest) (genuine : net.Genuine) (mirrors : net.Mirrors s m) {key : Key} {value : Bytes}
    (ran : net.call opts i choices s (.put key value) = some (out, t)) :
    ∃ m', m.Does (.put key value) out m' ∧ net.Mirrors t m' := by
  obtain ⟨⟨result, w⟩, inner, ended⟩ := Option.map_eq_some_iff.mp ran
  obtain ⟨rfl, rfl⟩ := Prod.mk.inj ended
  rcases publish_alone honest genuine.produced mirrors.still inner with ⟨rfl, rfl⟩ | ⟨lands, b, published⟩
  · exact ⟨m, .failed (Or.inl ⟨key, value, rfl⟩), mirrors.congr rfl rfl rfl⟩
  · exact ⟨_, .put lands, mirrors.put honest genuine published⟩

theorem Net.Mirrors.call_delete (honest : net.Honest) (genuine : net.Genuine) (mirrors : net.Mirrors s m) {key : Key}
    (ran : net.call opts i choices s (.delete key) = some (out, t)) :
    ∃ m', m.Does (.delete key) out m' ∧ net.Mirrors t m' := by
  obtain ⟨⟨result, w⟩, inner, ended⟩ := Option.map_eq_some_iff.mp ran
  obtain ⟨rfl, rfl⟩ := Prod.mk.inj ended
  obtain ⟨tombstones, removed, keys, ids⟩ := rmv_run net.env i s.replica.set key
  obtain ⟨rest, inner⟩ := set_run (Context.bind _) removed inner
  simp only [Prog.bind] at inner
  split at inner
  · rename_i empty
    obtain ⟨rfl, rfl⟩ := Prod.mk.inj (Option.some.inj inner)
    have gone : survivors s.replica.set.store key ∅ = ∅ := by
      refine Set.eq_empty_iff_forall_notMem.mpr (fun x live => ?_)
      obtain ⟨e, member, _⟩ := (ids x).mpr live
      rw [List.isEmpty_iff.mp empty] at member
      cases member
    exact ⟨_, .delete (Or.inl rfl), (mirrors.delete_absent gone).congr rfl rfl rfl⟩
  · rcases publish_alone honest genuine.produced mirrors.still inner with ⟨rfl, same⟩ | ⟨lands, b, published⟩
    · exact ⟨m, .failed (Or.inr ⟨key, rfl⟩), mirrors.congr same rfl rfl⟩
    · exact ⟨_, .delete lands, mirrors.delete genuine keys ids published⟩

/-- A batch call that has noted its part may commit at once. -/
theorem Net.Mirrors.commitOver (honest : net.Honest) (genuine : net.Genuine) (mirrors : net.Mirrors s m)
    (ran : net.commitOver opts i choices s = some (out, t)) :
    (out = .ok () ∧ net.Mirrors t m) ∨ ∃ m', m.Commits out m' ∧ net.Mirrors t m' := by
  unfold Net.commitOver at ran
  split at ran
  · exact Or.inr (mirrors.publishDelta honest genuine ran)
  · obtain ⟨rfl, rfl⟩ := Prod.mk.inj (Option.some.inj ran)
    exact Or.inl ⟨rfl, mirrors⟩

/-- Each call does to the ledger what it says, by what it returned. -/
theorem Net.Mirrors.call (honest : net.Honest) (genuine : net.Genuine) (mirrors : net.Mirrors s m) {call : StoreCall}
    (fits : s.fits call = true) (ran : net.call opts i choices s call = some (out, t)) :
    ∃ m', m.Does call out m' ∧ net.Mirrors t m' := by
  cases call with
  | put key value => exact mirrors.call_put honest genuine ran
  | delete key => exact mirrors.call_delete honest genuine ran
  | batchPut key value =>
    have once : key ∉ s.elements.map Element.key := by simpa using ((Bool.and_eq_true _ _).mp fits).2
    rcases (mirrors.batchPut once).commitOver honest genuine ran with ⟨rfl, after⟩ | ⟨m', commits, after⟩
    · exact ⟨_, .noted, after⟩
    · exact ⟨m', .noteFull commits, after⟩
  | batchDelete key =>
    obtain ⟨tombstones, removed, keys, ids⟩ := rmv_run net.env i s.replica.set key
    have noted : net.rmvToDelta i s key = some (.ok (s.updateDeltaWithRemove key tombstones)) := by
      rw [Net.rmvToDelta, removed]
      rfl
    simp only [Net.call, noted] at ran
    rcases (mirrors.batchDelete keys ids).commitOver honest genuine ran with ⟨rfl, after⟩ | ⟨m', commits, after⟩
    · exact ⟨_, .struck, after⟩
    · exact ⟨m', .struckFull commits, after⟩
  | commit =>
    obtain ⟨m', commits, after⟩ := mirrors.publishDelta honest genuine ran
    exact ⟨m', .commit commits, after⟩

theorem Net.Session.mirrors (honest : net.Honest) (genuine : net.Genuine) (mirrors : net.Mirrors s m)
    {calls : List (StoreCall × Except String Unit)} (session : net.Session opts s calls t) :
    ∃ m', m.Run calls m' ∧ net.Mirrors t m' := by
  induction session with
  | start => exact ⟨m, .start, mirrors⟩
  | next _ fits ran ih =>
    obtain ⟨m', run, mirrored⟩ := ih
    obtain ⟨m'', does, after⟩ := mirrored.call honest genuine fits ran
    exact ⟨m'', .next run does, after⟩

end Mirrors

/-- What `Get` and `Has` answer. -/
def Net.Answers (net : Net) (w : Replica) (stored : Key → Option Bytes) : Prop :=
  ∀ key i, (element key).run (OpenTela.exec net.env i) w.set = some (.ok (stored key), w.set) ∧
    (inSet key).run (OpenTela.exec net.env i) w.set = some (.ok (stored key).isSome, w.set)

namespace Journal

/-- Two batches, the second on top of the first. -/
def block : Cid → Block
  | "a" => ⟨newDelta [{ key := ["k"], value := [5] }, { key := ["m"], value := [6] }] [] 0, []⟩
  | "b" => ⟨newDelta [{ key := ["m"], value := [7] }] [{ key := ["k"], id := "a" }] 1, ["a"]⟩
  | _ => ⟨.of [] [] 0, []⟩

def net : Net := .plain block

theorem names_eq {a b : Cid} (named : net.Names a b) : a = "a" ∧ b = "b" := by
  simp only [Net.Names, Net.links, Delta.tombIds, net, Net.plain, block] at named
  split at named
  · simp [newDelta, Delta.of] at named
  · simp only [List.mem_singleton, newDelta, Delta.of, Set.mem_ofPred_eq] at named
    rcases named with rfl | ⟨_, e, member, _, rfl⟩
    · exact ⟨rfl, rfl⟩
    · obtain rfl := member
      exact ⟨rfl, rfl⟩
  · simp [Delta.of] at named

theorem honest : net.Honest where
  higher := by
    intro c l link
    obtain ⟨rfl, rfl⟩ := names_eq (Or.inl link)
    decide

theorem genuine : net.Genuine where
  produced := by
    intro c
    simp only [net, Net.plain, block]
    split <;> decide
  acyclic := by
    intro c cycle
    obtain ⟨b, first, _⟩ := Relation.TransGen.head'_iff.mp cycle
    obtain ⟨a, _, last⟩ := Relation.TransGen.tail'_iff.mp cycle
    have here := (names_eq first).1
    rw [(names_eq last).2] at here
    exact absurd here (by decide)

/-- Calls with the choices made for them; a call that does not fit or does not return is left out. -/
def serve (moves : List (StoreCall × List Choice)) : List (StoreCall × Except String Unit) × Datastore :=
  moves.foldl (fun done move =>
    match if done.2.fits move.1 then net.call ⟨fun _ => 0, 1⟩ 0 move.2 done.2 move.1 else none with
    | none => done
    | some (out, s) => (done.1 ++ [(move.1, out)], s)) ([], ⟨Crew.fresh.state, none⟩)

theorem serve_session (moves : List (StoreCall × List Choice)) :
    net.Session ⟨fun _ => 0, 1⟩ ⟨Crew.fresh.state, none⟩ (serve moves).1 (serve moves).2 := by
  induction moves using List.reverseRecOn with
  | nil => exact .start
  | append_singleton moves move ih =>
    rw [serve, List.foldl_append, List.foldl_cons, List.foldl_nil, ← serve]
    split
    · exact ih
    · rename_i out s called
      split at called
      · rename_i fits
        exact .next ih fits called
      · cases called

/-- The second batch is merged, and its broadcast does not go out. -/
def moves : List (StoreCall × List Choice) :=
  [(.batchPut ["k"] [5], []), (.batchPut ["m"] [6], []), (.commit, List.replicate 40 { cid := "a" }),
    (.batchDelete ["k"], []), (.batchPut ["m"] [7], []),
    (.commit, List.replicate 2 { cid := "b" } ++ List.replicate 40 { ok := false })]

end Journal

end OpenTela
