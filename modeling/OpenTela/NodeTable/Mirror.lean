import OpenTela.Crdt.Convergence
import OpenTela.NodeTable.Table

namespace OpenTela

/-- The hooks `GetCRDTStore` installs. -/
def Hook.program (node : Node) : Hook → TableM Unit
  | .put key value => putHook node key value
  | .delete key => deleteHook key

def runHooks (node : Node) (clock : ℕ → ℤ) : List Hook → TableWorld Unit → Option (TableWorld Unit)
  | [], t => some t
  | h :: rest, t =>
    match (h.program node).run (execTable clock ()) t with
    | some (.ok (), u) => runHooks node clock rest u
    | _ => none

/-- One merge, and what its hook calls do to the table. -/
def mergeHooked (node : Node) (clock : ℕ → ℤ) (x : Delivery) (w : World Unit) (t : TableWorld Unit) :
    Option (World Unit × TableWorld Unit) :=
  match (merge x.delta x.id).run (exec x.env ()) w with
  | some (.ok (), u) => (runHooks node clock ((u.hooks ()).drop (w.hooks ()).length) t).map (fun v => (u, v))
  | _ => none

/-- Every key but the node's own has a row exactly when the store has it, with the services of its value. -/
def Mirrors (node : Node) (w : World Unit) (t : TableWorld Unit) : Prop :=
  ∀ key, key ≠ peerKey node.myID →
    (t.table.lookup key).map Peer.service = (w.store.lookup (valueKey key)).map (fun v => (node.unmarshal v).service)

/-- A delta from another replica: produced, all blocks up to it served, and only records of peers that have not left. -/
structure Incoming (node : Node) (past : List Delivery) (x : Delivery) : Prop where
  produced : x.delta.Produced
  served : ∀ y ∈ past ++ [x], x.env.dag y.id = some y.delta
  present : ∀ e ∈ x.delta.elements, (node.unmarshal e.value).status ≠ LEFT

/-- For every key but the node's own that the delta tombstones, no element survives, or the
delta has an element of the key that is not tombstoned and above all survivors. -/
def Replaces (node : Node) (x : Delivery) (s : SetStore) : Prop :=
  ∀ key, key ≠ peerKey node.myID → (x.delta.tombIds key).Nonempty →
    survivors s key (x.delta.tombIds key) = ∅ ∨
    ∃ e ∈ x.delta.elements, e.key = key ∧ x.id ∉ tombsOf s key ∧ x.id ∉ x.delta.tombIds key ∧
      ∀ y ∈ survivors s key (x.delta.tombIds key), ∀ r, x.env.rank key y = some r → r < toLex (x.delta.priority, e.value)

section Hooks

variable {node : Node} (clock : ℕ → ℤ)

theorem putHook_run (enforcement : node.requireSignedBinary = false) (key : Key) {value : Bytes}
    (present : (node.unmarshal value).status ≠ LEFT) (t : TableWorld Unit) :
    ∃ u, (putHook node key value).run (execTable clock ()) t = some (.ok (), u) ∧
      (∀ k, k ≠ key → u.table.lookup k = t.table.lookup k) ∧
      (key ≠ peerKey node.myID → (u.table.lookup key).map Peer.service = some (node.unmarshal value).service) := by
  by_cases own : key = peerKey node.myID
  · refine ⟨t, ?_, fun _ _ => rfl, fun other => absurd own other⟩
    rw [putHook, if_pos own]
    rfl
  · let peer : Peer := { node.unmarshal value with connected := (t.table.lookup key).elim false Peer.connected }.published
    let read : TableWorld Unit := { t with history := t.history ++ [.read () key] }
    obtain ⟨u, run, table⟩ := hookRecord_run node clock () key peer read
    have accepted : node.accepts read.table peer =
        some { peer with signedBuild := node.signed peer, trustLevel := node.trust peer.identityAttestation } := by
      have stays : peer.status ≠ LEFT := present
      simp [Node.accepts, Node.vetted, enforcement, stays]
    rw [accepted] at table
    have program : (putHook node key value).run (execTable clock ()) t =
        (hookRecord node key peer).run (execTable clock ()) read := by
      rw [putHook, if_neg own]
      rfl
    refine ⟨u, program.trans run, fun k other => ?_, fun _ => ?_⟩
    · rw [table]
      exact AList.lookup_insert_ne other
    · rw [table]
      simp only [Option.elim_some, AList.lookup_insert, Option.map_some]
      unfold stored
      split <;> rfl

theorem runHooks_append {clock : ℕ → ℤ} {first second : List Hook} {t u : TableWorld Unit} (ran : runHooks node clock first t = some u) :
    runHooks node clock (first ++ second) t = runHooks node clock second u := by
  induction first generalizing t with
  | nil =>
    cases ran
    rfl
  | cons h rest ih =>
    simp only [runHooks, List.cons_append] at ran ⊢
    split at ran
    · exact ih ran
    · cases ran

theorem runHooks_deletes (node : Node) (keys : List Key) (t : TableWorld Unit) :
    ∃ u, runHooks node clock (keys.map Hook.delete) t = some u ∧
      ∀ k, u.table.lookup k = if k ∈ keys then none else t.table.lookup k := by
  induction keys generalizing t with
  | nil => exact ⟨t, rfl, fun k => by simp⟩
  | cons key rest ih =>
    obtain ⟨u, ran, rows⟩ := ih { t with table := t.table.erase key }
    refine ⟨u, ran, fun k => ?_⟩
    rw [rows k]
    by_cases same : k = key
    · subst same
      simp
    · by_cases later : k ∈ rest
      · simp [later]
      · simp [same, later]

/-- The put hooks of elements with different keys: a row for each of them, the others as they were. -/
theorem runHooks_puts (enforcement : node.requireSignedBinary = false) (elems : List Element)
    (nodup : (elems.map Element.key).Nodup) (present : ∀ e ∈ elems, (node.unmarshal e.value).status ≠ LEFT)
    (t : TableWorld Unit) :
    ∃ u, runHooks node clock (elems.map (fun e => Hook.put e.key e.value)) t = some u ∧
      (∀ k, k ∉ elems.map Element.key → u.table.lookup k = t.table.lookup k) ∧
      ∀ e ∈ elems, e.key ≠ peerKey node.myID →
        (u.table.lookup e.key).map Peer.service = some (node.unmarshal e.value).service := by
  induction elems generalizing t with
  | nil => exact ⟨t, rfl, fun _ _ => rfl, fun _ member => absurd member List.not_mem_nil⟩
  | cons e rest ih =>
    obtain ⟨fresh, nodup'⟩ := List.nodup_cons.mp nodup
    obtain ⟨v, first, others, row⟩ := putHook_run clock enforcement e.key
      (present e (List.mem_cons_self ..)) t
    obtain ⟨u, ran, kept, rows⟩ := ih nodup' (fun e' member => present e' (List.mem_cons_of_mem _ member)) v
    refine ⟨u, ?_, fun k absent => ?_, fun e' member other => ?_⟩
    · simp only [List.map_cons, runHooks, Hook.program, first]
      exact ran
    · simp only [List.map_cons, List.mem_cons, not_or] at absent
      rw [kept k absent.2, others k absent.1]
    · rcases List.mem_cons.mp member with rfl | later
      · rw [kept _ fresh]
        exact row other
      · exact rows e' later other

end Hooks

section Step

variable {node : Node} (clock : ℕ → ℤ) {past : List Delivery} {x : Delivery} {w : World Unit} {t : TableWorld Unit}

/-- The rows after one merge: a row for every element that was accepted, none for the other
keys that were tombstoned, and the rest as it was. -/
theorem mergeHooked_rows (enforcement : node.requireSignedBinary = false) (incoming : Incoming node past x)
    (sane : Sane x.env w.store) (free : w.mutex = none) :
    ∃ u v s, mergeHooked node clock x w t = some (u, v) ∧ (merge x.delta x.id).run (exec x.env ()) w = some (.ok (), u) ∧
      TombsCommitted x.env x.delta w.store s ∧ ElemsCommitted x.env x.delta x.id s u.store ∧
      (∀ e ∈ x.delta.elements, accepts s e.key x.id e.value x.delta.priority = true → e.key ≠ peerKey node.myID →
        (v.table.lookup e.key).map Peer.service = some (node.unmarshal e.value).service) ∧
      ∀ key, (∀ e ∈ x.delta.elements, e.key = key → accepts s e.key x.id e.value x.delta.priority = false) →
        ((x.delta.tombIds key).Nonempty → v.table.lookup key = none) ∧
        (¬ (x.delta.tombIds key).Nonempty → v.table.lookup key = t.table.lookup key) := by
  have block : x.env.dag x.id = some x.delta := incoming.served x (by simp)
  obtain ⟨u, s, run, _, buried, added, keys, _, members, hooks⟩ :=
    merge_run (i := ()) (incoming.produced.orderly _) block sane free
  let accepted := x.delta.elements.filter (fun e => accepts s e.key x.id e.value x.delta.priority)
  obtain ⟨t₁, deletes, gone⟩ := runHooks_deletes clock node keys t
  obtain ⟨v, puts, kept, rows⟩ := runHooks_puts clock enforcement accepted
    (incoming.produced.nodup.sublist (List.filter_sublist.map _))
    (fun e member => incoming.present e (List.mem_filter.mp member).1) t₁
  refine ⟨u, v, s, ?_, run, buried, added, fun e member test other => rows e (List.mem_filter.mpr ⟨member, test⟩) other,
    fun key refused => ?_⟩
  · simp only [mergeHooked, run, hooks, List.append_assoc, List.drop_left]
    rw [runHooks_append deletes]
    exact congrArg (Option.map (fun v => (u, v))) puts
  · have absent : key ∉ accepted.map Element.key := by
      intro member
      obtain ⟨e, here, same⟩ := List.mem_map.mp member
      obtain ⟨inDelta, test⟩ := List.mem_filter.mp here
      rw [refused e inDelta same] at test
      cases test
    rw [kept key absent, gone key]
    exact ⟨fun some => if_pos ((members key).mpr some), fun none => if_neg (fun member => none ((members key).mp member))⟩

/-- What the delta's element of a tombstoned key is compared with: the survivors. -/
theorem accepts_buried {env : Env} {d : Delta} (id : Id) {s₀ s : SetStore} (sane : Sane env s₀)
    (buried : TombsCommitted env d s₀ s) {key : Key} (some : (d.tombIds key).Nonempty) (value : Bytes)
    (nonempty : value ≠ []) :
    (accepts s key id value d.priority = true ↔ id ∉ tombsOf s₀ key ∧ id ∉ d.tombIds key ∧
      ∀ y ∈ survivors s₀ key (d.tombIds key), ∀ r, env.rank key y = .some r → r < toLex (d.priority, value)) ∧
    (s.lookup (valueKey key) = none ↔ survivors s₀ key (d.tombIds key) = ∅) := by
  have buries := (buried key).1 some
  obtain ⟨q, winner, stores⟩ := buries.best
  constructor
  · rw [accepts_iff id d.priority stores nonempty, buries.tombs, Set.mem_union, not_or, and_assoc]
    refine and_congr_right (fun _ => and_congr_right (fun _ => ⟨fun above y member r rank => ?_, fun above r here => ?_⟩))
    · obtain ⟨best, here, below⟩ := winner.isSome_of_mem ⟨y, member, rank⟩
      exact lt_of_le_of_lt below (above best here)
    · subst here
      obtain ⟨y, member, rank⟩ := winner.1
      exact above y member r rank
  · rw [stores.lookup_value, Option.map_eq_none_iff]
    constructor
    · rintro rfl
      refine Set.eq_empty_iff_forall_notMem.mpr (fun y member => ?_)
      obtain ⟨r, rank⟩ := sane.known key y member.1
      have here : r ∈ env.ranks key (survivors s₀ key (d.tombIds key)) := ⟨y, member, rank⟩
      rw [show env.ranks key (survivors s₀ key (d.tombIds key)) = ∅ from winner] at here
      exact here
    · intro empty
      cases q with
      | none => rfl
      | some r =>
        obtain ⟨y, member, _⟩ := winner.1
        rw [empty] at member
        exact absurd member (Set.notMem_empty y)

/-- A merge keeps the table a mirror exactly when every value it takes away is replaced. -/
theorem mergeHooked_mirrors (enforcement : node.requireSignedBinary = false) (incoming : Incoming node past x)
    (sane : Sane x.env w.store) (free : w.mutex = none) (mirrors : Mirrors node w t) :
    ∃ u v, mergeHooked node clock x w t = some (u, v) ∧ (merge x.delta x.id).run (exec x.env ()) w = some (.ok (), u) ∧
      (Mirrors node u v ↔ Replaces node x w.store) := by
  obtain ⟨u, v, s, hooked, run, buried, added, rows, others⟩ :=
    mergeHooked_rows clock (t := t) enforcement incoming sane free
  have block : x.env.dag x.id = some x.delta := incoming.served x (by simp)
  have value := fun e member => added.value incoming.produced block (buried.sane sane) (e := e) member
  have same : ∀ key, (∀ e ∈ x.delta.elements, e.key = key → accepts s e.key x.id e.value x.delta.priority = false) →
      u.store.lookup (valueKey key) = s.lookup (valueKey key) := by
    intro key refused
    by_cases own : key ∈ x.delta.keys
    · obtain ⟨e, member, rfl⟩ := List.mem_map.mp own
      rw [value e member, refused e member rfl]
      rfl
    · exact ((added key).2 own).value
  refine ⟨u, v, hooked, run, fun after key other some => ?_, fun replaces key other => ?_⟩
  · by_cases taken : ∃ e ∈ x.delta.elements, e.key = key ∧ accepts s e.key x.id e.value x.delta.priority = true
    · obtain ⟨e, member, rfl, test⟩ := taken
      exact Or.inr ⟨e, member, rfl,
        (accepts_buried x.id sane buried some e.value (incoming.produced.nonempty e member)).1.mp test⟩
    · have refused : ∀ e ∈ x.delta.elements, e.key = key → accepts s e.key x.id e.value x.delta.priority = false :=
        fun e member here => Bool.eq_false_iff.mpr (fun test => taken ⟨e, member, here, test⟩)
      have row := after key other
      rw [(others key refused).1 some, same key refused, Option.map_none, eq_comm, Option.map_eq_none_iff] at row
      exact Or.inl ((accepts_buried x.id sane buried some [0] (by simp)).2.mp row)
  · by_cases taken : ∃ e ∈ x.delta.elements, e.key = key ∧ accepts s e.key x.id e.value x.delta.priority = true
    · obtain ⟨e, member, rfl, test⟩ := taken
      rw [rows e member test other, value e member, if_pos test]
      rfl
    · have refused : ∀ e ∈ x.delta.elements, e.key = key → accepts s e.key x.id e.value x.delta.priority = false :=
        fun e member here => Bool.eq_false_iff.mpr (fun test => taken ⟨e, member, here, test⟩)
      rw [same key refused]
      by_cases some : (x.delta.tombIds key).Nonempty
      · have empty : survivors w.store key (x.delta.tombIds key) = ∅ := by
          refine (replaces key other some).resolve_right ?_
          rintro ⟨e, member, rfl, above⟩
          exact taken ⟨e, member, rfl,
            (accepts_buried x.id sane buried some e.value (incoming.produced.nonempty e member)).1.mpr above⟩
        rw [(others key refused).1 some,
          (accepts_buried x.id sane buried some [0] (by simp)).2.mpr empty]
        rfl
      · rw [(others key refused).2 some, ((buried key).2 some).value]
        exact mirrors key other

end Step

/-- Deltas from other replicas merged one at a time, each of which satisfies `P` on the store it finds. -/
inductive MirrorReach (node : Node) (clock : ℕ → ℤ) (P : Delivery → SetStore → Prop) :
    List Delivery → World Unit → TableWorld Unit → Prop
  | start : MirrorReach node clock P [] World.empty TableWorld.empty
  | next {past x w t u v} : MirrorReach node clock P past w t → Incoming node past x → P x w.store →
      mergeHooked node clock x w t = some (u, v) → MirrorReach node clock P (past ++ [x]) u v

/-- What holds of the set along such a run. -/
structure Mirrored (node : Node) (past : List Delivery) (w : World Unit) (t : TableWorld Unit) : Prop where
  merged : Merged (past.map Delivery.block) w.store
  tombs : ∀ key, tombsOf w.store key = namedIds (past.map Delivery.block) key
  free : w.mutex = none
  produced : ∀ y ∈ past, y.delta.Produced
  mirrors : Mirrors node w t

section Run

variable {node : Node} {clock : ℕ → ℤ} {past : List Delivery} {x : Delivery} {w : World Unit} {t : TableWorld Unit}

theorem Mirrored.sane (mirrored : Mirrored node past w t) (incoming : Incoming node past x) : Sane x.env w.store := by
  refine mirrored.merged.sane (fun b member => ?_) (fun b member => ?_)
  · obtain ⟨y, here, rfl⟩ := List.mem_map.mp member
    exact incoming.served y (List.mem_append_left _ here)
  · obtain ⟨y, here, rfl⟩ := List.mem_map.mp member
    exact mirrored.produced y here

theorem Mirrored.next (enforcement : node.requireSignedBinary = false) (mirrored : Mirrored node past w t)
    (incoming : Incoming node past x) {u : World Unit} {v : TableWorld Unit} (replaces : Replaces node x w.store)
    (ran : mergeHooked node clock x w t = some (u, v)) : Mirrored node (past ++ [x]) u v := by
  obtain ⟨u', v', hooked, run, exact⟩ :=
    mergeHooked_mirrors clock enforcement incoming (mirrored.sane incoming) mirrored.free mirrored.mirrors
  cases hooked.symm.trans ran
  have produced : ∀ y ∈ past ++ [x], y.delta.Produced := by
    intro y member
    rcases List.mem_append.mp member with old | new
    · exact mirrored.produced y old
    · exact List.mem_singleton.mp new ▸ incoming.produced
  obtain ⟨u', run', free, merged, tombs⟩ := mirrored.merged.delivery mirrored.free incoming.served produced
    (fun key _ named => Or.inl (by rw [mirrored.tombs]; exact named))
  cases run.symm.trans run'
  refine ⟨merged, fun key => ?_, free, produced, exact.mpr replaces⟩
  rw [tombs, mirrored.tombs, List.map_append, List.map_singleton, namedIds_next]
  rfl

theorem MirrorReach.mirrored (enforcement : node.requireSignedBinary = false)
    (reach : MirrorReach node clock (Replaces node) past w t) : Mirrored node past w t := by
  induction reach with
  | start =>
    exact ⟨Merged.empty, fun key => by simp [tombsOf, namedIds, Store.has, World.empty], rfl, by simp, fun key _ => rfl⟩
  | next _ incoming replaces ran ih => exact ih.next enforcement incoming replaces ran

end Run

/-- The node table mirrors the store as long as every delta replaces what it takes away; the
first one that leaves an older value standing breaks it. -/
theorem table_mirrors_store (node : Node) (clock : ℕ → ℤ) (enforcement : node.requireSignedBinary = false) :
    (∀ past w t, MirrorReach node clock (Replaces node) past w t → Mirrors node w t) ∧
    ∀ past w t x, MirrorReach node clock (Replaces node) past w t → Incoming node past x →
      ∃ u v, mergeHooked node clock x w t = some (u, v) ∧ (Mirrors node u v ↔ Replaces node x w.store) := by
  refine ⟨fun past w t reach => (reach.mirrored enforcement).mirrors, fun past w t x reach incoming => ?_⟩
  have mirrored := reach.mirrored enforcement
  obtain ⟨u, v, hooked, _, exact⟩ :=
    mergeHooked_mirrors clock enforcement incoming (mirrored.sane incoming) mirrored.free mirrored.mirrors
  exact ⟨u, v, hooked, exact⟩

namespace Withdrawn

def node : Node where
  myID := "me"
  crypto := { base58 := fun _ => none, base64 := fun _ => none, hex := fun _ => none, identityPayload := fun _ _ _ => [],
              verify := fun _ _ _ => false }
  unmarshal := fun value => { id := "worker", service := if value = [1] then [{ name := "llm" }] else [] }

def clock : ℕ → ℤ := fun _ => 1700000000

/-- Two records of a worker, and the delete of the second by a replica that has not seen the first. -/
def first : Delta := .of [{ key := ["worker"], value := [1] }] [] 1

def second : Delta := .of [{ key := ["worker"], value := [2] }] [] 2

def removal : Delta := .of [] [{ key := ["worker"], id := "b" }] 3

def dag (id : Id) : Option Delta :=
  if id = "a" then some first else if id = "b" then some second else if id = "c" then some removal else none

def deliver (id : Id) (delta : Delta) : Delivery := { env := Env.plain dag, id, delta }

theorem incoming (past : List Delivery) (x : Delivery) (produced : x.delta.Produced)
    (served : ∀ y ∈ past ++ [x], x.env.dag y.id = some y.delta) : Incoming node past x :=
  ⟨produced, served, fun e _ => by simp [node, LEFT]⟩

end Withdrawn

open Withdrawn in
/-- The delete arrives where the second record is the only one, and nothing survives it. -/
theorem table_mirrors_store_withdrawn : ∃ w t,
    MirrorReach node clock (Replaces node) [deliver "b" second, deliver "c" removal] w t ∧ Mirrors node w t := by
  have mirror := table_mirrors_store node clock rfl
  have incoming₁ := incoming [] (deliver "b" second) (by decide) (by decide)
  have incoming₂ := incoming [deliver "b" second] (deliver "c" removal) (by decide) (by decide)
  obtain ⟨w₁, t₁, ran₁, _⟩ := mirror.2 [] _ _ _ .start incoming₁
  have reach₁ : MirrorReach node clock (Replaces node) [deliver "b" second] w₁ t₁ := by
    refine .next .start incoming₁ (fun key _ some => ?_) ran₁
    obtain ⟨_, _, none, _⟩ := some
    cases none
  obtain ⟨w₂, t₂, ran₂, _⟩ := mirror.2 _ _ _ _ reach₁ incoming₂
  have reach₂ : MirrorReach node clock (Replaces node) [deliver "b" second, deliver "c" removal] w₂ t₂ := by
    refine .next reach₁ incoming₂ (fun key _ some => Or.inl (Set.eq_empty_iff_forall_notMem.mpr ?_)) ran₂
    obtain ⟨_, e, tomb, sameKey, _⟩ := some
    rintro y ⟨elem, _, fresh⟩
    obtain ⟨d, member, _⟩ := (reach₁.mirrored rfl).merged.elems key y elem
    cases List.mem_singleton.mp member
    cases List.mem_singleton.mp tomb
    exact fresh ⟨_, List.mem_singleton.mpr rfl, sameKey, rfl⟩
  exact ⟨w₂, t₂, reach₂, mirror.1 _ _ _ reach₂⟩

open Withdrawn in
/-- Where the first record is there too it survives the delete, but its row is gone. -/
theorem table_not_mirror : ¬ ∀ past w t, MirrorReach node clock (fun _ _ => True) past w t → Mirrors node w t := by
  intro always
  obtain ⟨⟨w₁, t₁⟩, ran₁⟩ : ∃ s, mergeHooked node clock (deliver "a" first) World.empty TableWorld.empty = some s := ⟨_, rfl⟩
  obtain ⟨⟨w₂, t₂⟩, ran₂⟩ : ∃ s, mergeHooked node clock (deliver "b" second) w₁ t₁ = some s := by
    cases ran₁
    exact ⟨_, rfl⟩
  obtain ⟨⟨w₃, t₃⟩, ran₃⟩ : ∃ s, mergeHooked node clock (deliver "c" removal) w₂ t₂ = some s := by
    cases ran₁
    cases ran₂
    exact ⟨_, rfl⟩
  have reach : MirrorReach node clock (fun _ _ => True) [deliver "a" first, deliver "b" second, deliver "c" removal] w₃ t₃ :=
    .next (.next (.next .start (incoming [] _ (by decide) (by decide)) trivial ran₁)
      (incoming [deliver "a" first] _ (by decide) (by decide)) trivial ran₂)
      (incoming [deliver "a" first, deliver "b" second] _ (by decide) (by decide)) trivial ran₃
  have mirrors := always _ _ _ reach ["worker"] (by decide)
  have final : ((mergeHooked node clock (deliver "a" first) World.empty TableWorld.empty).bind (fun s =>
      (mergeHooked node clock (deliver "b" second) s.1 s.2).bind (fun s =>
        mergeHooked node clock (deliver "c" removal) s.1 s.2))).map
      (fun s => (s.1.store.lookup (valueKey ["worker"]), (s.2.table.lookup ["worker"]).map Peer.service)) =
      some (some [1], none) := by decide
  simp only [ran₁, ran₂, ran₃, Option.bind_some, Option.map_some, Option.some.injEq, Prod.mk.injEq] at final
  rw [final.1, final.2] at mirrors
  exact absurd mirrors (by decide)

end OpenTela
