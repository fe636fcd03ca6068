import OpenTela.Dag.Writes
import OpenTela.NodeTable.Discipline
import OpenTela.Upkeep.Tasks

namespace OpenTela

open Prog

variable {setup : Setup} {i : ℕ} {chance : Chance} {s s' : Site}

/-- The datastore is as merges leave it, and nobody is in the middle of one. -/
structure Site.Sound (setup : Setup) (s : Site) : Prop where
  sane : Sane setup.net.env s.replica.set.store
  free : s.replica.set.mutex = none

/-- Whether the deletion of a key ends what was said of its LEFT record. -/
def Site.counts (s : Site) (i : ℕ) (received : Bool) : Key → ℤ → Bool :=
  if received then fun _ _ => true else s.overdue i

/-- The block `b` has been merged: tombstones first, then elements, with its delete hooks and
then its put hooks run on the table. -/
structure Site.Merged (setup : Setup) (i : ℕ) (received : Bool) (b : Cid) (s s' : Site) (mid : SetStore)
    (calls : List Hook) (t : TableWorld Unit) : Prop where
  tombs : TombsCommitted setup.net.env (setup.net.block b).delta s.replica.set.store mid
  elems : ElemsCommitted setup.net.env (setup.net.block b).delta b mid s'.replica.set.store
  order : ∃ keys : List Key, (∀ key, key ∈ keys ↔ ((setup.net.block b).delta.tombIds key).Nonempty) ∧
    calls = keys.map Hook.delete ++ putHooks mid b (setup.net.block b).delta.priority (setup.net.block b).delta.elements
  ran : runHooks setup.node setup.clock calls s.table = some t
  result : s' = Site.tabled { s with
    replica := s'.replica
    latest := if received then calls.foldl notePut s.latest else s.latest
    left := calls.foldl (noteDelete s'.replica.set.store (s.counts i received)) s.left } t

section Settle

variable (produced : ∀ c, (setup.net.block c).delta.Produced)

include produced

theorem settle_merged {received : Bool} {b : Cid} {r : Replica} (sound : s.Sound setup)
    (merged : (merge (setup.net.block b).delta b).run (exec setup.net.env i) s.replica.set = some (.ok (), r.set))
    (settled : s.settle setup i received r = some s') :
    s'.Sound setup ∧ ∃ mid calls t, Site.Merged setup i received b s s' mid calls t := by
  obtain ⟨u, mid, run, free, buried, added, keys, _, members, hooks⟩ :=
    merge_run (i := i) ((produced b).orderly b) (setup.net.serves b) sound.sane sound.free
  obtain ⟨_, rfl⟩ := Prod.mk.inj (Option.some.inj (run.symm.trans merged))
  obtain ⟨t, ran, rfl⟩ := Option.map_eq_some_iff.mp settled
  rw [hooks, List.append_assoc, List.drop_left] at ran
  refine ⟨⟨added.sane (produced b).ranked (setup.net.serves b) (buried.sane sound.sane), free⟩, mid, _, t,
    buried, added, ⟨keys, members, rfl⟩, ran, ?_⟩
  rw [hooks, List.append_assoc, List.drop_left]
  rfl

/-- A received block is merged. -/
theorem site_process {root b : Cid} {rootPrio : ℕ} {out : Except String Unit} (sound : s.Sound setup)
    (executed : Site.exec setup i chance (.process root rootPrio b) s = some (out, s')) :
    s'.Sound setup ∧ ∃ mid calls t, Site.Merged setup i true b s s' mid calls t := by
  obtain ⟨⟨out', r⟩, ran, settling⟩ := Option.bind_eq_some_iff.mp executed
  obtain ⟨s'', settled, same⟩ := Option.map_eq_some_iff.mp settling
  obtain ⟨rfl, rfl⟩ := Prod.mk.inj same
  refine settle_merged produced sound ?_ settled
  exact processNode_set (Context.bind (fun _ => .ret ())) (fun _ => trivial) (produced b) sound.sane sound.free ran

/-- A local write is merged as well, unless its block could not be written. -/
theorem site_publish {elements tombstones : List Element} {out : Except String Unit} (sound : s.Sound setup)
    (executed : Site.exec setup i chance (.publish elements tombstones) s = some (out, s')) :
    s'.Sound setup ∧ (out ≠ .ok () ∧ s' = { s with replica := s'.replica } ∧ s'.replica.set = s.replica.set ∨
      ∃ b mid calls t, (setup.net.block b).delta = newDelta elements tombstones (maxHeight s.replica.heads) ∧
        Site.Merged setup i false b s s' mid calls t) := by
  obtain ⟨⟨out', r⟩, ran, settling⟩ := Option.bind_eq_some_iff.mp executed
  obtain ⟨s'', settled, same⟩ := Option.map_eq_some_iff.mp settling
  obtain ⟨rfl, rfl⟩ := Prod.mk.inj same
  rcases publish_set produced sound.sane sound.free ran with ⟨failed, unchanged⟩ | ⟨b, named, merged⟩
  · obtain ⟨t, hooked, rfl⟩ := Option.map_eq_some_iff.mp settled
    rw [unchanged, List.drop_length] at hooked
    obtain rfl := Option.some.inj hooked
    refine ⟨⟨unchanged ▸ sound.sane, unchanged ▸ sound.free⟩, Or.inl ⟨failed, ?_, unchanged⟩⟩
    rw [unchanged, List.drop_length]
    simp [Site.tabled]
  · obtain ⟨sound', mid, calls, t, effect⟩ := settle_merged produced sound merged settled
    exact ⟨sound', Or.inr ⟨b, mid, calls, t, by rw [named], effect⟩⟩

end Settle

/-- It changes neither the datastore nor the table. -/
def SiteOp.Quiet : SiteOp → Prop
  | .table _ | .publish .. | .process .. => False
  | _ => True

theorem site_quiet {o : SiteOp} {r : o.Res} (quiet : o.Quiet) (executed : Site.exec setup i chance o s = some (r, s')) :
    s' = { s with doomed := s'.doomed } := by
  cases o with
  | table _ | publish _ _ | process _ _ _ => exact quiet.elim
  | rmv key =>
    simp only [Site.exec] at executed
    split at executed
    · obtain ⟨_, rfl⟩ := Prod.mk.inj (Option.some.inj executed)
      rfl
    · cases executed
  | _ =>
    obtain ⟨_, rfl⟩ := Prod.mk.inj (Option.some.inj executed)
    rfl

theorem site_table {o : TableOp} {r : o.Res} (executed : Site.exec setup i chance (.table o) s = some (r, s')) :
    ∃ t, execTable setup.clock () o s.table = some (r, t) ∧ s' = { s with table := t, doomed := s'.doomed, left := s'.left } := by
  cases o <;>
  · obtain ⟨rfl, rfl⟩ := Prod.mk.inj (Option.some.inj executed)
    exact ⟨_, rfl, rfl⟩

theorem site_sound (produced : ∀ c, (setup.net.block c).delta.Produced) {o : SiteOp} {r : o.Res} (sound : s.Sound setup)
    (executed : Site.exec setup i chance o s = some (r, s')) : s'.Sound setup := by
  by_cases quiet : o.Quiet
  · rw [site_quiet quiet executed]
    exact ⟨sound.sane, sound.free⟩
  · cases o with
    | table o =>
      obtain ⟨t, _, same⟩ := site_table executed
      rw [same]
      exact ⟨sound.sane, sound.free⟩
    | publish elements tombstones => exact (site_publish produced sound executed).1
    | process root rootPrio b => exact (site_process produced sound executed).1
    | _ => exact absurd trivial quiet

theorem fresh_sound : SiteCrew.fresh.state.Sound setup :=
  ⟨Merged.empty.sane (fun _ none => nomatch none) (fun _ none => nomatch none), rfl⟩

/-- A node's datastore is sound whatever its upkeep does. -/
theorem sound_of_reach {setup : Setup} (produced : ∀ c, (setup.net.block c).delta.Produced) {c : SiteCrew}
    (reach : Crew.Reach (setup.system (fun _ => true)) Crew.Anyhow SiteCrew.fresh c) : c.state.Sound setup := by
  induction reach with
  | start => exact fresh_sound
  | next _ step ih =>
    cases step with
    | enter task _ => exact ih
    | act i chance present executed _ => exact site_sound produced ih executed

/-- What a record says of its peer, apart from the fields every node decides on for itself. -/
def Peer.announced (p : Peer) : Peer := { p with connected := false, lastSeen := 0, signedBuild := false, trustLevel := 0 }

/-- The record passes the checks of the hook. -/
def Node.admits (node : Node) (value : Bytes) : Bool := (node.vetted (node.unmarshal value).published).isSome

def Hook.key : Hook → Key
  | .put key _ => key
  | .delete key => key

/-- The step leaves the row of the key alone. -/
def TableOp.Spares (key : Key) : TableOp → Prop
  | .record k _ | .remove k => k ≠ key
  | _ => True

section Rows

variable {node : Node} {clock : ℕ → ℤ} {key : Key} {t u : TableWorld Unit}

theorem execTable_spares {o : TableOp} {r : o.Res} (spares : o.Spares key) (step : execTable clock () o t = some (r, u)) :
    u.table.lookup key = t.table.lookup key := by
  cases o with
  | get _ | knownHead _ | now =>
    obtain ⟨_, rfl⟩ := Prod.mk.inj (Option.some.inj step)
    rfl
  | record k p =>
    obtain ⟨_, rfl⟩ := Prod.mk.inj (Option.some.inj step)
    exact AList.lookup_insert_ne (Ne.symm spares)
  | remove k =>
    obtain ⟨_, rfl⟩ := Prod.mk.inj (Option.some.inj step)
    exact AList.lookup_erase_ne (Ne.symm spares)

theorem hook_spares {h : Hook} (other : h.key ≠ key) {out : Except String Unit}
    (ran : (h.program node).run (execTable clock ()) t = some (out, u)) : u.table.lookup key = t.table.lookup key := by
  have minds : Minds (fun _ _ => True) (TableOp.Spares key) (h.program node) := by
    cases h with
    | put k value => exact putHook_minds trivial (fun _ => trivial) (fun _ _ _ _ _ => other)
    | delete k => exact fun _ _ => ⟨other, trivial⟩
  exact minds.run (fun v => v.table.lookup key = t.table.lookup key) (fun _ _ _ _ _ _ => trivial)
    (fun _ _ _ _ same spares step => (execTable_spares spares step).trans same) rfl ran

theorem runHooks_cons {h : Hook} {rest : List Hook} (ran : runHooks node clock (h :: rest) t = some u) :
    ∃ v, (h.program node).run (execTable clock ()) t = some (.ok (), v) ∧ runHooks node clock rest v = some u := by
  simp only [runHooks] at ran
  split at ran
  · rename_i v first
    exact ⟨v, first, ran⟩
  · cases ran

theorem runHooks_other {calls : List Hook} (others : ∀ h ∈ calls, h.key ≠ key) (ran : runHooks node clock calls t = some u) :
    u.table.lookup key = t.table.lookup key := by
  induction calls generalizing t with
  | nil =>
    cases ran
    rfl
  | cons h rest ih =>
    obtain ⟨v, first, later⟩ := runHooks_cons ran
    exact (ih (fun h' member => others h' (List.mem_cons_of_mem _ member)) later).trans
      (hook_spares (others h (List.mem_cons_self ..)) first)

theorem runHooks_split {first second : List Hook} (ran : runHooks node clock (first ++ second) t = some u) :
    ∃ v, runHooks node clock first t = some v ∧ runHooks node clock second v = some u := by
  induction first generalizing t with
  | nil => exact ⟨t, rfl, ran⟩
  | cons h rest ih =>
    obtain ⟨w, here, later⟩ := runHooks_cons ran
    obtain ⟨v, before, after⟩ := ih later
    exact ⟨v, by simp only [runHooks, here]; exact before, after⟩

theorem vetted_connected (p : Peer) (connected : Bool) :
    (node.vetted { p with connected := connected }).isSome = (node.vetted p).isSome := by
  have signed : node.signed { p with connected := connected } = node.signed p := rfl
  simp only [Node.vetted, signed]
  split <;> rfl

/-- The put hook writes a record it admits, unless the peer has left. -/
theorem putHook_announced {value : Bytes} (other : key ≠ peerKey node.myID) (admitted : node.admits value = true)
    (stays : (node.unmarshal value).status ≠ LEFT) {out : Except String Unit}
    (ran : (putHook node key value).run (execTable clock ()) t = some (out, u)) :
    ∃ row, u.table.lookup key = some row ∧ row.announced = (node.unmarshal value).announced := by
  let peer : Peer := { node.unmarshal value with connected := (t.table.lookup key).elim false Peer.connected }.published
  let read : TableWorld Unit := { t with history := t.history ++ [.read () key] }
  have program : (putHook node key value).run (execTable clock ()) t =
      (hookRecord node key peer).run (execTable clock ()) read := by
    rw [putHook, if_neg other]
    rfl
  obtain ⟨v, hooked, table⟩ := hookRecord_run node clock () key peer read
  rw [program, hooked] at ran
  obtain ⟨_, rfl⟩ := Prod.mk.inj (Option.some.inj ran)
  have passes : (node.vetted peer).isSome = true := (vetted_connected (node.unmarshal value).published _).trans admitted
  obtain ⟨p, vetted⟩ := Option.isSome_iff_exists.mp passes
  have accepted : node.accepts read.table peer = some p := by
    have unmarked : p.status ≠ LEFT := by
      rw [vetted_fields vetted]
      exact stays
    simp [Node.accepts, vetted, unmarked]
  refine ⟨stored (t.table.lookup key) p (clock t.ticks), ?_, ?_⟩
  · rw [table, accepted]
    exact AList.lookup_insert _
  · rw [vetted_fields vetted]
    unfold stored
    split <;> rfl

end Rows

theorem notePut_other {calls : List Hook} {key : Key} (others : ∀ h ∈ calls, h.key ≠ key) (latest : Store Key Bytes) :
    (calls.foldl notePut latest).lookup key = latest.lookup key := by
  induction calls generalizing latest with
  | nil => rfl
  | cons h rest ih =>
    rw [List.foldl_cons, ih (fun h' member => others h' (List.mem_cons_of_mem _ member))]
    cases h with
    | put k value => exact AList.lookup_insert_ne (Ne.symm (others _ (List.mem_cons_self ..)))
    | delete k => rfl

/-- The calls after that of an element which is accepted are about other keys. -/
theorem putHooks_split {st : SetStore} {id : Id} {prio : ℕ} {elems : List Element} (nodup : (elems.map Element.key).Nodup)
    {e : Element} (member : e ∈ elems) (test : accepts st e.key id e.value prio = true) :
    ∃ before after, putHooks st id prio elems = before ++ Hook.put e.key e.value :: after ∧ ∀ h ∈ after, h.key ≠ e.key := by
  let test' : Element → Bool := fun e => accepts st e.key id e.value prio
  obtain ⟨xs, ys, split⟩ := List.append_of_mem (List.mem_filter.mpr ⟨member, test⟩ : e ∈ elems.filter test')
  have rest : ((elems.filter test').map Element.key).Nodup := nodup.sublist (List.filter_sublist.map Element.key)
  rw [split, List.map_append, List.map_cons] at rest
  have tail := (List.nodup_append.mp rest).2.1
  refine ⟨xs.map (fun e => Hook.put e.key e.value), ys.map (fun e => Hook.put e.key e.value), ?_, ?_⟩
  · rw [putHooks, split, List.map_append, List.map_cons]
  · intro h put same
    obtain ⟨e', here, rfl⟩ := List.mem_map.mp put
    have again : e.key ∈ ys.map Element.key := by
      rw [← same]
      exact List.mem_map_of_mem here
    exact (List.nodup_cons.mp tail).1 again

section Merged

variable {received : Bool} {b : Cid} {mid : SetStore} {calls : List Hook} {t : TableWorld Unit} {key : Key}

theorem Site.Merged.table (merged : Site.Merged setup i received b s s' mid calls t) : s'.table = t :=
  congrArg Site.table merged.result

theorem Site.Merged.doomed (merged : Site.Merged setup i received b s s' mid calls t) : s'.doomed = s.doomed := by
  rw [merged.result]
  rfl

theorem Site.Merged.latest (merged : Site.Merged setup i received b s s' mid calls t) :
    s'.latest = if received then calls.foldl notePut s.latest else s.latest :=
  congrArg Site.latest merged.result

/-- A key the block says nothing of: its value, its row and its last record are as they were. -/
theorem Site.Merged.other (merged : Site.Merged setup i received b s s' mid calls t)
    (absent : key ∉ (setup.net.block b).delta.keys) (alive : ¬ ((setup.net.block b).delta.tombIds key).Nonempty) :
    s'.replica.set.store.lookup (valueKey key) = s.replica.set.store.lookup (valueKey key) ∧
      s'.table.table.lookup key = s.table.table.lookup key ∧ s'.latest.lookup key = s.latest.lookup key := by
  obtain ⟨keys, members, order⟩ := merged.order
  have others : ∀ h ∈ calls, h.key ≠ key := by
    rintro h member rfl
    rw [order] at member
    rcases List.mem_append.mp member with deleted | put
    · obtain ⟨k, here, rfl⟩ := List.mem_map.mp deleted
      exact alive ((members k).mp here)
    · obtain ⟨e, here, rfl⟩ := List.mem_map.mp put
      exact absent (List.mem_map_of_mem (List.mem_filter.mp here).1)
  refine ⟨?_, ?_, ?_⟩
  · rw [((merged.elems key).2 absent).value, ((merged.tombs key).2 alive).value]
  · rw [merged.table]
    exact runHooks_other others merged.ran
  · rw [merged.latest]
    split
    · exact notePut_other others s.latest
    · rfl

/-- A key the block has a record of: that record is stored and handed to the hook, or neither. -/
theorem Site.Merged.element (produced : (setup.net.block b).delta.Produced) (sound : s.Sound setup)
    (merged : Site.Merged setup i received b s s' mid calls t) {e : Element} (member : e ∈ (setup.net.block b).delta.elements)
    (alive : ¬ ((setup.net.block b).delta.tombIds e.key).Nonempty) :
    (s'.replica.set.store.lookup (valueKey e.key) = some e.value ∧
      s'.latest.lookup e.key = (if received then some e.value else s.latest.lookup e.key) ∧
      (e.key ≠ peerKey setup.node.myID → setup.node.admits e.value = true → (setup.node.unmarshal e.value).status ≠ LEFT →
        ∃ row, s'.table.table.lookup e.key = some row ∧ row.announced = (setup.node.unmarshal e.value).announced)) ∨
    (s'.replica.set.store.lookup (valueKey e.key) = s.replica.set.store.lookup (valueKey e.key) ∧
      s'.table.table.lookup e.key = s.table.table.lookup e.key ∧ s'.latest.lookup e.key = s.latest.lookup e.key) := by
  obtain ⟨keys, members, order⟩ := merged.order
  have stays : mid.lookup (valueKey e.key) = s.replica.set.store.lookup (valueKey e.key) := ((merged.tombs e.key).2 alive).value
  have value := merged.elems.value produced (setup.net.serves b) (merged.tombs.sane sound.sane) member
  have apart : ∀ h ∈ keys.map Hook.delete, h.key ≠ e.key := by
    rintro h deleted same
    obtain ⟨k, here, rfl⟩ := List.mem_map.mp deleted
    exact alive (same ▸ (members k).mp here)
  cases test : accepts mid e.key b e.value (setup.net.block b).delta.priority with
  | false =>
    have others : ∀ h ∈ calls, h.key ≠ e.key := by
      intro h member' same
      rw [order] at member'
      rcases List.mem_append.mp member' with deleted | put
      · exact apart h deleted same
      · obtain ⟨e', here, rfl⟩ := List.mem_map.mp put
        obtain ⟨inDelta, taken⟩ := List.mem_filter.mp here
        obtain rfl := List.inj_on_of_nodup_map produced.nodup inDelta member same
        rw [test] at taken
        cases taken
    refine Or.inr ⟨?_, ?_, ?_⟩
    · rw [value, test, ← stays]
      rfl
    · rw [merged.table]
      exact runHooks_other others merged.ran
    · rw [merged.latest]
      split
      · exact notePut_other others s.latest
      · rfl
  | true =>
    -- the hook calls before and after that of `e` are about other keys
    obtain ⟨before, after, split, done⟩ := putHooks_split produced.nodup member test
    rw [split] at order
    refine Or.inl ⟨by rw [value, test]; rfl, ?_, fun other admitted present => ?_⟩
    · rw [merged.latest]
      cases received with
      | false => rfl
      | true =>
        simp only [if_true, order, List.foldl_append, List.foldl_cons]
        rw [notePut_other done]
        exact AList.lookup_insert _
    · have ran := merged.ran
      rw [order, ← List.append_assoc] at ran
      obtain ⟨v, _, later⟩ := runHooks_split ran
      obtain ⟨w, here, rest⟩ := runHooks_cons later
      rw [merged.table, runHooks_other done rest]
      exact putHook_announced other admitted present here

end Merged

/-- The block brings records of other peers alone, all of which the hook admits. -/
def Setup.records (setup : Setup) (b : Cid) : Bool :=
  (setup.net.block b).delta.tombstones.isEmpty && (setup.net.block b).delta.elements.all (fun e =>
    decide (e.key ≠ peerKey setup.node.myID) && setup.node.admits e.value)

theorem Setup.records_iff {b : Cid} : setup.records b = true ↔ (∀ key, ¬ ((setup.net.block b).delta.tombIds key).Nonempty) ∧
    ∀ e ∈ (setup.net.block b).delta.elements, e.key ≠ peerKey setup.node.myID ∧ setup.node.admits e.value = true := by
  have bare : (setup.net.block b).delta.tombstones.isEmpty = true ↔
      ∀ key, ¬ ((setup.net.block b).delta.tombIds key).Nonempty := by
    rw [List.isEmpty_iff]
    constructor
    · rintro empty key ⟨id, e, member, _⟩
      rw [empty] at member
      cases member
    · intro none
      refine List.eq_nil_iff_forall_not_mem.mpr (fun e member => none e.key ⟨e.id, e, member, rfl, rfl⟩)
  simp only [Setup.records, Bool.and_eq_true, bare, List.all_eq_true, decide_eq_true_eq]

/-- The store and the table have this record of the key. -/
def Site.Current (setup : Setup) (s : Site) (key : Key) (value : Bytes) : Prop :=
  s.replica.set.store.lookup (valueKey key) = some value ∧
    ∃ row, s.table.table.lookup key = some row ∧ row.announced = (setup.node.unmarshal value).announced

theorem Site.Current.congr {key : Key} {value : Bytes} (current : s.Current setup key value)
    (stored : s'.replica.set.store.lookup (valueKey key) = s.replica.set.store.lookup (valueKey key))
    (row : s'.table.table.lookup key = s.table.table.lookup key) : s'.Current setup key value := by
  rw [Site.Current, stored, row]
  exact current

theorem SiteM.table_minds {α : Type} {safe : SiteOp → Prop} {p : TableM α}
    (minds : Minds (fun _ _ => True) (fun o => safe (.table o)) p) : Minds (fun _ _ => True) safe (SiteM.table p) :=
  minds.embed (fun _ _ _ => trivial) (fun _ _ => rfl) (fun _ _ _ _ _ fine => fine) (fun _ _ _ => trivial)

end OpenTela
