import OpenTela.Upkeep.Cleanup

namespace OpenTela

open Prog

/-- The delta takes away all of the key it finds alive, and brings nothing of it. -/
def Clears (d : Delta) (store : SetStore) (key : Key) : Prop :=
  survivors store key (d.tombIds key) = ∅ ∧ key ∉ d.keys

/-- What is deleted of a key whose LEFT record stands is all the store has of it; and a
deletion of the node's own is one of a cleanup that found the key by a limit above the record. -/
def Retains (setup : Setup) (c : SiteCrew) (i : ℕ) (_ : Upkeep) : (o : SiteOp) → o.Res → Prop
  | .table (.remove key), _ => ∀ seen, c.state.left.lookup key = some seen →
      c.state.replica.set.store.has (valueKey key) = false ∧ c.state.overdue i key seen = true
  | .process _ _ b, _ => ∀ key seen, c.state.left.lookup key = some seen →
      ((setup.net.block b).delta.tombIds key).Nonempty → Clears (setup.net.block b).delta c.state.replica.set.store key
  | .publish elements tombstones, _ => ∀ key seen, c.state.left.lookup key = some seen →
      ((newDelta elements tombstones (maxHeight c.state.replica.heads)).tombIds key).Nonempty →
      Clears (newDelta elements tombstones (maxHeight c.state.replica.heads)) c.state.replica.set.store key ∧
        c.state.overdue i key seen = true
  | _, _ => True

/-- The LEFT records that stand have their rows. -/
def Stands (left : Store Key ℤ) (table : NodeTable) : Prop :=
  ∀ key seen, left.lookup key = some seen → ∃ row, table.lookup key = some row ∧ row.status = LEFT ∧ row.lastSeen = seen

section Table

variable {node : Node} {clock : ℕ → ℤ} {left : Store Key ℤ} {t u : TableWorld Unit}

/-- The table has moved on, and the LEFT records with it. -/
def Onwards (left : Store Key ℤ) (t u : TableWorld Unit) : Prop :=
  ∃ events, u.history = t.history ++ events ∧ Stands (events.foldl noteRow left) u.table

theorem Onwards.stands (onwards : Onwards left t u) :
    Stands ((u.history.drop t.history.length).foldl noteRow left) u.table := by
  obtain ⟨events, history, stands⟩ := onwards
  rw [history, List.drop_left]
  exact stands

/-- A step keeps the rows of the LEFT records, unless it removes one. -/
theorem execTable_stands {o : TableOp} {r : o.Res} (stands : Stands left t.table)
    (spares : ∀ key, o = .remove key → left.lookup key = none) (step : execTable clock () o t = some (r, u)) :
    Onwards left t u := by
  cases o with
  | get key =>
    obtain ⟨_, rfl⟩ := Prod.mk.inj (Option.some.inj step)
    exact ⟨[.read () key], rfl, stands⟩
  | knownHead _ | now =>
    obtain ⟨_, rfl⟩ := Prod.mk.inj (Option.some.inj step)
    exact ⟨[], (List.append_nil _).symm, stands⟩
  | remove key =>
    obtain ⟨_, rfl⟩ := Prod.mk.inj (Option.some.inj step)
    refine ⟨[], (List.append_nil _).symm, fun k seen standing => ?_⟩
    have other : k ≠ key := by
      rintro rfl
      rw [List.foldl_nil, spares k rfl] at standing
      cases standing
    rw [AList.lookup_erase_ne other]
    exact stands k seen standing
  | record key p =>
    obtain ⟨_, rfl⟩ := Prod.mk.inj (Option.some.inj step)
    refine ⟨[.wrote () key (stored (t.table.lookup key) p (clock t.ticks))], rfl, fun k seen standing => ?_⟩
    simp only [List.foldl_cons, List.foldl_nil, noteRow] at standing
    by_cases same : k = key
    · subst same
      split at standing
      · rename_i gone
        rw [AList.lookup_insert] at standing
        exact ⟨_, AList.lookup_insert _, gone, Option.some.inj standing⟩
      · rw [AList.lookup_erase] at standing
        cases standing
    · have before : left.lookup k = some seen := by
        split at standing
        · rwa [AList.lookup_insert_ne same] at standing
        · rwa [AList.lookup_erase_ne same] at standing
      obtain ⟨row, found, rest⟩ := stands k seen before
      exact ⟨row, (AList.lookup_insert_ne same).trans found, rest⟩

theorem Onwards.trans {v : TableWorld Unit} (first : Onwards left t u)
    (second : ∀ left', Stands left' u.table → Onwards left' u v) : Onwards left t v := by
  obtain ⟨events, history, stands⟩ := first
  obtain ⟨more, history', stands'⟩ := second _ stands
  exact ⟨events ++ more, by rw [history', history, List.append_assoc], by rwa [List.foldl_append]⟩

theorem putHook_stands {key : Key} {value : Bytes} {out : Except String Unit} (stands : Stands left t.table)
    (ran : (putHook node key value).run (execTable clock ()) t = some (out, u)) : Onwards left t u := by
  have minds : Minds (fun _ _ => True) (fun o => ∀ k, o ≠ TableOp.remove k) (putHook node key value) :=
    putHook_minds (fun _ => nofun) (fun _ _ => nofun) (fun _ _ _ _ _ _ => nofun)
  refine minds.run (fun v => Onwards left t v) (fun _ _ _ _ _ _ => trivial) (fun o v r w onwards keeps step => ?_)
    ⟨[], (List.append_nil _).symm, stands⟩ ran
  exact onwards.trans (fun left' standing => execTable_stands standing (fun k removes => absurd removes (keeps k)) step)

theorem runHooks_deletes_stands {keys : List Key} (stands : Stands left t.table) (spares : ∀ key ∈ keys, left.lookup key = none)
    (ran : runHooks node clock (keys.map Hook.delete) t = some u) : Onwards left t u := by
  induction keys generalizing t with
  | nil =>
    cases ran
    exact ⟨[], (List.append_nil _).symm, stands⟩
  | cons key rest ih =>
    obtain ⟨v, first, later⟩ := runHooks_cons ran
    have gone : v = { t with table := t.table.erase key } := by
      obtain ⟨_, rfl⟩ := Prod.mk.inj (Option.some.inj first)
      rfl
    have standing : Stands left v.table := by
      intro k seen here
      have other : k ≠ key := by
        rintro rfl
        rw [spares k (List.mem_cons_self ..)] at here
        cases here
      rw [gone, AList.lookup_erase_ne other]
      exact stands k seen here
    have history : v.history = t.history := by rw [gone]
    obtain ⟨events, same, rows⟩ := ih standing (fun k member => spares k (List.mem_cons_of_mem _ member)) later
    exact ⟨events, by rw [same, history], rows⟩

theorem runHooks_puts_stands {puts : List Hook} (records : ∀ h ∈ puts, ∃ key value, h = .put key value)
    (stands : Stands left t.table) (ran : runHooks node clock puts t = some u) : Onwards left t u := by
  induction puts generalizing t left with
  | nil =>
    cases ran
    exact ⟨[], (List.append_nil _).symm, stands⟩
  | cons h rest ih =>
    obtain ⟨v, first, later⟩ := runHooks_cons ran
    obtain ⟨key, value, rfl⟩ := records h (List.mem_cons_self ..)
    exact (putHook_stands stands first).trans
      (fun left' standing => ih (fun h' member => records h' (List.mem_cons_of_mem _ member)) standing later)

end Table

section Notes

variable {store : SetStore} {counts : Key → ℤ → Bool} {calls : List Hook} {left : Store Key ℤ} {key : Key} {seen : ℤ}

theorem noteDelete_lookup (h : Hook) (standing : (noteDelete store counts left h).lookup key = some seen) :
    left.lookup key = some seen := by
  cases h with
  | put k value => exact standing
  | delete k =>
    simp only [noteDelete] at standing
    split at standing
    · exact standing
    · split at standing
      · by_cases same : key = k
        · subst same
          rw [AList.lookup_erase] at standing
          cases standing
        · rwa [AList.lookup_erase_ne same] at standing
      · exact standing

theorem noteDeletes_lookup (standing : (calls.foldl (noteDelete store counts) left).lookup key = some seen) :
    left.lookup key = some seen := by
  induction calls generalizing left with
  | nil => exact standing
  | cons h rest ih => exact noteDelete_lookup h (ih standing)

/-- The deletion of a key that the store has lost ends its LEFT record, if that counts. -/
theorem noteDelete_ends (gone : store.has (valueKey key) = false) (counted : ∀ seen, left.lookup key = some seen → counts key seen = true) :
    (noteDelete store counts left (.delete key)).lookup key = none := by
  simp only [noteDelete, gone]
  cases standing : left.lookup key with
  | none => simpa using standing
  | some seen => simp [counted seen standing]

theorem noteDeletes_ends (deleted : .delete key ∈ calls) (gone : store.has (valueKey key) = false)
    (counted : ∀ seen, left.lookup key = some seen → counts key seen = true) :
    (calls.foldl (noteDelete store counts) left).lookup key = none := by
  induction calls generalizing left with
  | nil => cases deleted
  | cons h rest ih =>
    rcases List.mem_cons.mp deleted with rfl | later
    · refine Option.eq_none_iff_forall_ne_some.mpr (fun seen standing => ?_)
      have later : (rest.foldl (noteDelete store counts) (noteDelete store counts left (.delete key))).lookup key = some seen :=
        standing
      have before := noteDeletes_lookup later
      rw [noteDelete_ends gone counted] at before
      cases before
    · exact ih later (fun seen standing => counted seen (noteDelete_lookup h standing))

end Notes

section Steps

variable {setup : Setup} {i : ℕ} {chance : Chance} {s s' : Site}

/-- What holds in every run whose deletions are such. -/
structure Site.Retained (setup : Setup) (s : Site) : Prop where
  sound : s.Sound setup
  stands : Stands s.left s.table.table

/-- A row removed may end a LEFT record; then rows written begin and end them. -/
theorem site_table_left {o : TableOp} {r : o.Res} (executed : Site.exec setup i chance (.table o) s = some (r, s')) :
    s'.left = (s'.table.history.drop s.table.history.length).foldl noteRow (match o with
      | .remove key => noteDelete s.replica.set.store (s.overdue i) s.left (.delete key)
      | _ => s.left) := by
  cases o <;>
  · obtain ⟨rfl, rfl⟩ := Prod.mk.inj (Option.some.inj executed)
    rfl

/-- A block is merged whose tombstones clear the keys of LEFT records. -/
theorem Site.Merged.stands {received : Bool} {b : Cid} {mid : SetStore} {calls : List Hook} {t : TableWorld Unit}
    (merged : Site.Merged setup i received b s s' mid calls t) (sound : s.Sound setup) (stands : Stands s.left s.table.table)
    (clears : ∀ key seen, s.left.lookup key = some seen → ((setup.net.block b).delta.tombIds key).Nonempty →
      Clears (setup.net.block b).delta s.replica.set.store key ∧ s.counts i received key seen = true) :
    Stands s'.left s'.table.table := by
  obtain ⟨keys, members, order⟩ := merged.order
  let left := calls.foldl (noteDelete s'.replica.set.store (s.counts i received)) s.left
  have standing : Stands left s.table.table := fun key seen here => stands key seen (noteDeletes_lookup here)
  have ended : ∀ key ∈ keys, left.lookup key = none := by
    intro key member
    have buried := (members key).mp member
    cases before : s.left.lookup key with
    | none =>
      refine Option.eq_none_iff_forall_ne_some.mpr (fun seen here => ?_)
      rw [noteDeletes_lookup here] at before
      cases before
    | some seen =>
      obtain ⟨⟨empty, absent⟩, counted⟩ := clears key seen before buried
      have lost : mid.lookup (valueKey key) = none :=
        (accepts_buried b sound.sane merged.tombs buried [0] (by simp)).2.mpr empty
      refine noteDeletes_ends ?_ ?_ (fun seen' here => ?_)
      · rw [order]
        exact List.mem_append_left _ (List.mem_map_of_mem member)
      · rw [Store.has, ((merged.elems key).2 absent).value, lost]
        rfl
      · obtain rfl := Option.some.inj (before.symm.trans here)
        exact counted
  have ran := merged.ran
  rw [order] at ran
  obtain ⟨u, deleted, put⟩ := runHooks_split ran
  have onwards : Onwards left s.table t := by
    refine (runHooks_deletes_stands standing ended deleted).trans (fun left' here => runHooks_puts_stands (fun h member => ?_) here put)
    obtain ⟨e, _, rfl⟩ := List.mem_map.mp member
    exact ⟨e.key, e.value, rfl⟩
  have result : s'.left = (t.history.drop s.table.history.length).foldl noteRow left := by
    rw [merged.result]
    rfl
  rw [result, merged.table]
  exact onwards.stands

variable (produced : ∀ c, (setup.net.block c).delta.Produced)

include produced

theorem Site.Retained.step {c : SiteCrew} (retained : c.state.Retained setup) {task : Upkeep} {o : SiteOp} {r : o.Res}
    (executed : Site.exec setup i chance o c.state = some (r, s')) (retains : Retains setup c i task o r) :
    s'.Retained setup := by
  refine ⟨site_sound produced retained.sound executed, ?_⟩
  by_cases quiet : o.Quiet
  · rw [site_quiet quiet executed]
    exact retained.stands
  · cases o with
    | table o =>
      obtain ⟨t, stepped, same⟩ := site_table executed
      have table : s'.table = t := by rw [same]
      rw [site_table_left executed, table]
      refine (execTable_stands ?_ ?_ stepped).stands
      · cases o with
        | remove key => exact fun k seen here => retained.stands k seen (noteDelete_lookup _ here)
        | _ => exact retained.stands
      · rintro key rfl
        cases standing : c.state.left.lookup key with
        | none =>
          refine Option.eq_none_iff_forall_ne_some.mpr (fun seen here => ?_)
          rw [noteDelete_lookup _ here] at standing
          cases standing
        | some seen => exact noteDelete_ends (retains seen standing).1 (fun seen' here => (retains seen' here).2)
    | publish elements tombstones =>
      obtain ⟨_, ⟨_, unchanged, _⟩ | ⟨b, mid, calls, t, block, merged⟩⟩ := site_publish produced retained.sound executed
      · rw [unchanged]
        exact retained.stands
      · exact merged.stands retained.sound retained.stands (fun key seen standing buried => by
          rw [block] at buried ⊢
          exact retains key seen standing buried)
    | process root rootPrio b =>
      obtain ⟨_, mid, calls, t, merged⟩ := site_process produced retained.sound executed
      exact merged.stands retained.sound retained.stands (fun key seen standing buried => ⟨retains key seen standing buried, rfl⟩)
    | _ => exact absurd trivial quiet

end Steps

/-- Whatever a node's upkeep does, at any times: as long as every deletion of a key with a
standing LEFT record clears the store of it, after the retention period if it is the node's
own, the record keeps its row, and every cleanup begun after the retention period finds it. -/
theorem left_retained (setup : Setup) (produced : ∀ c, (setup.net.block c).delta.Produced) (c : SiteCrew)
    (reach : Crew.Reach (setup.system (fun _ => true)) (Retains setup) SiteCrew.fresh c) :
    ∀ key seen, c.state.left.lookup key = some seen →
      ∃ row, c.state.table.table.lookup key = some row ∧ row.status = LEFT ∧ row.lastSeen = seen ∧
        ∀ now, seen < retentionLimit setup.retention now →
          key ∈ collectCandidates (retentionLimit setup.retention now) c.state.table.table := by
  have retained : c.state.Retained setup := by
    induction reach with
    | start =>
      refine ⟨fresh_sound, fun key seen standing => ?_⟩
      rw [SiteCrew.fresh, AList.lookup_empty] at standing
      cases standing
    | next _ step ih =>
      cases step with
      | enter task _ => exact ih
      | act i chance present executed retains => exact ih.step produced executed retains
  intro key seen standing
  obtain ⟨row, found, gone, same⟩ := retained.stands key seen standing
  exact ⟨row, found, gone, same, fun now past => mem_collectCandidates.mpr ⟨row, found, gone, same ▸ past⟩⟩

namespace Swept

/-- The worker's leave is received, and a sweep is made so many seconds later. -/
def sweeping (seconds : ℤ) : List Returning.Move :=
  [.enter (.receive "a" 1 "a"), .act 0 (Returning.chance "d"), .enter .sweep, .act 1 { nanos := (1600000000 + seconds) * 10 ^ 9 }] ++
    List.replicate 2 (.act 1 {})

/-- Nothing is deleted. -/
def sparing (_ : Upkeep) : SiteOp → Bool
  | .table (.remove _) | .publish .. => false
  | .process _ _ b => b == "a"
  | _ => true

theorem sparing_retains (c : SiteCrew) (i : ℕ) (task : Upkeep) (o : SiteOp) (r : o.Res) (allowed : sparing task o = true) :
    Retains Returning.setup c i task o r := by
  cases o with
  | table o =>
    cases o with
    | remove key => cases allowed
    | _ => trivial
  | publish elements tombstones => cases allowed
  | process root rootPrio b =>
    obtain rfl : b = "a" := beq_iff_eq.mp allowed
    rintro key seen _ ⟨_, _, none, _⟩
    cases none
  | _ => trivial

end Swept

open Swept in
/-- Five minutes after the leave the sweep keeps the row, and a cleanup two days later finds it. -/
theorem left_retained_recent :
    let c := SiteCrew.fresh.play (Returning.setup.system (fun _ => true)) sparing (sweeping 300)
    Crew.Reach (Returning.setup.system (fun _ => true)) (Retains Returning.setup) SiteCrew.fresh c ∧
      (∀ t ∈ c.threads, t.prog.Ended) ∧ c.state.left.lookup ["worker"] = some 1600000000 ∧
      ["worker"] ∈ collectCandidates (retentionLimit Returning.setup.retention (1600172800 * 10 ^ 9)) c.state.table.table := by
  intro c
  have reach : Crew.Reach (Returning.setup.system (fun _ => true)) (Retains Returning.setup) SiteCrew.fresh c :=
    .of_play sparing sparing_retains (sweeping 300) .start
  refine ⟨reach, by decide, by decide, ?_⟩
  obtain ⟨_, _, _, _, found⟩ := left_retained Returning.setup Returning.produced c reach ["worker"] 1600000000 (by decide)
  exact found _ (by decide)

open Swept in
/-- The sweep deletes the row of a peer without services after ten minutes, whether it is LEFT
or not; the record stays in the store, and no cleanup finds it any more. -/
theorem left_row_swept : ¬ ∀ setup : Setup, (∀ c, (setup.net.block c).delta.Produced) → ∀ c,
    Crew.Reach (setup.system (fun _ => true)) Crew.Anyhow SiteCrew.fresh c →
    ∀ key seen, c.state.left.lookup key = some seen →
      ∃ row, c.state.table.table.lookup key = some row ∧ row.status = LEFT := by
  intro always
  obtain ⟨row, found, _⟩ := always Returning.setup Returning.produced _
    (.of_play (fun _ _ => true) (fun _ _ _ _ _ _ => trivial) (sweeping 700) .start) ["worker"] 1600000000 (by decide)
  have gone : (SiteCrew.fresh.play (Returning.setup.system (fun _ => true)) (fun _ _ => true)
      (sweeping 700)).state.table.table.lookup ["worker"] = none := by decide
  rw [gone] at found
  cases found

end OpenTela
