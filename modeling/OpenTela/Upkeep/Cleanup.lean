import OpenTela.Crdt.Removal
import OpenTela.Upkeep.Effects

namespace OpenTela

open Prog

/-- What comes from outside: calls of `CleanupLeftNodes`, and records. -/
def Setup.cleanups (setup : Setup) : Upkeep → Bool
  | .cleanup => true
  | .receive _ _ b => setup.records b
  | _ => false

/-- A node from which cleanups start; what is noted is noted from here on. -/
def Site.resting (s : Site) : SiteCrew := ⟨{ s with latest := ∅, doomed := fun _ => [] }, []⟩

/-- The keys a cleanup has still before it. -/
def Site.candidates (s : Site) (i : ℕ) : List Key := (s.doomed i).map Prod.fst

/-- A record of a peer that has not left is merged only while no cleanup is about to delete the peer. -/
def KeepsOff (setup : Setup) (c : SiteCrew) (_ : ℕ) (_ : Upkeep) : (o : SiteOp) → o.Res → Prop
  | .process _ _ b, _ => ∀ e ∈ (setup.net.block b).delta.elements, (setup.node.unmarshal e.value).status ≠ LEFT →
      ∀ j, e.key ∉ c.state.candidates j
  | _, _ => True

section Candidates

variable {setup : Setup} {i : ℕ} {chance : Chance} {s s' : Site}

/-- What a thread does to its candidates. -/
def learnCandidates (keys : List Key) : (o : SiteOp) → o.Res → List Key
  | .collectCandidates, candidates => candidates
  | .table (.remove key), _ | .logFailure key, _ => keys.filter (fun k => k ≠ key)
  | _, _ => keys

theorem spare_candidates (key : Key) : (s.spare i key).candidates i = (s.candidates i).filter (fun k => k ≠ key) := by
  simp only [Site.candidates, Site.spare, Function.update_self, List.filter_map]
  rfl

theorem spare_others (key : Key) {j : ℕ} (other : j ≠ i) : (s.spare i key).candidates j = s.candidates j := by
  simp only [Site.candidates, Site.spare, Function.update_of_ne other]

theorem collected_candidates (limit : ℤ) (keys : List Key) :
    Site.candidates { s with doomed := Function.update s.doomed i (keys.map (fun key => (key, limit))) } i = keys := by
  simp only [Site.candidates, Function.update_self, List.map_map]
  exact List.map_id keys

theorem site_collect {keys : List Key} (executed : Site.exec setup i chance .collectCandidates s = some (keys, s')) :
    ∃ limit, keys = collectCandidates limit s.table.table ∧
      s' = { s with doomed := Function.update s.doomed i (keys.map (fun key => (key, limit))) } := by
  refine ⟨retentionLimit setup.retention chance.nanos, ?_⟩
  simp only [Site.exec] at executed
  generalize retentionLimit setup.retention chance.nanos = limit at executed ⊢
  obtain ⟨rfl, rfl⟩ := Prod.mk.inj (Option.some.inj executed)
  exact ⟨rfl, rfl⟩

theorem site_candidates (produced : ∀ c, (setup.net.block c).delta.Produced) (sound : s.Sound setup) {o : SiteOp} {r : o.Res}
    (executed : Site.exec setup i chance o s = some (r, s')) :
    s'.candidates i = learnCandidates (s.candidates i) o r ∧ ∀ j, j ≠ i → s'.candidates j = s.candidates j := by
  have same : s'.doomed = s.doomed → s'.candidates i = s.candidates i ∧ ∀ j, j ≠ i → s'.candidates j = s.candidates j := by
    intro doomed
    simp [Site.candidates, doomed]
  cases o with
  | table o =>
    cases o with
    | remove key =>
      obtain ⟨_, rfl⟩ := Prod.mk.inj (Option.some.inj executed)
      exact ⟨spare_candidates key, fun j other => spare_others key other⟩
    | _ =>
      obtain ⟨_, rfl⟩ := Prod.mk.inj (Option.some.inj executed)
      exact same rfl
  | collectCandidates =>
    obtain ⟨limit, _, rfl⟩ := site_collect executed
    refine ⟨?_, fun j other => ?_⟩
    · exact collected_candidates limit r
    · simp [Site.candidates, Function.update_of_ne other]
  | logFailure key =>
    obtain ⟨_, rfl⟩ := Prod.mk.inj (Option.some.inj executed)
    exact ⟨spare_candidates key, fun j other => spare_others key other⟩
  | rmv key =>
    simp only [Site.exec] at executed
    split at executed
    · obtain ⟨_, rfl⟩ := Prod.mk.inj (Option.some.inj executed)
      exact same rfl
    · cases executed
  | publish elements tombstones =>
    obtain ⟨_, ⟨_, unchanged, _⟩ | ⟨_, _, _, _, _, merged⟩⟩ := site_publish produced sound executed
    · refine same ?_
      rw [unchanged]
    · exact same merged.doomed
  | process root rootPrio b =>
    obtain ⟨_, _, _, _, merged⟩ := site_process produced sound executed
    exact same merged.doomed
  | _ =>
    obtain ⟨_, rfl⟩ := Prod.mk.inj (Option.some.inj executed)
    exact same rfl

theorem collectCandidates_nodup (limit : ℤ) (table : NodeTable) : (collectCandidates limit table).Nodup := by
  have keys : ((getAllPeers table).map Prod.fst).Nodup := by
    have rows : (getAllPeers table).map Prod.fst = table.keys := by
      simp [getAllPeers, Store.select, AList.keys, List.keys]
    rw [rows]
    exact table.keys_nodup
  exact keys.sublist (List.filter_sublist.map Prod.fst)

theorem mem_collectCandidates {limit : ℤ} {table : NodeTable} {key : Key} : key ∈ collectCandidates limit table ↔
    ∃ row, table.lookup key = some row ∧ row.status = LEFT ∧ row.lastSeen < limit := by
  simp [collectCandidates, mem_getAllPeers]

end Candidates

section Threads

variable {setup : Setup}

/-- A cleanup deletes candidates of its own alone. -/
def Setup.cleans (setup : Setup) (keys : List Key) (_ : Upkeep) : SiteOp → Prop
  | .table (.remove key) => key ∈ keys
  | .table (.record ..) | .go _ => False
  | .publish elements tombstones => elements = [] ∧ ∀ e ∈ tombstones, e.key ∈ keys
  | .process _ _ b => setup.records b = true
  | _ => True

/-- The candidates are different, and `Rmv` names elements of its key. -/
def answersCleanup : (o : SiteOp) → o.Res → Prop
  | .collectCandidates, (candidates : List Key) => candidates.Nodup
  | .rmv key, (tombstones : List Element) => ∀ e ∈ tombstones, e.key = key
  | _, _ => True

theorem cleanup_loop_cleans (task : Upkeep) (rest keys : List Key) (removedCount : ℕ) (nodup : rest.Nodup)
    (ahead : ∀ key ∈ rest, key ∈ keys) :
    Always answersCleanup learnCandidates (fun k o _ _ => setup.cleans k task o) (fun _ _ => True) keys
      (cleanupLeftNodes.loop rest removedCount) := by
  induction rest generalizing keys removedCount with
  | nil => trivial
  | cons key rest ih =>
    obtain ⟨fresh, nodup⟩ := List.nodup_cons.mp nodup
    have later : ∀ k ∈ rest, k ∈ keys.filter (fun k => k ≠ key) := by
      intro k member
      refine List.mem_filter.mpr ⟨ahead k (List.mem_cons_of_mem _ member), decide_eq_true ?_⟩
      rintro rfl
      exact fresh member
    have deleted : ∀ n, Always answersCleanup learnCandidates (fun k o _ _ => setup.cleans k task o) (fun _ _ => True) keys
        (SiteM.table (deleteNodeTableHook key) >>= fun _ => cleanupLeftNodes.loop rest n) :=
      fun n _ _ => ⟨ahead key (List.mem_cons_self ..), ih _ n nodup later⟩
    intro tombstones named
    refine ⟨trivial, ?_⟩
    change Always _ _ _ _ keys ((if tombstones.isEmpty then pure (.ok ()) else SiteM.publish [] tombstones).bind _)
    split
    · exact deleted (removedCount + 1)
    · rintro (e | u) _
      · refine ⟨⟨rfl, fun e member => ?_⟩, fun _ _ => ⟨trivial, ih _ removedCount nodup later⟩⟩
        rw [named e member]
        exact ahead key (List.mem_cons_self ..)
      · refine ⟨⟨rfl, fun e member => ?_⟩, deleted (removedCount + 1)⟩
        rw [named e member]
        exact ahead key (List.mem_cons_self ..)

theorem Setup.body_cleans {task : Upkeep} (outside : setup.cleanups task = true) :
    Always answersCleanup learnCandidates (fun k o _ _ => setup.cleans k task o) (fun _ _ => True) [] (setup.body task) := by
  cases task with
  | receive root rootPrio b => exact fun _ _ => ⟨outside, trivial⟩
  | cleanup =>
    intro candidates nodup
    refine ⟨trivial, Always.bind ((cleanup_loop_cleans .cleanup candidates candidates 0 nodup (fun _ here => here)).mono
      (fun _ _ _ _ _ fine => fine) ?_)⟩
    rintro k (e | n) _
    · trivial
    · trivial
  | _ => cases outside

end Threads

/-- What holds while cleanups run: a peer that is back is nobody's candidate. -/
structure Site.Rejoined (setup : Setup) (s : Site) : Prop where
  sound : s.Sound setup
  current : ∀ key value, s.latest.lookup key = some value → (setup.node.unmarshal value).status ≠ LEFT →
    s.Current setup key value ∧ ∀ j, key ∉ s.candidates j

section Steps

variable {setup : Setup} {i : ℕ} {chance : Chance} {s s' : Site}

theorem answers_cleanup {o : SiteOp} {r : o.Res} (executed : Site.exec setup i chance o s = some (r, s')) :
    answersCleanup o r := by
  cases o with
  | collectCandidates =>
    obtain ⟨limit, rfl, _⟩ := site_collect executed
    exact collectCandidates_nodup limit _
  | rmv key =>
    obtain ⟨tombstones, ran, named, _⟩ := rmv_run setup.net.env i s.replica.set key
    simp only [Site.exec, ran] at executed
    obtain ⟨rfl, _⟩ := Prod.mk.inj (Option.some.inj executed)
    exact named
  | _ => trivial

/-- A step that brings no record need only leave alone the peers that are back. -/
theorem Site.Rejoined.carry (rejoined : s.Rejoined setup) (sound : s'.Sound setup) (noted : s'.latest = s.latest)
    (keeps : ∀ key value, (setup.node.unmarshal value).status ≠ LEFT → s.Current setup key value →
      (∀ j, key ∉ s.candidates j) → s'.Current setup key value ∧ ∀ j, key ∉ s'.candidates j) : s'.Rejoined setup := by
  refine ⟨sound, fun key value last back => ?_⟩
  rw [noted] at last
  obtain ⟨current, free⟩ := rejoined.current key value last back
  exact keeps key value back current free

theorem candidates_free {key : Key} {keys : List Key} (mine : s'.candidates i = keys)
    (others : ∀ j, j ≠ i → s'.candidates j = s.candidates j) (spared : key ∉ keys) (free : ∀ j, key ∉ s.candidates j) (j : ℕ) :
    key ∉ s'.candidates j := by
  by_cases own : j = i
  · rw [own, mine]
    exact spared
  · rw [others j own]
    exact free j

variable (produced : ∀ c, (setup.net.block c).delta.Produced)

include produced

theorem Site.Rejoined.process (rejoined : s.Rejoined setup) {root b : Cid} {rootPrio : ℕ} {out : Except String Unit}
    (records : setup.records b = true)
    (off : ∀ e ∈ (setup.net.block b).delta.elements, (setup.node.unmarshal e.value).status ≠ LEFT → ∀ j, e.key ∉ s.candidates j)
    (executed : Site.exec setup i chance (.process root rootPrio b) s = some (out, s')) : s'.Rejoined setup := by
  obtain ⟨sound, mid, calls, t, merged⟩ := site_process produced rejoined.sound executed
  obtain ⟨alive, others⟩ := Setup.records_iff.mp records
  have same : ∀ j, s'.candidates j = s.candidates j := by simp [Site.candidates, merged.doomed]
  refine ⟨sound, fun key value last back => ?_⟩
  simp only [same]
  by_cases named : key ∈ (setup.net.block b).delta.keys
  · obtain ⟨e, member, rfl⟩ := List.mem_map.mp named
    obtain ⟨other, admitted⟩ := others e member
    rcases merged.element (produced b) rejoined.sound member (alive _) with ⟨stored, latest, row⟩ | ⟨stored, row, latest⟩
    · have taken : e.value = value := by simpa [latest] using last
      subst taken
      exact ⟨⟨stored, row other admitted back⟩, off e member back⟩
    · rw [latest] at last
      exact (rejoined.current _ _ last back).imp_left (fun current => current.congr stored row)
  · obtain ⟨stored, row, latest⟩ := merged.other named (alive key)
    rw [latest] at last
    exact (rejoined.current _ _ last back).imp_left (fun current => current.congr stored row)

/-- The deletion of a candidate touches no peer that is back. -/
theorem Site.Rejoined.publish (rejoined : s.Rejoined setup) {tombstones : List Element} {out : Except String Unit}
    (own : ∀ e ∈ tombstones, e.key ∈ s.candidates i)
    (executed : Site.exec setup i chance (.publish [] tombstones) s = some (out, s')) : s'.Rejoined setup := by
  obtain ⟨mine, others⟩ := site_candidates produced rejoined.sound executed
  obtain ⟨sound, ⟨_, unchanged, set⟩ | ⟨b, mid, calls, t, block, merged⟩⟩ := site_publish produced rejoined.sound executed
  · refine rejoined.carry sound (by rw [unchanged]) (fun key value _ current free => ?_)
    have table : s'.table = s.table := by rw [unchanged]
    exact ⟨current.congr (by rw [set]) (by rw [table]), candidates_free mine others (free i) free⟩
  · refine rejoined.carry sound (by simpa using merged.latest) (fun key value _ current free => ?_)
    have absent : key ∉ (setup.net.block b).delta.keys := by
      rw [block]
      exact List.not_mem_nil
    have alive : ¬ ((setup.net.block b).delta.tombIds key).Nonempty := by
      rw [block]
      rintro ⟨_, e, member, rfl, _⟩
      exact free i (own e member)
    obtain ⟨stored, row, _⟩ := merged.other absent alive
    exact ⟨current.congr stored row, candidates_free mine others (free i) free⟩

theorem Site.Rejoined.table (rejoined : s.Rejoined setup) {o : TableOp} {r : o.Res} {task : Upkeep}
    (safe : setup.cleans (s.candidates i) task (.table o))
    (executed : Site.exec setup i chance (.table o) s = some (r, s')) : s'.Rejoined setup := by
  obtain ⟨mine, others⟩ := site_candidates produced rejoined.sound executed
  obtain ⟨t, stepped, same⟩ := site_table executed
  have replica : s'.replica = s.replica := by rw [same]
  have table : s'.table = t := by rw [same]
  refine rejoined.carry (site_sound produced rejoined.sound executed) (by rw [same]) (fun key value _ current free => ?_)
  have spares : o.Spares key := by
    cases o with
    | remove k =>
      rintro rfl
      exact free i safe
    | record k p => exact safe.elim
    | _ => trivial
  refine ⟨current.congr (by rw [replica]) (by rw [table, execTable_spares spares stepped]), candidates_free mine others ?_ free⟩
  cases o with
  | remove k => exact fun member => free i (List.mem_filter.mp member).1
  | _ => exact free i

/-- A collection finds only rows that are LEFT. -/
theorem Site.Rejoined.quiet (rejoined : s.Rejoined setup) {o : SiteOp} {r : o.Res} (quiet : o.Quiet)
    (executed : Site.exec setup i chance o s = some (r, s')) : s'.Rejoined setup := by
  obtain ⟨mine, others⟩ := site_candidates produced rejoined.sound executed
  have same := site_quiet quiet executed
  have replica : s'.replica = s.replica := by rw [same]
  have table : s'.table = s.table := by rw [same]
  refine rejoined.carry (site_sound produced rejoined.sound executed) (by rw [same]) (fun key value back current free => ?_)
  refine ⟨current.congr (by rw [replica]) (by rw [table]), candidates_free mine others ?_ free⟩
  cases o with
  | collectCandidates =>
    obtain ⟨limit, rfl, _⟩ := site_collect executed
    intro member
    obtain ⟨row, found, left, _⟩ := mem_collectCandidates.mp member
    obtain ⟨_, row', found', announced⟩ := current
    obtain rfl := Option.some.inj (found.symm.trans found')
    exact back ((congrArg Peer.status announced).symm.trans left)
  | logFailure k => exact fun member => free i (List.mem_filter.mp member).1
  | table _ | publish _ _ | process _ _ _ => exact quiet.elim
  | _ => exact free i

theorem Site.Rejoined.step {c : SiteCrew} (rejoined : c.state.Rejoined setup) {o : SiteOp} {r : o.Res} {task : Upkeep}
    (executed : Site.exec setup i chance o c.state = some (r, s')) (off : KeepsOff setup c i task o r)
    (safe : setup.cleans (c.state.candidates i) task o) : s'.Rejoined setup := by
  by_cases quiet : o.Quiet
  · exact rejoined.quiet produced quiet executed
  · cases o with
    | table o => exact rejoined.table produced safe executed
    | publish elements tombstones =>
      obtain ⟨rfl, own⟩ := safe
      exact rejoined.publish produced own executed
    | process root rootPrio b => exact rejoined.process produced safe off executed
    | _ => exact absurd trivial quiet

end Steps

/-- Any number of cleanups begun on any node, with records coming in at any moment: if no record
of a peer that is back is merged while a cleanup is about to delete the peer, then every peer
whose last record is not LEFT is in the store and in the table. -/
theorem rejoined_kept (setup : Setup) (produced : ∀ c, (setup.net.block c).delta.Produced) (c₀ : SiteCrew)
    (before : Crew.Reach (setup.system (fun _ => true)) Crew.Anyhow SiteCrew.fresh c₀) (c : SiteCrew)
    (reach : Crew.Reach (setup.system setup.cleanups) (KeepsOff setup) c₀.state.resting c) :
    ∀ key value, c.state.latest.lookup key = some value → (setup.node.unmarshal value).status ≠ LEFT →
      c.state.Current setup key value := by
  have sound := sound_of_reach produced before
  have begins : Site.Rejoined setup c₀.state.resting.state := by
    refine ⟨⟨sound.sane, sound.free⟩, fun key value last => ?_⟩
    rw [Site.resting, AList.lookup_empty] at last
    cases last
  have rejoined : c.state.Rejoined setup := by
    refine (reach.follows setup.cleans (fun s i => s.candidates i) [] (fun c => c.state.Rejoined setup) begins
      ⟨fun i t found => ?_, fun _ _ => rfl⟩ ?_ (fun _ _ _ _ _ _ _ executed => answers_cleanup executed)
      (fun _ _ _ _ _ _ rejoined executed => site_candidates produced rejoined.sound executed) (fun _ _ rejoined => rejoined)
      (fun _ _ _ _ _ _ _ _ rejoined _ executed off safe => rejoined.step produced executed off safe)).1
    · cases found
    · rintro task (outside | ⟨k, t, o, safe, started⟩)
      · exact setup.body_cleans outside
      · cases o with
        | go task' => exact safe.elim
        | _ => cases started
  exact fun key value last back => (rejoined.current key value last back).1

namespace Returning

def node : Node where
  myID := "head"
  crypto := Reconnected.node.crypto
  unmarshal
    | [1] => { id := "worker", status := LEFT, lastSeen := 1600000000 }
    | [3] => { id := "gone", status := LEFT, lastSeen := 1600000000 }
    | _ => { id := "worker", service := [{ name := "llm" }], lastSeen := 1700000000 }

/-- `a` is the worker's leave, `r` its return, and `d` the deletion of both; `g` is the leave of
another peer, and `x` its deletion. -/
def block (c : Cid) : Block :=
  if c = "a" then ⟨.of (add ["worker"] [1]) [] 1, []⟩
  else if c = "r" then ⟨.of (add ["worker"] [2]) [] 2, ["a"]⟩
  else if c = "d" then ⟨newDelta [] [{ key := ["worker"], id := "r" }, { key := ["worker"], id := "a" }] 2, ["r"]⟩
  else if c = "g" then ⟨.of (add ["gone"] [3]) [] 1, []⟩
  else if c = "x" then ⟨newDelta [] [{ key := ["gone"], id := "g" }] 2, ["r", "g"]⟩
  else ⟨.of [] [] 0, []⟩

def setup : Setup where
  node := node
  net := .plain block
  clock := fun _ => 1700000010
  marshal := fun _ => [1]
  role := "head"
  livenessEnforced := true
  retention := 86400 * 10 ^ 9

theorem produced (c : Cid) : (setup.net.block c).delta.Produced := by
  simp only [setup, Net.plain, block]
  repeat' split
  all_goals decide

abbrev Move := Crew.Move Chance Upkeep

/-- A block written gets this name. -/
def chance (written : Cid) : Chance := { nanos := 1700000020 * 10 ^ 9, dag := List.replicate 60 { cid := written } }

/-- The leave is received. -/
def first : List Move := [.enter (.receive "a" 1 "a"), .act 0 (chance "d")]

def before : SiteCrew := SiteCrew.fresh.play (setup.system (fun _ => true)) (fun _ _ => true) first

/-- The worker returns after it has been found and before it is deleted. -/
def between : List Move :=
  [.enter .cleanup, .act 0 (chance "d"), .enter (.receive "r" 2 "r"), .act 1 (chance "d")] ++
    List.replicate 3 (.act 0 (chance "d"))

/-- Both leaves are received. -/
def both : List Move := first ++ [.enter (.receive "g" 1 "g"), .act 1 (chance "x")]

def away : SiteCrew := SiteCrew.fresh.play (setup.system (fun _ => true)) (fun _ _ => true) both

/-- The worker has returned when the cleanup begins. -/
def returned : SiteCrew :=
  Crew.play (setup.system setup.cleanups) (fun _ _ => true) [.act 0 (chance "x")]
    ⟨away.state.resting.state, [(setup.system setup.cleanups).start (.receive "r" 2 "r")]⟩

/-- No record comes in. -/
def recordless (_ : Upkeep) : SiteOp → Bool
  | .process .. => false
  | _ => true

theorem recordless_off (c : SiteCrew) (i : ℕ) (task : Upkeep) (o : SiteOp) (r : o.Res) (allowed : recordless task o = true) :
    KeepsOff setup c i task o r := by
  cases o with
  | process root rootPrio b => cases allowed
  | _ => trivial

theorem returned_reach : Crew.Reach (setup.system setup.cleanups) (KeepsOff setup) away.state.resting returned := by
  refine Crew.Reach.of_turn 0 (chance "x") (fun task o next r present => ?_)
    (.next .start (.enter (Upkeep.receive "r" 2 "r") (by decide)))
  have same : task = .receive "r" 2 "r" ∧ o = .process "r" 2 "r" := by
    cases present
    exact ⟨rfl, rfl⟩
  obtain ⟨rfl, rfl⟩ := same
  exact fun e _ _ j => List.not_mem_nil

end Returning

open Returning in
/-- The cleanup finds the other peer and deletes it, and the worker stays. -/
theorem rejoined_kept_returned : ∃ c, Crew.Reach (setup.system setup.cleanups) (KeepsOff setup) away.state.resting c ∧
    (∀ t ∈ c.threads, t.prog.Ended) ∧ (away.state.table.table.lookup ["gone"]).isSome ∧
    c.state.table.table.lookup ["gone"] = none ∧ c.state.replica.set.store.lookup (valueKey ["gone"]) = none ∧
    c.state.Current setup ["worker"] [2] := by
  have reach := Crew.Reach.of_play recordless recordless_off (.enter .cleanup :: List.replicate 4 (.act 1 (chance "x"))) returned_reach
  have prior : Crew.Reach (setup.system (fun _ => true)) Crew.Anyhow SiteCrew.fresh away :=
    .of_play (fun _ _ => true) (fun _ _ _ _ _ _ => trivial) both .start
  refine ⟨_, reach, by decide, by decide, by decide, by decide, ?_⟩
  exact rejoined_kept setup produced away prior _ reach _ _ (by decide) (by decide)

open Returning in
/-- A candidate is deleted as the store and the table have it at that moment, and nobody looks
again whether it is still LEFT. -/
theorem rejoined_deleted : ¬ ∀ setup : Setup, (∀ c, (setup.net.block c).delta.Produced) → ∀ c₀,
    Crew.Reach (setup.system (fun _ => true)) Crew.Anyhow SiteCrew.fresh c₀ → ∀ c,
    Crew.Reach (setup.system setup.cleanups) Crew.Anyhow c₀.state.resting c → (∀ t ∈ c.threads, t.prog.Ended) →
    ∀ key value, c.state.latest.lookup key = some value → (setup.node.unmarshal value).status ≠ LEFT →
      c.state.Current setup key value := by
  intro always
  have current := always setup produced before (.of_play (fun _ _ => true) (fun _ _ _ _ _ _ => trivial) first .start)
    _ (.of_play (fun _ _ => true) (fun _ _ _ _ _ _ => trivial) between .start) (by decide) ["worker"] [2] (by decide) (by decide)
  exact absurd current.1 (by decide)

end OpenTela
