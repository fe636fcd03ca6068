import OpenTela.Upkeep.Effects

namespace OpenTela

open Prog

/-- The block brings records alone, of peers that have not left. -/
def Setup.announces (setup : Setup) (b : Cid) : Bool :=
  setup.records b && (setup.net.block b).delta.elements.all (fun e => decide ((setup.node.unmarshal e.value).status ≠ LEFT))

/-- What comes from outside during a pass of the probe. -/
def Setup.announcements (setup : Setup) : Upkeep → Bool
  | .receive _ _ b => setup.announces b
  | _ => false

/-- The pass, once the rows are copied. Only announcements from here on are noted. -/
def Site.probing (s : Site) (now : ℤ) : SiteCrew :=
  ⟨{ s with latest := ∅ }, [⟨.probe, probeUnreachableServicePeers.loop now (getAllPeers s.table.table)⟩]⟩

/-- The pass lets go of a peer that has announced itself since. -/
def Yields (c : SiteCrew) (_ : ℕ) (_ : Upkeep) : (o : SiteOp) → o.Res → Prop
  | .table (.record key _), _ => c.state.latest.lookup key = none
  | .publish elements _, _ => ∀ e ∈ elements, c.state.latest.lookup e.key = none
  | _, _ => True

section Threads

variable {setup : Setup}

/-- What a pass does: it writes rows and records, and takes none away. -/
def Setup.probes (setup : Setup) (_ : Upkeep) : SiteOp → Prop
  | .table (.remove _) => False
  | .publish _ tombstones => tombstones = []
  | .process _ _ b => setup.announces b = true
  | .go task => ∃ key p now, task = .retire key p now
  | _ => True

theorem retire_minds (task : Upkeep) (key : Key) (p : Peer) (now : ℤ) :
    Minds (fun _ _ => True) (setup.probes task) (retire setup key p now) := by
  have probe : Minds (fun _ _ => True) (setup.probes task) (probePeerLiveness key) := by
    rintro (_ | entry) _
    · exact ⟨trivial, trivial⟩
    · refine ⟨trivial, ?_⟩
      change Minds _ _ (if entry.relayPeer = "" then pure .unknown else SiteM.dial key entry.relayPeer)
      split
      · trivial
      · exact fun _ _ => ⟨trivial, trivial⟩
  have evict : ∀ p, Minds (fun _ _ => True) (setup.probes task) (publishEviction setup key p) := by
    intro p
    unfold publishEviction
    split
    · trivial
    · exact fun _ _ => ⟨rfl, trivial⟩
  rintro (_ | _) _
  · exact ⟨trivial, trivial⟩
  · refine ⟨trivial, probe.bind (fun verdict => ?_)⟩
    simp only
    split
    · trivial
    · split
      · trivial
      · exact Minds.bind (SiteM.table_minds (hookRecord_minds (fun _ => trivial) (fun _ _ => trivial))) (fun _ => evict _)

theorem probe_minds (task : Upkeep) (now : ℤ) (rows : List (Key × Peer)) :
    Minds (fun _ _ => True) (setup.probes task) (probeUnreachableServicePeers.loop now rows) := by
  induction rows with
  | nil => trivial
  | cons row rest ih =>
    obtain ⟨key, p⟩ := row
    unfold probeUnreachableServicePeers.loop
    split
    · exact ih
    · rintro (_ | _) _
      · exact ⟨trivial, fun _ _ => ⟨⟨key, p, now, rfl⟩, ih⟩⟩
      · exact ⟨trivial, ih⟩

end Threads

/-- What holds along the pass. -/
structure Site.Heard (setup : Setup) (s : Site) : Prop where
  sound : s.Sound setup
  current : ∀ key value, s.latest.lookup key = some value → s.Current setup key value

section Steps

variable {setup : Setup} {i : ℕ} {chance : Chance} {s s' : Site}

/-- An announcement that is taken up is the last one of its peer. -/
theorem Site.Heard.process (produced : ∀ c, (setup.net.block c).delta.Produced) (heard : s.Heard setup) {root b : Cid}
    {rootPrio : ℕ} {out : Except String Unit} (announces : setup.announces b = true)
    (executed : Site.exec setup i chance (.process root rootPrio b) s = some (out, s')) : s'.Heard setup := by
  obtain ⟨sound, mid, calls, t, merged⟩ := site_process produced heard.sound executed
  obtain ⟨records, stay⟩ := Bool.and_eq_true_iff.mp announces
  obtain ⟨alive, others⟩ := Setup.records_iff.mp records
  refine ⟨sound, fun key value last => ?_⟩
  by_cases named : key ∈ (setup.net.block b).delta.keys
  · obtain ⟨e, member, rfl⟩ := List.mem_map.mp named
    obtain ⟨other, admitted⟩ := others e member
    have stays := of_decide_eq_true (List.all_eq_true.mp stay e member)
    rcases merged.element (produced b) heard.sound member (alive _) with ⟨stored, latest, row⟩ | ⟨stored, row, latest⟩
    · have same : e.value = value := by simpa [latest] using last
      subst same
      exact ⟨stored, row other admitted stays⟩
    · rw [latest] at last
      exact (heard.current _ _ last).congr stored row
  · obtain ⟨stored, row, latest⟩ := merged.other named (alive key)
    rw [latest] at last
    exact (heard.current _ _ last).congr stored row

/-- A record written of a peer that has not announced itself leaves the others' alone. -/
theorem Site.Heard.publish (produced : ∀ c, (setup.net.block c).delta.Produced) (heard : s.Heard setup)
    {elements : List Element} {out : Except String Unit} (yields : ∀ e ∈ elements, s.latest.lookup e.key = none)
    (executed : Site.exec setup i chance (.publish elements []) s = some (out, s')) : s'.Heard setup := by
  obtain ⟨sound, ⟨_, same, set⟩ | ⟨b, mid, calls, t, block, merged⟩⟩ := site_publish produced heard.sound executed
  · refine ⟨sound, fun key value last => ?_⟩
    have noted : s'.latest = s.latest := by rw [same]
    have table : s'.table = s.table := by rw [same]
    rw [noted] at last
    exact (heard.current _ _ last).congr (by rw [set]) (by rw [table])
  · refine ⟨sound, fun key value last => ?_⟩
    have noted : s'.latest = s.latest := by simpa using merged.latest
    rw [noted] at last
    have absent : key ∉ (setup.net.block b).delta.keys := by
      rw [block]
      intro named
      obtain ⟨e, member, rfl⟩ := List.mem_map.mp named
      rw [yields e member] at last
      cases last
    have alive : ¬ ((setup.net.block b).delta.tombIds key).Nonempty := by
      rw [block]
      rintro ⟨_, _, member, _⟩
      cases member
    obtain ⟨stored, row, _⟩ := merged.other absent alive
    exact (heard.current _ _ last).congr stored row

theorem Site.Heard.table (heard : s.Heard setup) {o : TableOp} {r : o.Res}
    (spares : ∀ key value, s.latest.lookup key = some value → o.Spares key)
    (executed : Site.exec setup i chance (.table o) s = some (r, s')) : s'.Heard setup := by
  obtain ⟨t, stepped, same⟩ := site_table executed
  have replica : s'.replica = s.replica := by rw [same]
  have table : s'.table = t := by rw [same]
  have noted : s'.latest = s.latest := by rw [same]
  refine ⟨⟨replica ▸ heard.sound.sane, replica ▸ heard.sound.free⟩, fun key value last => ?_⟩
  rw [noted] at last
  refine (heard.current _ _ last).congr (by rw [replica]) ?_
  rw [table]
  exact execTable_spares (spares key value last) stepped

theorem Site.Heard.step (produced : ∀ c, (setup.net.block c).delta.Produced) {c : SiteCrew} {task : Upkeep}
    (heard : c.state.Heard setup) {o : SiteOp} {r : o.Res} (executed : Site.exec setup i chance o c.state = some (r, s'))
    (yields : Yields c i task o r) (safe : setup.probes task o) : s'.Heard setup := by
  by_cases quiet : o.Quiet
  · rw [site_quiet quiet executed]
    exact ⟨⟨heard.sound.sane, heard.sound.free⟩, heard.current⟩
  · cases o with
    | table o =>
      refine heard.table (fun key value last => ?_) executed
      cases o with
      | record k p =>
        rintro rfl
        rw [show c.state.latest.lookup k = none from yields] at last
        cases last
      | remove k => exact safe.elim
      | _ => trivial
    | publish elements tombstones =>
      obtain rfl : tombstones = [] := safe
      exact heard.publish produced yields executed
    | process root rootPrio b => exact heard.process produced safe executed
    | _ => exact absurd trivial quiet

end Steps

/-- A pass of the liveness probe begun on any node, with announcements coming in at any moment:
if it lets go of every peer that announces itself, store and table have what was announced. -/
theorem eviction_yields (setup : Setup) (produced : ∀ c, (setup.net.block c).delta.Produced) (c₀ : SiteCrew)
    (before : Crew.Reach (setup.system (fun _ => true)) Crew.Anyhow SiteCrew.fresh c₀) (now : ℤ) (c : SiteCrew)
    (reach : Crew.Reach (setup.system setup.announcements) Yields (c₀.state.probing now) c) :
    ∀ key value, c.state.latest.lookup key = some value → c.state.Current setup key value := by
  have begins : Site.Heard setup { c₀.state with latest := ∅ } := by
    refine ⟨⟨(sound_of_reach produced before).sane, (sound_of_reach produced before).free⟩, fun key value last => ?_⟩
    rw [AList.lookup_empty] at last
    cases last
  refine (reach.keeps (fun _ _ => True) setup.probes (fun c => c.state.Heard setup) ?_ begins ?_ (fun _ _ _ _ _ _ _ _ => trivial)
    (fun _ _ heard => heard) (fun c i chance task o next r s heard _ executed yields safe =>
      heard.step produced executed yields safe)).current
  · intro t member
    obtain rfl := List.mem_singleton.mp member
    exact probe_minds _ now _
  · rintro task (outside | ⟨t, o, safe, started⟩)
    · cases task with
      | receive root rootPrio b => exact fun _ _ => ⟨outside, trivial⟩
      | _ => cases outside
    · cases o with
      | go task' =>
        obtain rfl := List.mem_singleton.mp started
        obtain ⟨key, p, then_, rfl⟩ := safe
        exact retire_minds _ key p then_
      | _ => cases started

namespace Ghost

def worker (services : List Service) : Peer :=
  { id := "worker", service := services, lastSeen := 1700000000, relayPeer := "relay" }

def lost : Peer := { id := "lost", service := [{ name := "llm" }], lastSeen := 1700000000, relayPeer := "relay" }

def node : Node where
  myID := "head"
  crypto := Reconnected.node.crypto
  unmarshal
    | [1] => worker [{ name := "llm" }]
    | [2] => worker [{ name := "llm" }, { name := "embed" }]
    | [4] => lost
    | [5] => { lost with status := LEFT, evictedBy := "head" }
    | _ => { worker [{ name := "llm" }] with status := LEFT, evictedBy := "head" }

/-- `a` and `r` are announcements of the worker, `e` is its eviction; `o` announces another peer,
and `f` evicts that one. -/
def block (c : Cid) : Block :=
  if c = "a" then ⟨.of (add ["worker"] [1]) [] 1, []⟩
  else if c = "r" then ⟨.of (add ["worker"] [2]) [] 2, ["a"]⟩
  else if c = "e" then ⟨newDelta (add ["worker"] [3]) [] 2, ["r"]⟩
  else if c = "o" then ⟨.of (add ["lost"] [4]) [] 1, []⟩
  else if c = "f" then ⟨newDelta (add ["lost"] [5]) [] 2, ["r", "o"]⟩
  else ⟨.of [] [] 0, []⟩

def setup : Setup where
  node := node
  net := .plain block
  clock := fun _ => 1700000010
  marshal := fun p => if p.id = "lost" then [5] else [3]
  role := "head"
  livenessEnforced := true
  retention := 86400 * 10 ^ 9

theorem produced (c : Cid) : (setup.net.block c).delta.Produced := by
  simp only [setup, Net.plain, block]
  repeat' split
  all_goals decide

abbrev Move := Crew.Move Chance Upkeep

/-- A step of a thread; the relay answers so, and a block written gets this name. -/
def turn (written : Cid) (verdict : Verdict) (i : ℕ) : Move := .act i { verdict, dag := List.replicate 60 { cid := written } }

/-- The first announcement is received, and a connection to the worker is opened. -/
def first : List Move :=
  .enter (.receive "a" 1 "a") :: turn "e" .alive 0 :: .enter (.update (.connect "worker")) :: List.replicate 4 (turn "e" .alive 1)

def before : SiteCrew := SiteCrew.fresh.play (setup.system (fun _ => true)) (fun _ _ => true) first

/-- The worker announces itself again while its relay is asked, and is evicted. -/
def again : List Move :=
  [turn "e" .unknown 0, turn "e" .unknown 0, turn "e" .unknown 1, turn "e" .unknown 1, .enter (.receive "r" 2 "r"),
    turn "e" .unknown 2] ++ List.replicate 3 (turn "e" .deadAuthoritative 1)

/-- Both peers are announced, and a connection to each is opened. -/
def both : List Move :=
  first ++ .enter (.receive "o" 1 "o") :: turn "f" .alive 2 :: .enter (.update (.connect "lost")) ::
    List.replicate 4 (turn "f" .alive 3)

def known : SiteCrew := SiteCrew.fresh.play (setup.system (fun _ => true)) (fun _ _ => true) both

/-- The relay is asked about both. It has lost the one, and the other announces itself meanwhile. -/
def asked : List Move :=
  List.replicate 4 (turn "f" .unknown 0) ++ [turn "f" .unknown 1, turn "f" .unknown 1, .enter (.receive "r" 2 "r"),
    turn "f" .unknown 3] ++ List.replicate 3 (turn "f" .deadAuthoritative 1) ++ List.replicate 3 (turn "f" .alive 2)

/-- Nothing is written of a peer that has announced itself. -/
def yielding (c : SiteCrew) (_ : ℕ) (_ : Upkeep) : SiteOp → Bool
  | .table (.record key _) => decide (c.state.latest.lookup key = none)
  | .publish elements _ => elements.all (fun e => decide (c.state.latest.lookup e.key = none))
  | _ => true

theorem yielding_yields (c : SiteCrew) (i : ℕ) (task : Upkeep) (o : SiteOp) (r : o.Res) (fine : yielding c i task o = true) :
    Yields c i task o r := by
  cases o with
  | table o =>
    cases o with
    | record key p =>
      have unheard : c.state.latest.lookup key = none := of_decide_eq_true fine
      exact unheard
    | _ => trivial
  | publish elements tombstones => exact fun e member => of_decide_eq_true (List.all_eq_true.mp fine e member)
  | _ => trivial

end Ghost

open Ghost in
/-- The pass evicts the peer that is lost; the second announcement of the other one stays. -/
theorem eviction_yields_alive : ∃ c, Crew.Reach (setup.system setup.announcements) Yields (known.state.probing 1700000020000000000) c ∧
    (∀ t ∈ c.threads, t.prog.Ended) ∧ (c.state.table.table.lookup ["lost"]).map Peer.connected = some false ∧
    c.state.replica.set.store.lookup (valueKey ["lost"]) = some [5] ∧ c.state.latest.lookup ["worker"] = some [2] ∧
    c.state.Current setup ["worker"] [2] := by
  have reach := Crew.Reach.of_checked yielding yielding_yields asked (by decide)
    (.start : Crew.Reach (setup.system setup.announcements) Yields (known.state.probing 1700000020000000000) _)
  have prior : Crew.Reach (setup.system (fun _ => true)) Crew.Anyhow SiteCrew.fresh known :=
    .of_play (fun _ _ => true) (fun _ _ _ _ _ _ => trivial) both .start
  refine ⟨_, reach, by decide, by decide, by decide, by decide, ?_⟩
  exact eviction_yields setup produced known prior 1700000020000000000 _ reach _ _ (by decide)

open Ghost in
/-- The verdict is one on the row that was copied: the worker announces itself, and is evicted
with a record above its announcement. -/
theorem eviction_overrides : ¬ ∀ setup : Setup, (∀ c, (setup.net.block c).delta.Produced) → ∀ c₀,
    Crew.Reach (setup.system (fun _ => true)) Crew.Anyhow SiteCrew.fresh c₀ → ∀ now c,
    Crew.Reach (setup.system setup.announcements) Crew.Anyhow (c₀.state.probing now) c → (∀ t ∈ c.threads, t.prog.Ended) →
    ∀ key value, c.state.latest.lookup key = some value → c.state.Current setup key value := by
  intro always
  have current := always setup produced before (.of_play (fun _ _ => true) (fun _ _ _ _ _ _ => trivial) first .start)
    1700000020000000000 _ (.of_play (fun _ _ => true) (fun _ _ _ _ _ _ => trivial) again .start)
    (by decide) ["worker"] [2] (by decide)
  exact absurd current.1 (by decide)

end OpenTela
