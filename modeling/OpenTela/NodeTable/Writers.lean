import OpenTela.Crdt.HookCalls
import OpenTela.NodeTable.Json
import OpenTela.NodeTable.Departed
import OpenTela.NodeTable.Discipline
import OpenTela.NodeTable.Mirror

namespace OpenTela

open Prog

/-- `path.Clean` on a rooted path; the root itself is the key `/`. -/
def cleanKey (parts : List String) : Key :=
  let kept := parts.foldl (fun kept part =>
    if part = "" ∨ part = "." then kept else if part = ".." then kept.dropLast else kept ++ [part]) []
  if kept = [] then [""] else kept

/-- `ds.Key.ChildString`. -/
def childString (key : Key) (s : String) : Key := cleanKey (key ++ peerKey s)

/-- The CRDT namespace of usage records. -/
def CRDTNamespaceUsage : Key := ["usage"]

def getAggregateKey (peerID service metricName : String) (windowStart : ℤ) : Key :=
  childString (childString (childString (childString CRDTNamespaceUsage peerID) service) metricName) (toString windowStart)

def AggregatedUsage.key (u : AggregatedUsage) : Key := getAggregateKey u.peerID u.service u.metricName u.windowStart

/-- What `RegisterRemotePeer` makes of a record. -/
def registered (p : Peer) (now : ℤ) : Peer := { p with connected := false, lastSeen := now }

/-- What `publishEviction` makes of a row. -/
def evicted (p : Peer) (myID : String) : Peer := { p with status := LEFT, connected := false, evictedBy := myID }

/-- Nodes running this code: what has been written to the CRDT so far, and the set and the
node table of each of them. -/
structure Mesh (ν : Type) where
  written : List (Key × Bytes)
  set : ν → World Unit
  table : ν → TableWorld Unit

def Mesh.empty {ν : Type} : Mesh ν := { written := [], set := fun _ => .empty, table := fun _ => .empty }

section Mesh

variable {ν : Type} [DecidableEq ν] (nodes : ν → Node) (print : Json → Bytes) (clock : ℕ → ℤ)
  (may : ν → Key → Bytes → Prop)

def Mesh.write (m : Mesh ν) (key : Key) (j : Json) : Mesh ν := { m with written := m.written ++ [(key, print j)] }

/-- What the nodes write: their own record (also the one in which they leave), that of a
remote peer, the eviction of a row that carries a service, and usage aggregates. -/
inductive Mesh.Writes (m : Mesh ν) : Key → Json → Prop
  | self (n : ν) (p : Peer) : p.id = (nodes n).myID → Mesh.Writes m (peerKey p.id) p.toJson
  | remote (p : Peer) (now : ℤ) : Mesh.Writes m (peerKey p.id) (registered p now).toJson
  | evict (n : ν) {key : Key} {row : Peer} : (m.table n).table.lookup key = some row → row.connected = true →
      row.service ≠ [] → Mesh.Writes m key (evicted row (nodes n).myID).toJson
  | aggregate (u : AggregatedUsage) : Mesh.Writes m u.key u.toJson

/-- The nodes read the text of the value as `json.Unmarshal` does. -/
def Reads (j : Json) : Prop := ∀ n, (nodes n).unmarshal (print j) = Peer.ofJson j

/-- One move of the mesh: something is written, or a node calls the hook with something
written, merges a delta of what was written, or updates a row. Only what `may` reach the hook
of a node does. -/
inductive Mesh.Step : Mesh ν → Mesh ν → Prop
  | write {m : Mesh ν} {key : Key} {j : Json} : m.Writes nodes key j → Reads nodes print j → Mesh.Step m (m.write print key j)
  | hook {m : Mesh ν} (n : ν) {key : Key} {value : Bytes} {t : TableWorld Unit} : (key, value) ∈ m.written → may n key value →
      (updateNodeTableHook (nodes n) key value).run (execTable clock ()) (m.table n) = some (.ok (), t) →
      Mesh.Step m { m with table := Function.update m.table n t }
  | merge {m : Mesh ν} (n : ν) {x : Delivery} {w : World Unit} {t : TableWorld Unit} :
      (∀ e ∈ x.delta.elements, (e.key, e.value) ∈ m.written ∧ may n e.key e.value) →
      mergeHooked (nodes n) clock x (m.set n) (m.table n) = some (w, t) →
      Mesh.Step m { m with set := Function.update m.set n w, table := Function.update m.table n t }
  | update {m : Mesh ν} (n : ν) {job : Job} {t : TableWorld Unit} : job.fromStore = false →
      (job.program (nodes n)).run (execTable clock ()) (m.table n) = some (.ok (), t) →
      Mesh.Step m { m with table := Function.update m.table n t }

inductive Mesh.Reach : Mesh ν → Prop
  | start : Mesh.Reach Mesh.empty
  | next {m m' : Mesh ν} : Mesh.Reach m → Mesh.Step nodes print clock may m m' → Mesh.Reach m'

/-- A usage aggregate reaches the hook only of nodes that insist on signed builds. -/
def Shielded (n : ν) (key : Key) (value : Bytes) : Prop :=
  (∃ u : AggregatedUsage, key = u.key ∧ value = print u.toJson) → (nodes n).requireSignedBinary = true ∧ (nodes n).myID ≠ ""

end Mesh

/-- Every row is stored under the key of its own peer. -/
def OwnKeys (table : NodeTable) : Prop := ∀ key row, table.lookup key = some row → key = peerKey row.id

section Rows

variable {node : Node} {clock : ℕ → ℤ} {t u : TableWorld Unit}

/-- A row that is read is under its own key. -/
def ownRead : (o : TableOp) → o.Res → Prop
  | .get key, r => ∀ row : Peer, r = some row → key = peerKey row.id
  | _, _ => True

/-- A row that is written is under its own key. -/
def ownWrite : TableOp → Prop
  | .record key p => key = peerKey p.id
  | _ => True

theorem stored_id (existing : Option Peer) (p : Peer) (now : ℤ) : (stored existing p now).id = p.id := by
  unfold stored
  split <;> rfl

theorem OwnKeys.run {p : TableM Unit} (own : OwnKeys t.table) (minds : Minds ownRead ownWrite p)
    (ran : p.run (execTable clock ()) t = some (.ok (), u)) : OwnKeys u.table := by
  refine minds.run (fun s : TableWorld Unit => OwnKeys s.table) (fun o s r s' own executed => ?_)
    (fun o s r s' own fine executed key row found => ?_) own ran
  · cases o with
    | get key =>
      rintro row rfl
      obtain ⟨found, _⟩ := Prod.mk.inj (Option.some.inj executed)
      exact own key row found
    | _ => trivial
  · rcases execTable_lookup executed found with before | ⟨peer, rfl, rfl⟩
    · exact own key row before
    · rw [stored_id]
      exact fine

theorem OwnKeys.job {job : Job} (own : OwnKeys t.table) (isLocal : job.fromStore = false)
    (ran : (job.program node).run (execTable clock ()) t = some (.ok (), u)) : OwnKeys u.table := by
  refine own.run (Job.program_minds isLocal (fun _ => trivial) trivial (fun _ => trivial) ?_) ran
  intro id row connected lastSeen p found vetted
  rw [vetted_fields vetted]
  cases row with
  | none => rfl
  | some row => exact found row rfl

/-- What may reach the hook: a record under its own key, or one the checks reject. -/
def Welcome (node : Node) (key : Key) (value : Bytes) : Prop :=
  key = peerKey (node.unmarshal value).id ∨
    ∀ connected, node.vetted { node.unmarshal value with connected := connected }.published = none

theorem OwnKeys.putHook {key : Key} {value : Bytes} (own : OwnKeys t.table) (welcome : Welcome node key value)
    (ran : (OpenTela.putHook node key value).run (execTable clock ()) t = some (.ok (), u)) : OwnKeys u.table := by
  refine own.run (putHook_minds trivial (fun _ => trivial) (fun _ row _ p vetted => ?_)) ran
  rcases welcome with same | rejected
  · rw [vetted_fields vetted]
    exact same
  · rw [rejected] at vetted
    cases vetted

theorem OwnKeys.hook {key : Key} {value : Bytes} (own : OwnKeys t.table) (published : (node.unmarshal value).published = node.unmarshal value)
    (welcome : Welcome node key value)
    (ran : (updateNodeTableHook node key value).run (execTable clock ()) t = some (.ok (), u)) : OwnKeys u.table := by
  refine own.run (hookRecord_minds (fun _ => trivial) (fun p vetted => ?_)) ran
  rcases welcome with same | rejected
  · rw [vetted_fields vetted]
    exact same
  · have none := rejected (node.unmarshal value).connected
    rw [show ({ node.unmarshal value with connected := (node.unmarshal value).connected } : Peer).published =
      node.unmarshal value from published, vetted] at none
    cases none

theorem OwnKeys.hooks {calls : List Hook} (own : OwnKeys t.table)
    (welcome : ∀ key value, Hook.put key value ∈ calls → Welcome node key value)
    (ran : runHooks node clock calls t = some u) : OwnKeys u.table := by
  induction calls generalizing t with
  | nil =>
    cases ran
    exact own
  | cons h rest ih =>
    simp only [runHooks] at ran
    split at ran
    · rename_i v first
      refine ih ?_ (fun key value member => welcome key value (List.mem_cons_of_mem _ member)) ran
      cases h with
      | put key value => exact own.putHook (welcome key value (List.mem_cons_self ..)) first
      | delete key => exact own.run (p := deleteHook key) (fun _ _ => ⟨trivial, trivial⟩) first
    · cases ran

theorem OwnKeys.merge {x : Delivery} {w w' : World Unit} (own : OwnKeys t.table)
    (welcome : ∀ e ∈ x.delta.elements, Welcome node e.key e.value)
    (ran : mergeHooked node clock x w t = some (w', u)) : OwnKeys u.table := by
  unfold mergeHooked at ran
  split at ran
  · rename_i v merged
    obtain ⟨t', hooked, same⟩ := Option.map_eq_some_iff.mp ran
    obtain ⟨rfl, rfl⟩ := Prod.mk.inj same
    obtain ⟨new, grown, calls⟩ := merge_hook_calls merged
    rw [grown, List.drop_left] at hooked
    refine own.hooks (fun key value member => ?_) hooked
    rcases calls _ member with ⟨_, same⟩ | ⟨e, inDelta, same⟩
    · cases same
    · cases same
      exact welcome e inDelta
  · cases ran

end Rows

section Keys

theorem toList_toString (n : ℤ) : (toString n).toList ≠ [] ∧ ∀ c ∈ (toString n).toList, c.isDigit = true ∨ c = '-' := by
  have digits : ∀ m : ℕ, m.repr.toList ≠ [] ∧ ∀ c ∈ m.repr.toList, c.isDigit = true ∨ c = '-' := by
    intro m
    rw [Nat.toList_repr]
    exact ⟨Nat.toDigits_ne_nil, fun c member => Or.inl (Nat.isDigit_of_mem_toDigits (by decide) (by decide) member)⟩
  cases n with
  | ofNat m => exact digits m
  | negSucc m =>
    change (("-" ++ (m + 1).repr).toList ≠ [] ∧ ∀ c ∈ ("-" ++ (m + 1).repr).toList, _)
    rw [String.toList_append]
    refine ⟨by simp, fun c member => ?_⟩
    rcases List.mem_append.mp member with sign | digit
    · exact Or.inr (by simpa using sign)
    · exact (digits (m + 1)).2 c digit

/-- A decimal number is one namespace of a key, and no dots. -/
theorem peerKey_toString (n : ℤ) : peerKey (toString n) = [toString n] ∧ toString n ≠ "" ∧ toString n ≠ "." ∧ toString n ≠ ".." := by
  obtain ⟨nonempty, chars⟩ := toList_toString n
  have without : ∀ c, c.isDigit = false → c ≠ '-' → c ∉ (toString n).toList := by
    intro c noDigit noSign member
    rcases chars c member with digit | sign
    · rw [noDigit] at digit
      cases digit
    · exact noSign sign
  refine ⟨?_, fun same => ?_, fun same => ?_, fun same => ?_⟩
  · rw [peerKey, List.splitOn_eq_singleton (without '/' (by decide) (by decide)), List.map_singleton, String.ofList_toList]
  · rw [same] at nonempty
    exact nonempty rfl
  · exact without '.' (by decide) (by decide) (by rw [same]; decide)
  · exact without '.' (by decide) (by decide) (by rw [same]; decide)

theorem getAggregateKey_ne_root (peerID service metricName : String) (windowStart : ℤ) :
    getAggregateKey peerID service metricName windowStart ≠ [""] := by
  obtain ⟨one, nonempty, dot, dots⟩ := peerKey_toString windowStart
  have last : ∀ key, childString key (toString windowStart) ≠ [""] := by
    intro key
    rw [childString, one, cleanKey, List.foldl_append, List.foldl_cons, List.foldl_nil]
    simp only [nonempty, dot, dots, or_self, if_false]
    rw [if_neg (by simp)]
    intro same
    have ends := congrArg List.getLast? same
    rw [List.getLast?_append_of_ne_nil _ (List.cons_ne_nil _ _)] at ends
    exact nonempty (Option.some.inj ends)
  exact last _

end Keys

section Runs

variable {ν : Type} {nodes : ν → Node} {print : Json → Bytes} {clock : ℕ → ℤ}

/-- What nodes have written is a record under its own key, or a usage aggregate under its. -/
def Written (nodes : ν → Node) (print : Json → Bytes) (key : Key) (value : Bytes) : Prop :=
  (∃ p : Peer, key = peerKey p.id ∧ value = print p.toJson ∧ Reads nodes print p.toJson) ∨
    ∃ u : AggregatedUsage, key = u.key ∧ value = print u.toJson ∧ Reads nodes print u.toJson

structure Mesh.Tidy (nodes : ν → Node) (print : Json → Bytes) (m : Mesh ν) : Prop where
  written : ∀ key value, (key, value) ∈ m.written → Written nodes print key value
  rows : ∀ n, OwnKeys (m.table n).table

/-- A node that insists on signed builds rejects what has neither id nor attestation. -/
theorem vetted_anonymous {node : Node} (enforced : node.requireSignedBinary = true) (named : node.myID ≠ "") (connected : Bool) :
    node.vetted { connected := connected } = none := by
  simp [Node.vetted, Node.signed, enforced, Ne.symm named]

theorem Written.welcome {n : ν} {key : Key} {value : Bytes} (written : Written nodes print key value)
    (shielded : Shielded nodes print n key value) :
    Welcome (nodes n) key value ∧ ((nodes n).unmarshal value).published = (nodes n).unmarshal value := by
  rcases written with ⟨p, rfl, rfl, reads⟩ | ⟨u, rfl, rfl, reads⟩
  · rw [Welcome, reads n, Peer.ofJson_toJson]
    exact ⟨Or.inl rfl, rfl⟩
  · obtain ⟨enforced, named⟩ := shielded ⟨u, rfl, rfl⟩
    rw [Welcome, reads n, Peer.ofJson_usage]
    exact ⟨Or.inr (vetted_anonymous enforced named), rfl⟩

theorem Mesh.Tidy.wrote {m : Mesh ν} (tidy : m.Tidy nodes print) {key : Key} {j : Json} (writes : m.Writes nodes key j)
    (reads : Reads nodes print j) : (m.write print key j).Tidy nodes print := by
  refine ⟨fun k value member => ?_, tidy.rows⟩
  rcases List.mem_append.mp member with old | new
  · exact tidy.written k value old
  · cases List.mem_singleton.mp new
    cases writes with
    | self n p _ => exact Or.inl ⟨p, rfl, rfl, reads⟩
    | remote p now => exact Or.inl ⟨registered p now, rfl, rfl, reads⟩
    | @evict n key row found _ _ => exact Or.inl ⟨evicted row (nodes n).myID, tidy.rows n key row found, rfl, reads⟩
    | aggregate u => exact Or.inr ⟨u, rfl, rfl, reads⟩

theorem Mesh.Tidy.updated [DecidableEq ν] {m : Mesh ν} (tidy : m.Tidy nodes print) {n : ν} {t : TableWorld Unit} (own : OwnKeys t.table) (set : ν → World Unit) :
    Mesh.Tidy nodes print { m with set := set, table := Function.update m.table n t } := by
  refine ⟨tidy.written, fun k => ?_⟩
  change OwnKeys (Function.update m.table n t k).table
  by_cases same : k = n
  · subst same
    rw [Function.update_self]
    exact own
  · rw [Function.update_of_ne same]
    exact tidy.rows k

theorem Mesh.Tidy.step [DecidableEq ν] {m m' : Mesh ν} (tidy : m.Tidy nodes print)
    (step : Mesh.Step nodes print clock (Shielded nodes print) m m') : m'.Tidy nodes print := by
  cases step with
  | write writes reads => exact tidy.wrote writes reads
  | hook n member shielded ran =>
    obtain ⟨welcome, published⟩ := (tidy.written _ _ member).welcome shielded
    exact tidy.updated ((tidy.rows n).hook published welcome ran) m.set
  | merge n elements ran =>
    refine tidy.updated ((tidy.rows n).merge (fun e member => ?_) ran) _
    obtain ⟨here, shielded⟩ := elements e member
    exact ((tidy.written _ _ here).welcome shielded).1
  | update n isLocal ran => exact tidy.updated ((tidy.rows n).job isLocal ran) m.set

end Runs

/-- Every row is stored under the key of its own peer, as long as usage aggregates reach the
hook only of nodes that insist on signed builds; one that reaches the hook of another node
leaves a row that is not. -/
theorem rows_under_own_key {ν : Type} [DecidableEq ν] (nodes : ν → Node) (print : Json → Bytes) (clock : ℕ → ℤ) :
    (∀ m, Mesh.Reach nodes print clock (Shielded nodes print) m →
      ∀ n key row, (m.table n).table.lookup key = some row → key = peerKey row.id) ∧
    ∀ n (u : AggregatedUsage) t, Reads nodes print u.toJson → (nodes n).requireSignedBinary = false → u.key ≠ peerKey (nodes n).myID →
      ∃ t' row, (putHook (nodes n) u.key (print u.toJson)).run (execTable clock ()) t = some (.ok (), t') ∧
        t'.table.lookup u.key = some row ∧ u.key ≠ peerKey row.id := by
  refine ⟨fun m reach => ?_, fun n u t reads lenient other => ?_⟩
  · have tidy : m.Tidy nodes print := by
      induction reach with
      | start =>
        refine ⟨fun key value member => absurd member List.not_mem_nil, fun n key row found => ?_⟩
        rw [Mesh.empty, TableWorld.empty, AList.lookup_empty] at found
        cases found
      | next _ step ih => exact ih.step step
    exact tidy.rows
  · let anonymous : Peer := { connected := (t.table.lookup u.key).elim false Peer.connected }
    let read : TableWorld Unit := { t with history := t.history ++ [.read () u.key] }
    obtain ⟨t', ran, table⟩ := hookRecord_run (nodes n) clock () u.key anonymous read
    have program : (putHook (nodes n) u.key (print u.toJson)).run (execTable clock ()) t =
        (hookRecord (nodes n) u.key anonymous).run (execTable clock ()) read := by
      rw [putHook, if_neg other, reads n, Peer.ofJson_usage]
      rfl
    have accepted : (nodes n).accepts read.table anonymous = some anonymous := by
      have stays : anonymous.status ≠ LEFT := show "" ≠ LEFT by decide
      have unsigned : (nodes n).vetted anonymous = some anonymous := by
        simp [Node.vetted, lenient, anonymous, Node.signed, Node.trust, trustUntrusted]
      simp [Node.accepts, unsigned, stays]
    rw [accepted] at table
    refine ⟨t', _, program.trans ran, by rw [table]; exact AList.lookup_insert _, ?_⟩
    rw [stored_id]
    exact getAggregateKey_ne_root _ _ _ _

namespace Metered

def worker : Peer := { id := "worker", service := [{ name := "llm" }], lastSeen := 1700000000 }

/-- The tokens a worker has counted in an hour. -/
def tokens : AggregatedUsage where
  peerID := "worker"
  service := "llm"
  metricName := "tokens"
  totalValue := 1200
  recordCount := 3
  windowStart := 1700000000
  windowEnd := 1700003600
  signature := ""

/-- Two texts, one of the worker's record and one of its usage, are enough here. -/
def print : Json → Bytes
  | .obj (("id", _) :: _) => [1]
  | _ => [2]

def nodes (worker : Bool) : Node where
  myID := if worker then "worker" else "me"
  crypto := { base58 := fun _ => none, base64 := fun _ => none, hex := fun _ => none, identityPayload := fun _ _ _ => [],
              verify := fun _ _ _ => false }
  unmarshal := fun value => if value = [1] then Metered.worker else {}

theorem reads_worker : Reads nodes print worker.toJson := by
  intro n
  rw [Peer.ofJson_toJson]
  rfl

theorem reads_tokens : Reads nodes print tokens.toJson := by
  intro n
  rw [Peer.ofJson_usage]
  rfl

def dag (id : Id) : Option Delta :=
  if id = "a" then some (.of (add ["worker"] [1]) [] 1) else if id = "b" then some (.of (add tokens.key [2]) [] 2) else none

def deliver (id : Id) (key : Key) (value : Bytes) (prio : ℕ) : Delivery :=
  { env := Env.plain dag, id, delta := .of (add key value) [] prio }

end Metered

open Metered in
/-- The worker's record arrives at the other node. -/
theorem rows_under_own_key_announced : ∃ m, Mesh.Reach nodes print (fun _ => 1700000010) (Shielded nodes print) m ∧
    (m.table false).table.lookup ["worker"] ≠ none ∧
    ∀ n key row, (m.table n).table.lookup key = some row → key = peerKey row.id := by
  obtain ⟨⟨w, t⟩, ran, found⟩ : ∃ s, mergeHooked (nodes false) (fun _ => 1700000010) (deliver "a" ["worker"] [1] 1) World.empty
      TableWorld.empty = some s ∧ s.2.table.lookup ["worker"] ≠ none := ⟨_, rfl, by decide⟩
  have reach : Mesh.Reach nodes print (fun _ => 1700000010) (Shielded nodes print)
      { (Mesh.empty : Mesh Bool).write print ["worker"] worker.toJson with
        set := Function.update (Mesh.empty : Mesh Bool).set false w, table := Function.update (Mesh.empty : Mesh Bool).table false t } := by
    refine .next (.next .start (.write (.self true worker rfl) reads_worker)) (.merge false (x := deliver "a" ["worker"] [1] 1) ?_ ran)
    intro e member
    obtain rfl := List.mem_singleton.mp member
    refine ⟨by decide, ?_⟩
    rintro ⟨u, _, same⟩
    exact absurd same (show ([1] : Bytes) ≠ [2] by decide)
  exact ⟨_, reach, found, (rows_under_own_key nodes print (fun _ => 1700000010)).1 _ reach⟩

open Metered in
/-- A usage aggregate arrives, and a row without an id is written under its key. -/
theorem row_under_foreign_key : ¬ ∀ m, Mesh.Reach nodes print (fun _ => 1700000010) (fun _ _ _ => True) m →
    ∀ n key row, (m.table n).table.lookup key = some row → key = peerKey row.id := by
  intro always
  obtain ⟨⟨w, t⟩, ran, found⟩ : ∃ s, mergeHooked (nodes false) (fun _ => 1700000010) (deliver "b" tokens.key [2] 2) World.empty
      TableWorld.empty = some s ∧ s.2.table.lookup tokens.key = some { lastSeen := 1700000010 } := ⟨_, rfl, by decide⟩
  have reach : Mesh.Reach nodes print (fun _ => 1700000010) (fun _ _ _ => True)
      { (Mesh.empty : Mesh Bool).write print tokens.key tokens.toJson with
        set := Function.update (Mesh.empty : Mesh Bool).set false w, table := Function.update (Mesh.empty : Mesh Bool).table false t } := by
    refine .next (.next .start (.write (.aggregate tokens) reads_tokens)) (.merge false (x := deliver "b" tokens.key [2] 2) ?_ ran)
    intro e member
    obtain rfl := List.mem_singleton.mp member
    exact ⟨by decide, trivial⟩
  have same := always _ reach false tokens.key _ found
  exact absurd same (by decide)

end OpenTela
