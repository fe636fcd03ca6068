import OpenTela.NodeTable.Updates

namespace OpenTela

open TableM

abbrev TableTriple {τ : Type} (clock : ℕ → ℤ) (jobs : τ → Job) (i : τ) {α : Type} (p : TableM α)
    (post : α → TableWorld τ → Prop) (w : TableWorld τ) : Prop :=
  Prog.Holds (execTable clock i) (fun _ => False) (Grows jobs (· ≠ i)) (Grows jobs (· = i)) p post w

section Triples

variable {τ : Type} {node : Node} {clock : ℕ → ℤ} {jobs : τ → Job} {i : τ}

theorem table_bind {α β : Type} {p : TableM α} {f : α → TableM β} {post : β → TableWorld τ → Prop} {w : TableWorld τ}
    (holds : TableTriple clock jobs i p (fun a u => TableTriple clock jobs i (f a) post u) w) :
    TableTriple clock jobs i (p >>= f) post w :=
  Prog.Holds.bind (fun _ => Grows.refl _) holds

theorem table_ret {α : Type} {a : α} {post : α → TableWorld τ → Prop} {w : TableWorld τ}
    (done : ∀ u, Grows jobs (· ≠ i) w u → post a u) : TableTriple clock jobs i (pure a : TableM α) post w := done

/-- Reading the clock changes nothing the others see. -/
theorem table_now {post : ℤ → TableWorld τ → Prop} {w : TableWorld τ}
    (done : ∀ t u, Grows jobs (· ≠ i) w u → post t u) : TableTriple clock jobs i now post w := by
  intro t moved
  refine ⟨Or.inr rfl, fun r u step => ?_⟩
  obtain ⟨rfl, rfl⟩ := Prod.mk.inj (Option.some.inj step)
  have quiet : ∀ mine : τ → Prop, Grows jobs mine t { t with ticks := t.ticks + 1 } := fun mine =>
    Grows.silent [] rfl (by simp) (by simp) (by simp)
  exact ⟨quiet _, fun v later => done _ v (moved.trans ((quiet _).trans later))⟩

/-- The hook, when the record it writes keeps the row current at whatever moment it is written. -/
theorem hookRecord_triple {key : Key} {peer : Peer} {w : TableWorld τ}
    (fits : ∀ t row, Grows jobs (· ≠ i) w t → row.shape = peer.shape → Kept jobs t →
      Undisturbed jobs (t.history ++ [.wrote i key row]) →
      ∀ shape, lastAccepted jobs (t.history ++ [.wrote i key row]) key = some shape → peer.shape = shape) :
    TableTriple clock jobs i (hookRecord node key peer) (fun _ _ => True) w := by
  cases admitted : node.vetted peer with
  | none =>
    simp only [hookRecord, admitted]
    exact table_ret (fun _ _ => trivial)
  | some p =>
    have same : p.shape = peer.shape := admit_shape admitted
    have write : ∀ v, Grows jobs (· ≠ i) w v → TableTriple clock jobs i (record key p) (fun _ _ => True) v := by
      intro v before t moved
      refine ⟨Or.inr rfl, fun _ u step => ?_⟩
      obtain ⟨_, rfl⟩ := Prod.mk.inj (Option.some.inj step)
      refine ⟨Grows.recorded rfl (fun kept undisturbed shape last => ?_), fun _ _ => trivial⟩
      rw [same]
      exact fits t _ (before.trans moved) ((stored_shape _ p _).trans same) kept undisturbed shape last
    simp only [hookRecord, admitted]
    split
    · apply table_bind
      intro t moved
      refine ⟨Or.inr rfl, fun known u step => ?_⟩
      obtain ⟨_, rfl⟩ := Prod.mk.inj (Option.some.inj step)
      refine ⟨Grows.refl t, fun v later => ?_⟩
      cases known with
      | true => exact write v (moved.trans later)
      | false => exact table_ret (fun _ _ => trivial)
    · exact write w (Grows.refl w)

/-- A delivery writes the record it brings, so the row is current after it. -/
theorem putHook_triple {key : Key} {value : Bytes} (fromStore : (jobs i).fromStore = true) (w : TableWorld τ) :
    TableTriple clock jobs i (putHook node key value) (fun _ _ => True) w := by
  unfold putHook
  split
  · exact table_ret (fun _ _ => trivial)
  · apply table_bind
    intro t moved
    refine ⟨Or.inr rfl, fun row u step => ?_⟩
    obtain ⟨_, rfl⟩ := Prod.mk.inj (Option.some.inj step)
    refine ⟨Grows.silent [.read i key] rfl rfl (by simp [TableEvent.thread]) (by simp [TableEvent.accepts]),
      fun v later => ?_⟩
    refine hookRecord_triple (fun z written _ same _ _ shape last => ?_)
    rw [lastAccepted_wrote _ _ fromStore] at last
    exact same.symm.trans (Option.some.inj last)

/-- An updater whose edit keeps the structural fields of the row it read writes back what was
current when it read, and so, undisturbed, what still is. -/
theorem refresh_triple {id : String} {edit : Option Peer → TableM (Option Peer)} (updater : (jobs i).fromStore = false)
    (keeps : ∀ row v, TableTriple clock jobs i (edit row)
      (fun out u => Grows jobs (· ≠ i) v u ∧ ∀ p, out = some p → p.shape = (row.getD {}).shape) v)
    {w : TableWorld τ} (kept : Kept jobs w) :
    TableTriple clock jobs i (refresh node id edit) (fun _ _ => True) w := by
  apply table_bind
  intro t moved
  refine ⟨Or.inr rfl, fun row u step => ?_⟩
  obtain ⟨rfl, rfl⟩ := Prod.mk.inj (Option.some.inj step)
  refine ⟨Grows.silent [.read i (peerKey id)] rfl rfl (by simp [TableEvent.thread]) (by simp [TableEvent.accepts]),
    fun v later => ?_⟩
  apply table_bind
  refine (keeps (t.table.lookup (peerKey id)) v).mono ?_
  rintro out z ⟨waited, shapes⟩
  cases out with
  | none => exact table_ret (fun _ _ => trivial)
  | some p =>
    refine hookRecord_triple (fun y row more _ _ undisturbed shape last => ?_)
    obtain ⟨between, grown, others⟩ := (later.trans (waited.trans more)).history
    have own : TableEvent.accepts jobs (peerKey id) (.wrote i (peerKey id) row) = none := by
      simp [TableEvent.accepts, updater]
    simp only [grown] at undisturbed last
    have clear := undisturbed t.history between [] i (peerKey id) row (by simp) updater
    have before : lastAccepted jobs t.history (peerKey id) = some shape := by
      rw [← last, List.append_assoc, List.append_assoc, lastAccepted_append]
      intro e member
      simp only [List.mem_append, List.mem_singleton] at member
      rcases member with rfl | here | rfl
      · rfl
      · exact clear e here
      · exact own
    have current := moved.kept kept (by
      rw [List.append_assoc, List.append_assoc] at undisturbed
      exact undisturbed.initial) (peerKey id) shape before
    obtain ⟨r, found, same⟩ := Option.map_eq_some_iff.mp current
    have edited := shapes p rfl
    rw [found, Option.getD_some] at edited
    exact edited.trans same

theorem program_triple {w : TableWorld τ} (kept : Kept jobs w) :
    TableTriple clock jobs i ((jobs i).program node) (fun _ _ => True) w := by
  have pure_keeps : ∀ (out : Option Peer) (row : Option Peer) (v : TableWorld τ),
      (∀ p, out = some p → p.shape = (row.getD {}).shape) →
      TableTriple clock jobs i (pure out : TableM (Option Peer))
        (fun out u => Grows jobs (· ≠ i) v u ∧ ∀ p, out = some p → p.shape = (row.getD {}).shape) v :=
    fun out row v same => table_ret (fun u moved => ⟨moved, same⟩)
  have timed_keeps : ∀ (f : ℤ → Peer) (row : Option Peer) (v : TableWorld τ),
      (∀ t, (f t).shape = (row.getD {}).shape) →
      TableTriple clock jobs i (now >>= fun t => (pure (some (f t)) : TableM (Option Peer)))
        (fun out u => Grows jobs (· ≠ i) v u ∧ ∀ p, out = some p → p.shape = (row.getD {}).shape) v := by
    intro f row v same
    apply table_bind
    refine table_now (fun t u moved => table_ret (fun u' later => ⟨moved.trans later, ?_⟩))
    rintro _ ⟨⟩
    exact same t
  cases job : jobs i with
  | deliver key value => exact putHook_triple (by simp [job, Job.fromStore]) w
  | ping id reachable =>
    simp only [Job.program, pingTick]
    split
    · exact table_ret (fun _ _ => trivial)
    · refine refresh_triple (by simp [job, Job.fromStore]) (fun row v => ?_) kept
      cases row with
      | none => exact pure_keeps none none v (by simp)
      | some p =>
        cases reachable with
        | true => exact timed_keeps (fun t => { p with connected := true, lastSeen := t }) (some p) v (fun _ => rfl)
        | false => exact pure_keeps (some { p with connected := false }) (some p) v (by rintro _ ⟨⟩; rfl)
  | connect id =>
    simp only [Job.program, connectedF]
    split
    · exact table_ret (fun _ _ => trivial)
    · refine refresh_triple (by simp [job, Job.fromStore]) (fun row v => ?_) kept
      refine timed_keeps (fun t => { row.getD { id := id } with connected := true, lastSeen := t }) row v (fun t => ?_)
      cases row <;> rfl
  | disconnect id =>
    simp only [Job.program, disconnectedF]
    split
    · exact table_ret (fun _ _ => trivial)
    · refine refresh_triple (by simp [job, Job.fromStore]) (fun row v => pure_keeps _ row v ?_) kept
      cases row with
      | none => rintro _ ⟨⟩
      | some p =>
        rintro _ ⟨⟩
        rfl
  | gossip author isConnected =>
    refine refresh_triple (by simp [job, Job.fromStore]) (fun row v => ?_) kept
    cases row with
    | none =>
      cases isConnected with
      | true => exact timed_keeps (fun t => { id := author, connected := true, lastSeen := t }) none v (fun _ => rfl)
      | false => exact pure_keeps none none v (by simp)
    | some p => exact timed_keeps (fun t => { p with lastSeen := t, connected := true }) (some p) v (fun _ => rfl)

theorem Kept.steps {w u : TableWorld τ} (kept : Kept jobs w)
    (steps : Relation.ReflTransGen (fun w u => ∃ i, Grows jobs (· = i) w u) w u) : Kept jobs u := by
  induction steps with
  | refl => exact kept
  | tail _ step ih =>
    obtain ⟨_, own⟩ := step
    exact own.kept ih

/-- Updaters that only read after the last record was accepted are undisturbed. -/
theorem Undisturbed.of_pairwise {history : List (TableEvent τ)}
    (late : history.Pairwise (fun e e' => ∀ key ∈ e.readKey, (jobs e.thread).fromStore = true ∨ e'.accepts jobs key = none)) :
    Undisturbed jobs history := by
  rintro before between after i key p rfl updater e member
  rw [List.append_assoc, List.pairwise_append] at late
  have rest := (List.pairwise_cons.mp late.2.1).1 e (List.mem_append_left _ member)
  exact (rest key rfl).resolve_left (by simp [TableEvent.thread, updater])

end Triples

/-- The updaters and deliveries that have just been started on a table. -/
def started {τ : Type} (node : Node) (jobs : τ → Job) (table : NodeTable) (ticks : ℕ) :
    Prog.Pool TableOp TableOp.Res String Unit (TableWorld τ) τ :=
  ⟨{ table, ticks, history := [] }, fun i => (jobs i).program node⟩

/-- No structural update is lost in a run in which no record of the store is accepted for a
key between an updater's read of that key and its write. -/
theorem structural_updates_kept {τ : Type} [DecidableEq τ] (node : Node) (clock : ℕ → ℤ) (jobs : τ → Job) (table : NodeTable)
    (ticks : ℕ) (c : Prog.Pool TableOp TableOp.Res String Unit (TableWorld τ) τ)
    (reach : Prog.Pool.Reach (execTable clock) (started node jobs table ticks) c)
    (undisturbed : Undisturbed jobs c.state.history) : Current jobs c.state := by
  have kept : Kept jobs (started node jobs table ticks).state := by
    intro _ key shape last
    cases last
  obtain ⟨steps, _⟩ := reach.preserves (fun _ => False) (fun i => Grows jobs (· ≠ i)) (fun i => Grows jobs (· = i))
    (fun _ _ _ => True) (fun _ => Grows.refl) (fun _ _ _ _ => Grows.trans)
    (fun i j different s t own => ⟨own.history.imp (fun new grown =>
      ⟨grown.1, fun e member same => different ((grown.2 e member).symm.trans same)⟩), own.kept⟩)
    (fun i => program_triple kept)
  exact kept.steps steps undisturbed

namespace Lost

/-- A worker without services, and the record in which it announces one. -/
def before : Peer := { id := "worker", lastSeen := 1700000000 }

def after : Peer := { id := "worker", service := [{ name := "llm" }], lastSeen := 1700000010 }

def node : Node where
  myID := "me"
  crypto := { base58 := fun _ => none, base64 := fun _ => none, hex := fun _ => none, identityPayload := fun _ _ _ => [],
              verify := fun _ _ _ => false }
  unmarshal := fun _ => after

def jobs : Bool → Job
  | false => .ping "worker" true
  | true => .deliver ["worker"] []

def table : NodeTable := AList.insert ["worker"] before ∅

end Lost

open Lost in
/-- The record arrives before the ticker reads the row. -/
theorem structural_updates_kept_in_turn : ∃ c, Prog.Pool.Reach (execTable (fun _ => 1700000020)) (started node jobs table 0) c ∧
    (∀ i, c.thread i = .ret ()) ∧ lastAccepted jobs c.state.history ["worker"] = some after.shape ∧ Current jobs c.state := by
  obtain ⟨c, played, returned, history⟩ : ∃ c, (started node jobs table 0).play (execTable (fun _ => 1700000020))
      [true, true, false, false, false] = some c ∧ (∀ i, c.thread i = .ret ()) ∧ c.state.history = [.read true ["worker"],
        .wrote true ["worker"] { after with connected := false }, .read false ["worker"],
        .wrote false ["worker"] { after with connected := true, lastSeen := 1700000020 }] :=
    ⟨_, rfl, by intro i; cases i <;> rfl, rfl⟩
  have reach := Prog.Pool.Reach.of_play _ played
  refine ⟨c, reach, returned, by rw [history]; decide, ?_⟩
  refine structural_updates_kept node (fun _ => 1700000020) jobs table 0 c reach ?_
  rw [history]
  exact Undisturbed.of_pairwise (by decide)

open Lost in
/-- The ticker reads the row, the record arrives, the ticker writes the old row back. -/
theorem structural_update_lost : ∃ c, Prog.Pool.Reach (execTable (fun _ => 1700000020)) (started node jobs table 0) c ∧
    (∀ i, c.thread i = .ret ()) ∧ ¬ Current jobs c.state := by
  refine ⟨_, Prog.Pool.Reach.of_play [false, true, true, false, false] rfl, ?_, fun current => ?_⟩
  · intro i
    cases i <;> rfl
  · exact absurd (current ["worker"] after.shape (by decide)) (by decide)

end OpenTela
