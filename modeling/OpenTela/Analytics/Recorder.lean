import OpenTela.Analytics.Rollups
import OpenTela.Lib.Crew

namespace OpenTela.Analytics

open Prog

structure Config where
  flushIntervalSeconds : ℤ
  maxLatencySamples : ℤ
  groupType : String

def Config.normalize (c : Config) : Config where
  flushIntervalSeconds := if c.flushIntervalSeconds ≤ 0 then 60 else c.flushIntervalSeconds
  maxLatencySamples := if c.maxLatencySamples ≤ 0 then 512 else c.maxLatencySamples
  groupType := if c.groupType = "" then "model" else c.groupType

/-- What becomes of one attempt to proxy a request. It can be cut short by a panic, have to be repeated elsewhere,
or be answered: then the sample is that of the response, but for the attempt's own fields. -/
inductive Outcome (F : Type) where
  | aborted
  | retryable
  | answered (s : Sample F)

/-- A proxied request with the workers it is tried on, a call of `FlushNow`, one round of `run`, and a call of `Stop`. -/
inductive RecorderTask where
  | request (service model : String) (workers : List String)
  | flushNow
  | run
  | stop
  deriving DecidableEq

inductive RecorderOp (F : Type) where
  | begin (k : BucketKey)
  | serve (k : BucketKey)
  | finish (k : BucketKey)
  | observe (s : Sample F)
  | snapshot
  | enqueue (e : Event F)
  | select
  | closeDone
  | once
  | closeStop
  | waitDone
  | closeSink
  | onceDone
  | go (task : RecorderTask)

def RecorderOp.Res {F : Type} : RecorderOp F → Type
  | .begin _ => ℕ
  | .serve _ => Outcome F
  | .snapshot => List (Rollup F)
  | .select | .once => Bool
  | _ => Unit

/-- A panic carries the key under which the request stays counted. -/
abbrev RecorderM (F : Type) := Prog (RecorderOp F) RecorderOp.Res BucketKey

inductive Once where
  | fresh
  | running
  | over
  deriving DecidableEq

/-- The recorder with its sink. `observed` has all samples so far, of which the first `flushed` are no longer in
the window and the first `atStop` came before the stop channel was closed. The sink drops what comes after its close. -/
structure Recorder (F : Type) where
  buckets : Store BucketKey (Bucket F) := ∅
  inflight : BucketKey → ℕ := fun _ => 0
  stopOnce : Once := .fresh
  stopping : Bool := false
  done : Bool := false
  closed : Bool := false
  events : List (Event F) := []
  dropped : List (Event F) := []
  observed : List (Sample F) := []
  flushed : ℕ := 0
  atStop : ℕ := 0

/-- What the code does not decide: how an attempt goes, what the random numbers are, in which order a map is walked, and
whether it is the ticker that fires. -/
structure RecorderChoice (F : Type) where
  outcome : Outcome F := .retryable
  draws : ℕ × ℕ := (0, 0)
  keys : List BucketKey := []
  tick : Bool := true

section Code

variable {F : Type}

namespace RecorderM

def begin (k : BucketKey) : RecorderM F ℕ := Prog.perform (RecorderOp.begin k)
def serve (k : BucketKey) : RecorderM F (Outcome F) := Prog.perform (RecorderOp.serve k)
def finish (k : BucketKey) : RecorderM F Unit := Prog.perform (RecorderOp.finish k)
def observe (s : Sample F) : RecorderM F Unit := Prog.perform (RecorderOp.observe s)
def snapshot : RecorderM F (List (Rollup F)) := Prog.perform RecorderOp.snapshot
def enqueue (e : Event F) : RecorderM F Unit := Prog.perform (RecorderOp.enqueue e)
def select : RecorderM F Bool := Prog.perform RecorderOp.select
def closeDone : RecorderM F Unit := Prog.perform RecorderOp.closeDone
def once : RecorderM F Bool := Prog.perform RecorderOp.once
def closeStop : RecorderM F Unit := Prog.perform RecorderOp.closeStop
def waitDone : RecorderM F Unit := Prog.perform RecorderOp.waitDone
def closeSink : RecorderM F Unit := Prog.perform RecorderOp.closeSink
def onceDone : RecorderM F Unit := Prog.perform RecorderOp.onceDone
def go (task : RecorderTask) : RecorderM F Unit := Prog.perform (RecorderOp.go task)

/-- What the proxy does about a request: each attempt is counted while it is served, and the one whose response goes to the
client is observed. -/
def request (service model : String) : List String → RecorderM F Unit
  | [] => .ret ()
  | worker :: rest => do
    let conc ← begin ⟨service, model, worker⟩
    match ← serve ⟨service, model, worker⟩ with
    | .aborted => .fail ⟨service, model, worker⟩
    | .retryable => do
      finish ⟨service, model, worker⟩
      request service model rest
    | .answered s => do
      finish ⟨service, model, worker⟩
      observe { s with service, model, workerPeerID := worker, concurrency := conc }

section Flush

variable [Zero F] [Div F] [IntCast F] (headID groupType : String)

def flushNow.loop : List (Rollup F) → RecorderM F Unit
  | [] => .ret ()
  | ro :: rest => do
    enqueue (buildEvent headID groupType ro)
    loop rest

def flushNow : RecorderM F Unit := do
  flushNow.loop headID groupType (← snapshot)

/-- One round of the loop of `run`. -/
def run : RecorderM F Unit := do
  if ← select then
    flushNow headID groupType
    go .run
  else
    flushNow headID groupType
    closeDone

end Flush

/-- `Stop`: a call that is not the first waits for the first. -/
def stop : RecorderM F Unit := do
  if ← once then
    closeStop
    waitDone
    closeSink
    onceDone

end RecorderM

variable [LinearOrder F] [Zero F] [Add F] [Div F] [NatCast F] [IntCast F] (cfg : Config) (headID : String) (tests : Bool)

def RecorderOp.exec (choice : RecorderChoice F) : (o : RecorderOp F) → Recorder F → Option (o.Res × Recorder F)
  | .begin k, w => some (w.inflight k + 1, { w with inflight := Function.update w.inflight k (w.inflight k + 1) })
  | .serve _, w => some (choice.outcome, w)
  | .finish k, w => some ((), if 0 < w.inflight k then { w with inflight := Function.update w.inflight k (w.inflight k - 1) } else w)
  | .observe s, w =>
    some ((), { w with buckets := add cfg.maxLatencySamples choice.draws s w.buckets, observed := w.observed ++ [s] })
  | .snapshot, w =>
    if choice.keys.Perm w.buckets.keys then
      some (flush cfg.flushIntervalSeconds choice.keys w.buckets, { w with buckets := ∅, flushed := w.observed.length })
    else none
  | .enqueue e, w => some ((), if w.closed then { w with dropped := w.dropped ++ [e] } else { w with events := w.events ++ [e] })
  | .select, w => if choice.tick then some (true, w) else if w.stopping then some (false, w) else none
  | .closeDone, w => some ((), { w with done := true })
  | .once, w =>
    match w.stopOnce with
    | .fresh => some (true, { w with stopOnce := .running })
    | .running => none
    | .over => some (false, w)
  | .closeStop, w =>
    some ((), { w with stopping := true, atStop := if w.stopping then w.atStop else w.observed.length })
  | .waitDone, w => if w.done then some ((), w) else none
  | .closeSink, w => some ((), { w with closed := true })
  | .onceDone, w => some ((), { w with stopOnce := .over })
  | .go _, w => some ((), w)

/-- A recorder at work. `FlushNow` is called by tests only. -/
def recorderSystem : System (RecorderOp F) RecorderOp.Res BucketKey (Recorder F) (RecorderChoice F) RecorderTask where
  exec := fun _ => RecorderOp.exec cfg
  starts
    | .go task => [task]
    | _ => []
  body
    | .request service model workers => RecorderM.request service model workers
    | .flushNow => RecorderM.flushNow headID cfg.groupType
    | .run => RecorderM.run headID cfg.groupType
    | .stop => RecorderM.stop
  entry
    | .run => false
    | .flushNow => tests
    | _ => true

abbrev RecorderCrew (F : Type) := Prog.Crew (RecorderOp F) RecorderOp.Res BucketKey (Recorder F) RecorderTask

/-- `New`. -/
def RecorderCrew.new : RecorderCrew F := ⟨{}, [(recorderSystem cfg headID tests).start .run]⟩

end Code

section Programs

variable {F : Type}

def RecorderOp.sends : (o : RecorderOp F) → Option (Event F × o.Res)
  | .enqueue e => some (e, ())
  | _ => none

/-- The events that a thread is about to enqueue. -/
def owed : RecorderM F Unit → List (Event F)
  | .op o next =>
    match o.sends with
    | some sent => sent.1 :: owed (next sent.2)
    | none => []
  | _ => []

/-- The key that a thread serves before a step. -/
def RecorderOp.serving : RecorderOp F → Option BucketKey
  | .serve k | .finish k => some k
  | _ => none

/-- The key that a thread serves after a step. -/
def RecorderOp.serves : RecorderOp F → Option BucketKey
  | .begin k | .serve k => some k
  | _ => none

/-- The key that a thread is serving a request for. A request that has been cut short stays counted. -/
def busy : RecorderM F Unit → Option BucketKey
  | .op o _ => o.serving
  | .fail k => some k
  | .ret _ => none

/-- What a thread has come to know: that the stop channel is closed, that it has flushed since, that the recorder is done. -/
structure Insight where
  sawStop : Bool := false
  final : Bool := false
  waited : Bool := false

def RecorderOp.learn (k : Insight) : (o : RecorderOp F) → o.Res → Insight
  | .select => fun (tick : Bool) => { k with sawStop := !tick }
  | .snapshot => fun _ => { k with final := k.sawStop }
  | .waitDone => fun _ => { k with waited := true }
  | _ => fun _ => k

def RecorderTask.flushes : RecorderTask → Bool
  | .run | .flushNow => true
  | _ => false

/-- The steps that a thread of a task may come to, and what is left of its program then. -/
def RecorderOp.Allowed (task : RecorderTask) (k : Insight) (rest : RecorderM F Unit) : RecorderOp F → Prop
  | .snapshot | .enqueue _ => task.flushes = true
  | .go t => task = .run ∧ t = .run ∧ rest.Ended
  | .closeDone => task = .run ∧ k.final = true ∧ rest.Ended
  | .closeSink => k.waited = true
  | _ => True

/-- What a thread owes after a step. -/
def RecorderOp.Owes [Zero F] [Div F] [IntCast F] (headID groupType : String) (rest : RecorderM F Unit) :
    (o : RecorderOp F) → o.Res → Prop
  | .snapshot => fun (rollups : List (Rollup F)) => owed rest = rollups.map (buildEvent headID groupType)
  | .enqueue _ => fun _ => True
  | _ => fun _ => owed rest = []

section Orderly

variable [Zero F] [Div F] [IntCast F] (headID groupType : String) (task : RecorderTask)

structure RecorderOp.Safe (k : Insight) (o : RecorderOp F) (r : o.Res) (rest : RecorderM F Unit) : Prop where
  allowed : o.Allowed task k rest
  owes : o.Owes headID groupType rest r
  serves : busy rest = o.serves

abbrev Orderly (k : Insight) (p : RecorderM F Unit) : Prop :=
  Always (fun _ _ => True) RecorderOp.learn (RecorderOp.Safe headID groupType task) (fun _ _ => True) k p

end Orderly

theorem request_busy (service model : String) (workers : List String) :
    busy (RecorderM.request (F := F) service model workers) = none ∧ owed (RecorderM.request (F := F) service model workers) = [] := by
  cases workers <;> exact ⟨rfl, rfl⟩

variable [Zero F] [Div F] [IntCast F] {headID groupType : String} {task : RecorderTask} {k : Insight}

theorem request_orderly (service model : String) (workers : List String) :
    Orderly headID groupType task k (RecorderM.request (F := F) service model workers) := by
  induction workers with
  | nil => trivial
  | cons worker rest ih =>
    refine Always.step (fun conc _ => ⟨⟨trivial, rfl, rfl⟩, Always.step (fun outcome _ => ?_)⟩)
    obtain ⟨idle, nothing⟩ := request_busy (F := F) service model rest
    cases outcome with
    | aborted => exact ⟨⟨trivial, rfl, rfl⟩, trivial⟩
    | retryable => exact ⟨⟨trivial, rfl, rfl⟩, Always.step (fun _ _ => ⟨⟨trivial, nothing, idle⟩, ih⟩)⟩
    | answered s =>
      exact ⟨⟨trivial, rfl, rfl⟩, Always.step (fun _ _ => ⟨⟨trivial, rfl, rfl⟩,
        Always.step (fun _ _ => ⟨⟨trivial, rfl, rfl⟩, trivial⟩)⟩)⟩

variable (headID groupType) in
theorem loop_owed (rollups : List (Rollup F)) (last : RecorderM F Unit) :
    owed ((RecorderM.flushNow.loop headID groupType rollups).bind (fun _ => last)) =
      rollups.map (buildEvent headID groupType) ++ owed last := by
  induction rollups with
  | nil => rfl
  | cons ro rest ih => exact congrArg (buildEvent headID groupType ro :: ·) ih

theorem loop_busy (rollups : List (Rollup F)) {last : RecorderM F Unit} (idle : busy last = none) :
    busy ((RecorderM.flushNow.loop headID groupType rollups).bind (fun _ => last)) = none := by
  cases rollups with
  | nil => exact idle
  | cons ro rest => rfl

theorem loop_orderly (rollups : List (Rollup F)) {last : RecorderM F Unit} (flushes : task.flushes = true) (idle : busy last = none)
    (orderly : Orderly headID groupType task k last) :
    Orderly headID groupType task k ((RecorderM.flushNow.loop headID groupType rollups).bind (fun _ => last)) := by
  induction rollups with
  | nil => exact orderly
  | cons ro rest ih => exact Always.step (fun _ _ => ⟨⟨flushes, trivial, loop_busy rest idle⟩, ih⟩)

/-- A flush, and what comes after it. -/
theorem flush_orderly {last : RecorderM F Unit} (flushes : task.flushes = true) (idle : busy last = none) (nothing : owed last = [])
    (orderly : Orderly headID groupType task { k with final := k.sawStop } last) :
    Orderly headID groupType task k ((RecorderM.flushNow headID groupType).bind (fun _ => last)) := by
  refine Always.step (fun rollups _ => ⟨⟨flushes, ?_, loop_busy rollups idle⟩, loop_orderly rollups flushes idle orderly⟩)
  have owes := loop_owed headID groupType rollups last
  rw [nothing, List.append_nil] at owes
  exact owes

end Programs

section Knowledge

variable {F : Type}

/-- What a thread knows is so. -/
structure Insight.Holds (k : Insight) (w : Recorder F) : Prop where
  sawStop : k.sawStop = true → w.stopping = true
  final : k.final = true → w.stopping = true ∧ w.atStop ≤ w.flushed
  waited : k.waited = true → w.done = true

theorem Insight.Holds.none (w : Recorder F) : ({} : Insight).Holds w where
  sawStop := fun no => by cases no
  final := fun no => by cases no
  waited := fun no => by cases no

end Knowledge

section System

variable {F : Type} [LinearOrder F] [Zero F] [Add F] [Div F] [NatCast F] [IntCast F] {cfg : Config} {headID : String} {tests : Bool}

variable (tests) in
theorem body_orderly (task : RecorderTask) :
    Orderly (F := F) headID cfg.groupType task {} ((recorderSystem cfg headID tests).body task) := by
  cases task with
  | request service model workers => exact request_orderly service model workers
  | flushNow =>
    have whole : Orderly headID cfg.groupType .flushNow {}
        ((RecorderM.flushNow headID cfg.groupType).bind (fun _ => .ret () : Unit → RecorderM F Unit)) :=
      flush_orderly rfl rfl rfl trivial
    rwa [Prog.bind_ret] at whole
  | run =>
    refine Always.step (fun tick _ => ?_)
    cases tick with
    | true =>
      exact ⟨⟨trivial, rfl, rfl⟩,
        flush_orderly rfl rfl rfl (Always.step (fun _ _ => ⟨⟨⟨rfl, rfl, trivial⟩, rfl, rfl⟩, trivial⟩))⟩
    | false =>
      exact ⟨⟨trivial, rfl, rfl⟩,
        flush_orderly rfl rfl rfl (Always.step (fun _ _ => ⟨⟨⟨rfl, rfl, trivial⟩, rfl, rfl⟩, trivial⟩))⟩
  | stop =>
    refine Always.step (fun first _ => ?_)
    cases first with
    | true =>
      refine ⟨⟨trivial, rfl, rfl⟩, Always.step (fun _ _ => ⟨⟨trivial, rfl, rfl⟩, Always.step (fun _ _ => ⟨⟨trivial, rfl, rfl⟩, ?_⟩)⟩)⟩
      exact Always.step (fun _ _ => ⟨⟨rfl, rfl, rfl⟩, Always.step (fun _ _ => ⟨⟨trivial, rfl, rfl⟩, trivial⟩)⟩)
    | false => exact ⟨⟨trivial, rfl, rfl⟩, trivial⟩

variable (cfg headID tests) in
theorem start_idle (task : RecorderTask) : busy (F := F) ((recorderSystem cfg headID tests).body task) = none ∧
    owed (F := F) ((recorderSystem cfg headID tests).body task) = [] := by
  cases task with
  | request service model workers => exact request_busy service model workers
  | _ => exact ⟨rfl, rfl⟩

/-- A round of `run` that has not come to its end. -/
def looping (t : Thread (RecorderOp F) RecorderOp.Res BucketKey RecorderTask) : Bool := decide (t.task = .run) && !decide t.prog.Ended

end System

section Step

variable {F : Type} [LinearOrder F] [Zero F] [Add F] [Div F] [NatCast F] [IntCast F] {cfg : Config} {headID : String} {tests : Bool}
  {c : RecorderCrew F} {i : ℕ} {choice : RecorderChoice F} {task : RecorderTask} {o : RecorderOp F} {next : o.Res → RecorderM F Unit}
  {r : o.Res} {s : Recorder F}

/-- The crew once thread `i` has performed `o`. -/
abbrev recorded (cfg : Config) (headID : String) (tests : Bool) (c : RecorderCrew F) (i : ℕ) (s : Recorder F) (task : RecorderTask)
    (o : RecorderOp F) (rest : RecorderM F Unit) : RecorderCrew F :=
  c.after i s ⟨task, rest⟩ (((recorderSystem (F := F) cfg headID tests).starts o).map (recorderSystem (F := F) cfg headID tests).start)

variable (cfg headID tests) in
theorem started_idle (o : RecorderOp F) :
    ∀ t ∈ ((recorderSystem (F := F) cfg headID tests).starts o).map (recorderSystem (F := F) cfg headID tests).start,
      busy t.prog = none ∧ owed t.prog = [] := by
  intro t member
  obtain ⟨task, _, rfl⟩ := List.mem_map.mp member
  exact start_idle cfg headID tests task

variable (cfg headID tests s) in
/-- The count of a key changes with what the thread serves. -/
theorem busy_after (present : c.threads[i]? = some ⟨task, .op o next⟩) {rest : RecorderM F Unit} (serves : busy rest = o.serves)
    (k : BucketKey) :
    (recorded cfg headID tests c i s task o rest).threads.countP (fun t => busy t.prog = some k) +
        (if o.serving = some k then 1 else 0) =
      c.threads.countP (fun t => busy t.prog = some k) + (if o.serves = some k then 1 else 0) := by
  have new : (((recorderSystem (F := F) cfg headID tests).starts o).map (recorderSystem (F := F) cfg headID tests).start).countP
      (fun t => busy t.prog = some k) = 0 := by
    refine List.countP_eq_zero.mpr (fun t member => ?_)
    simp [(started_idle cfg headID tests o t member).1]
  have serving : busy (.op o next) = o.serving := rfl
  rw [(Crew.after_perm present).countP_eq, (Crew.threads_perm present).countP_eq, List.countP_cons, List.countP_cons,
    List.countP_append, new]
  simp only [decide_eq_true_eq, serving, serves]
  omega

variable (cfg headID tests s) in
theorem owed_plain (present : c.threads[i]? = some ⟨task, .op o next⟩) (silent : o.sends = none) (rest : RecorderM F Unit) :
    ((recorded cfg headID tests c i s task o rest).threads.flatMap (fun t => owed t.prog)).Perm
      (owed rest ++ c.threads.flatMap (fun t => owed t.prog)) := by
  have new : (((recorderSystem (F := F) cfg headID tests).starts o).map (recorderSystem (F := F) cfg headID tests).start).flatMap
      (fun t => owed t.prog) = [] :=
    List.flatMap_eq_nil_iff.mpr (fun t member => (started_idle cfg headID tests o t member).2)
  have nothing : owed (.op o next) = [] := by simp only [owed, silent]
  refine ((Crew.after_perm present).flatMap_right _).trans (List.Perm.trans (.of_eq ?_)
    (((Crew.threads_perm present).flatMap_right (fun t => owed t.prog)).symm.append_left _))
  rw [List.flatMap_cons, List.flatMap_cons, List.flatMap_append, new, nothing, List.append_nil, List.nil_append]

variable (cfg headID tests s) in
theorem owed_enqueue {e : Event F} {next : Unit → RecorderM F Unit} (present : c.threads[i]? = some ⟨task, .op (.enqueue e) next⟩) :
    (c.threads.flatMap (fun t => owed t.prog)).Perm
      (e :: (recorded cfg headID tests c i s task (.enqueue e) (next ())).threads.flatMap (fun t => owed t.prog)) := by
  refine ((Crew.threads_perm present).flatMap_right _).trans (List.Perm.cons e ?_)
  refine List.Perm.trans (.of_eq ?_) ((Crew.after_perm present).flatMap_right _).symm
  simp only [recorderSystem, List.map_nil, List.append_nil]
  rfl

/-- What an operation leaves alone. -/
structure RecorderOp.Frame (o : RecorderOp F) (w s : Recorder F) : Prop where
  inflight : (∀ k, o ≠ .begin k) → (∀ k, o ≠ .finish k) → s.inflight = w.inflight
  samples : (∀ x, o ≠ .observe x) → o ≠ .snapshot → s.buckets = w.buckets ∧ s.observed = w.observed ∧ s.flushed = w.flushed
  events : (∀ e, o ≠ .enqueue e) → s.events = w.events ∧ s.dropped = w.dropped
  done : o ≠ .closeDone → s.done = w.done
  stopping : o ≠ .closeStop → s.stopping = w.stopping ∧ s.atStop = w.atStop
  closed : o ≠ .closeSink → s.closed = w.closed

theorem exec_frame {w : Recorder F} (executed : o.exec cfg choice w = some (r, s)) : o.Frame w s := by
  have same : o.Frame w w :=
    ⟨fun _ _ => rfl, fun _ _ => ⟨rfl, rfl, rfl⟩, fun _ => ⟨rfl, rfl⟩, fun _ => rfl, fun _ => ⟨rfl, rfl⟩, fun _ => rfl⟩
  cases o with
  | begin k =>
    obtain ⟨_, rfl⟩ := Prod.mk.inj (Option.some.inj executed)
    exact { same with inflight := fun no => absurd rfl (no k) }
  | finish k =>
    obtain ⟨_, rfl⟩ := Prod.mk.inj (Option.some.inj executed)
    split
    · exact { same with inflight := fun _ no => absurd rfl (no k) }
    · exact same
  | observe x =>
    obtain ⟨_, rfl⟩ := Prod.mk.inj (Option.some.inj executed)
    exact { same with samples := fun no => absurd rfl (no x) }
  | snapshot =>
    simp only [RecorderOp.exec] at executed
    split at executed
    · obtain ⟨_, rfl⟩ := Prod.mk.inj (Option.some.inj executed)
      exact { same with samples := fun _ no => absurd rfl no }
    · cases executed
  | enqueue e =>
    obtain ⟨_, rfl⟩ := Prod.mk.inj (Option.some.inj executed)
    split
    · exact { same with events := fun no => absurd rfl (no e) }
    · exact { same with events := fun no => absurd rfl (no e) }
  | select =>
    simp only [RecorderOp.exec] at executed
    split at executed
    · obtain ⟨_, rfl⟩ := Prod.mk.inj (Option.some.inj executed)
      exact same
    · split at executed
      · obtain ⟨_, rfl⟩ := Prod.mk.inj (Option.some.inj executed)
        exact same
      · cases executed
  | once =>
    simp only [RecorderOp.exec] at executed
    split at executed
    · obtain ⟨_, rfl⟩ := Prod.mk.inj (Option.some.inj executed)
      exact { same with }
    · cases executed
    · obtain ⟨_, rfl⟩ := Prod.mk.inj (Option.some.inj executed)
      exact same
  | waitDone =>
    simp only [RecorderOp.exec] at executed
    split at executed
    · obtain ⟨_, rfl⟩ := Prod.mk.inj (Option.some.inj executed)
      exact same
    · cases executed
  | closeDone =>
    obtain ⟨_, rfl⟩ := Prod.mk.inj (Option.some.inj executed)
    exact { same with done := fun no => absurd rfl no }
  | closeStop =>
    obtain ⟨_, rfl⟩ := Prod.mk.inj (Option.some.inj executed)
    exact { same with stopping := fun no => absurd rfl no }
  | closeSink =>
    obtain ⟨_, rfl⟩ := Prod.mk.inj (Option.some.inj executed)
    exact { same with closed := fun no => absurd rfl no }
  | serve | onceDone | go =>
    obtain ⟨_, rfl⟩ := Prod.mk.inj (Option.some.inj executed)
    exact { same with }

/-- The counter of a key changes with what the thread serves, too. -/
theorem exec_inflight {w : Recorder F} (executed : o.exec cfg choice w = some (r, s)) (k : BucketKey)
    (counted : o.serving = some k → 0 < w.inflight k) :
    s.inflight k + (if o.serving = some k then 1 else 0) = w.inflight k + (if o.serves = some k then 1 else 0) := by
  have frame := exec_frame executed
  cases o with
  | begin k' =>
    obtain ⟨_, rfl⟩ := Prod.mk.inj (Option.some.inj executed)
    by_cases same : k = k'
    · subst same
      simp [RecorderOp.serving, RecorderOp.serves]
    · simp [RecorderOp.serving, RecorderOp.serves, Ne.symm same, Function.update_of_ne same]
  | finish k' =>
    obtain ⟨_, rfl⟩ := Prod.mk.inj (Option.some.inj executed)
    by_cases same : k = k'
    · subst same
      have positive := counted rfl
      simp only [if_pos positive, RecorderOp.serving, RecorderOp.serves, Function.update_self, reduceCtorEq, if_true, if_false]
      omega
    · have other : k' ≠ k := Ne.symm same
      simp only [RecorderOp.serving, RecorderOp.serves, Option.some.injEq, other, reduceCtorEq, if_false]
      split
      · simp [Function.update_of_ne same]
      · rfl
  | _ =>
    rw [frame.inflight (by simp) (by simp)]
    rfl

theorem counted_step (k : BucketKey) (before : c.state.inflight k = c.threads.countP (fun t => busy t.prog = some k))
    (present : c.threads[i]? = some ⟨task, .op o next⟩)
    (executed : o.exec cfg choice c.state = some (r, s)) (serves : busy (next r) = o.serves) :
    s.inflight k = (recorded cfg headID tests c i s task o (next r)).threads.countP (fun t => busy t.prog = some k) := by
  have threads := busy_after cfg headID tests s present serves k
  have counted : o.serving = some k → 0 < c.state.inflight k := by
    intro serving
    rw [before, List.countP_pos_iff]
    exact ⟨_, List.mem_of_getElem? present, decide_eq_true serving⟩
  have counter := exec_inflight executed k counted
  omega

end Step

section Shuffles

variable {α : Type} {first events dropped owing owing' new : List α} {e : α}

theorem perm_flush (old : first.Perm (events ++ owing)) (fresh : owing'.Perm (new ++ owing)) : (first ++ new).Perm (events ++ owing') := by
  refine (old.append_right new).trans ?_
  rw [List.append_assoc]
  exact (List.perm_append_comm.trans fresh.symm).append_left events

theorem perm_send (sent : owing.Perm (e :: owing')) : (events ++ owing).Perm (events ++ [e] ++ owing') := by
  rw [List.append_assoc]
  exact sent.append_left events

theorem perm_send_past (sent : owing.Perm (e :: owing')) :
    (events ++ dropped ++ owing).Perm (events ++ [e] ++ dropped ++ owing') := by
  refine (perm_send sent).trans (List.Perm.append_right _ ?_)
  rw [List.append_assoc, List.append_assoc]
  exact List.perm_append_comm.append_left events

end Shuffles

section Tally

variable {F : Type} [LinearOrder F] [Zero F] [Add F] [Div F] [NatCast F] [IntCast F] {cfg : Config} {headID : String} {tests : Bool}
  {c : RecorderCrew F} {i : ℕ} {choice : RecorderChoice F} {task : RecorderTask} {o : RecorderOp F} {next : o.Res → RecorderM F Unit}
  {r : o.Res} {s : Recorder F}

variable (cfg headID) in
/-- The samples that are no longer in the window are accounted for: by what the sink has been given, and by
what the threads are about to give it. -/
structure Tally (threads : List (Thread (RecorderOp F) RecorderOp.Res BucketKey RecorderTask)) (w : Recorder F) : Prop where
  pairs : ∃ pairs : List (List (Sample F) × Rollup F),
    (pairs.map (fun p => buildEvent headID cfg.groupType p.2)).Perm (w.events ++ w.dropped ++ threads.flatMap (fun t => owed t.prog)) ∧
    (∀ p ∈ pairs, p.2.Reports cfg.maxLatencySamples cfg.flushIntervalSeconds p.1) ∧
    (pairs.flatMap Prod.fst).Perm (w.observed.take w.flushed)
  window : Window (capacity cfg.maxLatencySamples) w.buckets (w.observed.drop w.flushed)
  within : w.flushed ≤ w.observed.length

theorem Tally.observe {x : Sample F} {next : Unit → RecorderM F Unit} (tally : Tally cfg headID c.threads c.state)
    (present : c.threads[i]? = some ⟨task, .op (.observe x) next⟩)
    (executed : (RecorderOp.observe x).exec cfg choice c.state = some ((), s)) (owes : owed (next ()) = []) :
    Tally cfg headID (recorded cfg headID tests c i s task (.observe x) (next ())).threads s := by
  obtain ⟨pairs, events, reports, samples⟩ := tally.pairs
  have within := tally.within
  have after := owed_plain cfg headID tests s present rfl (next ())
  rw [owes, List.nil_append] at after
  obtain ⟨_, rfl⟩ := Prod.mk.inj (Option.some.inj executed)
  refine ⟨⟨pairs, events.trans (after.symm.append_left _), reports, ?_⟩, ?_, ?_⟩
  · rw [List.take_append_of_le_length within]
    exact samples
  · rw [List.drop_append_of_le_length within]
    exact tally.window.add choice.draws x
  · rw [List.length_append]
    exact within.trans (Nat.le_add_right _ _)

theorem Tally.snapshot {next : List (Rollup F) → RecorderM F Unit} {rollups : List (Rollup F)}
    (tally : Tally cfg headID c.threads c.state) (present : c.threads[i]? = some ⟨task, .op .snapshot next⟩)
    (executed : RecorderOp.snapshot.exec cfg choice c.state = some (rollups, s))
    (owes : owed (next rollups) = rollups.map (buildEvent headID cfg.groupType)) :
    Tally cfg headID (recorded cfg headID tests c i s task .snapshot (next rollups)).threads s := by
  obtain ⟨pairs, events, reports, samples⟩ := tally.pairs
  have after := owed_plain cfg headID tests s present rfl (next rollups)
  simp only [RecorderOp.exec] at executed
  split at executed
  · rename_i walked
    obtain ⟨rfl, rfl⟩ := Prod.mk.inj (Option.some.inj executed)
    obtain ⟨new, flushed, fresh, grouped⟩ := tally.window.flush cfg.flushIntervalSeconds walked
    rw [owes, ← flushed, List.map_map] at after
    refine ⟨⟨pairs ++ new, ?_, fun p member => (List.mem_append.mp member).elim (reports p) (fresh p), ?_⟩, ?_, le_rfl⟩
    · rw [List.map_append]
      rw [← flushed]
      exact perm_flush events after
    · rw [List.flatMap_append]
      refine (samples.append grouped).trans (.of_eq ?_)
      rw [List.take_append_drop, List.take_length]
    · rw [List.drop_length]
      exact .empty
  · cases executed

theorem Tally.enqueue {e : Event F} {next : Unit → RecorderM F Unit} (tally : Tally cfg headID c.threads c.state)
    (present : c.threads[i]? = some ⟨task, .op (.enqueue e) next⟩)
    (executed : (RecorderOp.enqueue e).exec cfg choice c.state = some ((), s)) :
    Tally cfg headID (recorded cfg headID tests c i s task (.enqueue e) (next ())).threads s := by
  obtain ⟨pairs, events, reports, samples⟩ := tally.pairs
  have sent := owed_enqueue cfg headID tests s present
  obtain ⟨_, rfl⟩ := Prod.mk.inj (Option.some.inj executed)
  by_cases closed : c.state.closed = true
  · simp only [if_pos closed] at sent ⊢
    refine ⟨⟨pairs, events.trans ?_, reports, samples⟩, tally.window, tally.within⟩
    rw [← List.append_assoc]
    exact perm_send sent
  · simp only [if_neg closed] at sent ⊢
    exact ⟨⟨pairs, events.trans (perm_send_past sent), reports, samples⟩, tally.window, tally.within⟩

theorem Tally.step (tally : Tally cfg headID c.threads c.state) (present : c.threads[i]? = some ⟨task, .op o next⟩)
    (executed : o.exec cfg choice c.state = some (r, s)) (owes : o.Owes headID cfg.groupType (next r) r) :
    Tally cfg headID (recorded cfg headID tests c i s task o (next r)).threads s := by
  have frame := exec_frame executed
  cases o with
  | observe x => exact tally.observe present executed owes
  | snapshot => exact tally.snapshot present executed owes
  | enqueue e => exact tally.enqueue present executed
  | _ =>
    obtain ⟨pairs, events, reports, samples⟩ := tally.pairs
    obtain ⟨buckets, observed, flushed⟩ := frame.samples (by simp) (by simp)
    obtain ⟨given, dropped⟩ := frame.events (by simp)
    have after := owed_plain cfg headID tests s present rfl (next r)
    rw [show owed (next r) = [] from owes, List.nil_append] at after
    refine ⟨⟨pairs, ?_, reports, ?_⟩, ?_, ?_⟩
    · rw [given, dropped]
      exact events.trans (after.symm.append_left _)
    · rw [observed, flushed]
      exact samples
    · rw [buckets, observed, flushed]
      exact tally.window
    · rw [observed, flushed]
      exact tally.within

end Tally

section Looping

variable {F : Type} {task : RecorderTask}

theorem looping_op {o : RecorderOp F} {next : o.Res → RecorderM F Unit} : looping ⟨task, .op o next⟩ = decide (task = .run) := by
  have going : decide (Prog.op o next).Ended = false := rfl
  simp only [looping, going, Bool.not_false, Bool.and_true]

theorem looping_ended {rest : RecorderM F Unit} (ended : rest.Ended) : looping ⟨task, rest⟩ = false := by
  simp [looping, ended]

variable (task) in
theorem looping_le (rest : RecorderM F Unit) :
    (if looping ⟨task, rest⟩ = true then 1 else 0) ≤ (if decide (task = .run) = true then 1 else 0) := by
  by_cases same : task = .run
  · simp only [same, decide_true, if_true]
    split <;> omega
  · simp [looping, same]

end Looping

section Runs

variable {F : Type} [LinearOrder F] [Zero F] [Add F] [Div F] [NatCast F] [IntCast F] {cfg : Config} {headID : String} {tests : Bool}
  {c : RecorderCrew F} {i : ℕ} {choice : RecorderChoice F} {task : RecorderTask} {o : RecorderOp F} {next : o.Res → RecorderM F Unit}
  {r : o.Res} {s : Recorder F}

variable (cfg headID tests) in
/-- What every run keeps. -/
structure RecorderCrew.Kept (c : RecorderCrew F) : Prop where
  tally : Tally cfg headID c.threads c.state
  learns : ∀ t ∈ c.threads, ∃ k : Insight, k.Holds c.state ∧ Orderly headID cfg.groupType t.task k t.prog
  lone : c.threads.countP looping + (if c.state.done then 1 else 0) ≤ 1
  early : c.state.atStop ≤ c.state.observed.length
  stopped : c.state.done = true → c.state.stopping = true ∧ c.state.atStop ≤ c.state.flushed
  closed : c.state.closed = true → c.state.done = true
  untested : tests = false → c.state.dropped = [] ∧ ∀ t ∈ c.threads, t.task ≠ .flushNow
  counted : ∀ k, c.state.inflight k = c.threads.countP (fun t => busy t.prog = some k)

variable (cfg headID tests) in
theorem RecorderCrew.Kept.new : (RecorderCrew.new cfg headID tests : RecorderCrew F).Kept cfg headID tests where
  tally := ⟨⟨[], .refl _, fun _ none => absurd none List.not_mem_nil, .refl _⟩, .empty, le_rfl⟩
  learns := by
    intro t member
    obtain rfl := List.mem_singleton.mp member
    exact ⟨{}, .none _, body_orderly tests .run⟩
  lone := Nat.le_refl 1
  early := le_rfl
  stopped := fun no => by cases no
  closed := fun no => by cases no
  untested := by
    refine fun _ => ⟨rfl, fun t member => ?_⟩
    obtain rfl := List.mem_singleton.mp member
    exact fun same => by cases same
  counted := fun k => rfl

/-- What has been reached stays so. -/
theorem exec_grows {w : Recorder F} (within : w.flushed ≤ w.observed.length) (executed : o.exec cfg choice w = some (r, s)) :
    (w.stopping = true → s.stopping = true ∧ s.atStop = w.atStop) ∧ (w.done = true → s.done = true) ∧ w.flushed ≤ s.flushed ∧
      w.observed.length ≤ s.observed.length := by
  have frame := exec_frame executed
  cases o with
  | observe x =>
    obtain ⟨_, rfl⟩ := Prod.mk.inj (Option.some.inj executed)
    exact ⟨fun stopping => ⟨stopping, rfl⟩, fun done => done, le_rfl, by simp⟩
  | snapshot =>
    simp only [RecorderOp.exec] at executed
    split at executed
    · obtain ⟨_, rfl⟩ := Prod.mk.inj (Option.some.inj executed)
      exact ⟨fun stopping => ⟨stopping, rfl⟩, fun done => done, within, le_rfl⟩
    · cases executed
  | closeDone =>
    obtain ⟨_, rfl⟩ := Prod.mk.inj (Option.some.inj executed)
    exact ⟨fun stopping => ⟨stopping, rfl⟩, fun _ => rfl, le_rfl, le_rfl⟩
  | closeStop =>
    obtain ⟨_, rfl⟩ := Prod.mk.inj (Option.some.inj executed)
    exact ⟨fun stopping => ⟨rfl, if_pos stopping⟩, fun done => done, le_rfl, le_rfl⟩
  | _ =>
    obtain ⟨_, observed, flushed⟩ := frame.samples (by simp) (by simp)
    obtain ⟨stopping, atStop⟩ := frame.stopping (by simp)
    rw [observed, flushed, stopping, atStop, frame.done (by simp)]
    exact ⟨fun stopping => ⟨stopping, rfl⟩, fun done => done, le_rfl, le_rfl⟩

theorem Insight.Holds.mono {k : Insight} {w : Recorder F} (holds : k.Holds w) (within : w.flushed ≤ w.observed.length)
    (executed : o.exec cfg choice w = some (r, s)) : k.Holds s := by
  obtain ⟨stopping, done, flushed, _⟩ := exec_grows within executed
  refine ⟨fun saw => (stopping (holds.sawStop saw)).1, fun final => ?_, fun waited => done (holds.waited waited)⟩
  obtain ⟨before, covered⟩ := holds.final final
  obtain ⟨after, same⟩ := stopping before
  exact ⟨after, by rw [same]; exact covered.trans flushed⟩

theorem Insight.Holds.learn {k : Insight} {w : Recorder F} (holds : k.Holds w) (within : w.flushed ≤ w.observed.length)
    (early : w.atStop ≤ w.observed.length) (executed : o.exec cfg choice w = some (r, s)) : (o.learn k r).Holds s := by
  have still := holds.mono within executed
  cases o with
  | select =>
    simp only [RecorderOp.exec] at executed
    split at executed
    · obtain ⟨rfl, rfl⟩ := Prod.mk.inj (Option.some.inj executed)
      exact { holds with sawStop := fun no => by cases no }
    · split at executed
      · rename_i stopping
        obtain ⟨rfl, rfl⟩ := Prod.mk.inj (Option.some.inj executed)
        exact { holds with sawStop := fun _ => stopping }
      · cases executed
  | snapshot =>
    simp only [RecorderOp.exec] at executed
    split at executed
    · obtain ⟨rfl, rfl⟩ := Prod.mk.inj (Option.some.inj executed)
      exact { still with final := fun saw => ⟨holds.sawStop saw, early⟩ }
    · cases executed
  | waitDone =>
    simp only [RecorderOp.exec] at executed
    split at executed
    · rename_i done
      obtain ⟨rfl, rfl⟩ := Prod.mk.inj (Option.some.inj executed)
      exact { holds with waited := fun _ => done }
    · cases executed
  | _ => exact still

/-- The rounds of `run` follow one another, and the last one ends with the recorder done. -/
theorem lone_step {k : Insight} (lone : c.threads.countP looping + (if c.state.done then 1 else 0) ≤ 1)
    (present : c.threads[i]? = some ⟨task, .op o next⟩) (executed : o.exec cfg choice c.state = some (r, s))
    (allowed : o.Allowed task k (next r)) :
    (recorded cfg headID tests c i s task o (next r)).threads.countP looping + (if s.done then 1 else 0) ≤ 1 := by
  have frame := exec_frame executed
  have before := (Crew.threads_perm present).countP_eq looping
  have after : (recorded cfg headID tests c i s task o (next r)).threads.countP looping = _ := (Crew.after_perm present).countP_eq looping
  rw [List.countP_cons, looping_op] at before
  rw [List.countP_cons, List.countP_append] at after
  rw [before] at lone
  rw [after]
  cases o with
  | go t =>
    obtain ⟨rfl, rfl, ended⟩ := allowed
    have new : (((recorderSystem (F := F) cfg headID tests).starts (.go .run)).map (recorderSystem (F := F) cfg headID tests).start).countP
        looping = 1 := rfl
    rw [looping_ended ended, new, frame.done (by simp)]
    simpa using lone
  | closeDone =>
    obtain ⟨rfl, _, ended⟩ := allowed
    have new : (((recorderSystem (F := F) cfg headID tests).starts .closeDone).map (recorderSystem (F := F) cfg headID tests).start).countP
        looping = 0 := rfl
    have last : (if s.done = true then 1 else 0) ≤ 1 := by split <;> omega
    rw [looping_ended ended, new]
    simp only [decide_true, if_true, Bool.false_eq_true, if_false] at lone ⊢
    omega
  | _ =>
    rw [frame.done (by simp)]
    have moved := looping_le task (next r)
    refine le_trans ?_ lone
    simp only [recorderSystem, List.map_nil, List.countP_nil]
    omega

theorem early_step (within : c.state.flushed ≤ c.state.observed.length) (early : c.state.atStop ≤ c.state.observed.length)
    (executed : o.exec cfg choice c.state = some (r, s)) : s.atStop ≤ s.observed.length := by
  have frame := exec_frame executed
  obtain ⟨_, _, _, observed⟩ := exec_grows within executed
  cases o with
  | closeStop =>
    obtain ⟨_, rfl⟩ := Prod.mk.inj (Option.some.inj executed)
    simp only
    split
    · exact early
    · exact le_rfl
  | _ =>
    rw [(frame.stopping (by simp)).2]
    exact early.trans observed

/-- When the recorder is done, whatever came before the call of `Stop` has been flushed. -/
theorem stopped_step {k : Insight} (kept : c.Kept cfg headID tests) (holds : k.Holds c.state)
    (executed : o.exec cfg choice c.state = some (r, s)) (allowed : o.Allowed task k (next r)) (finished : s.done = true) :
    s.stopping = true ∧ s.atStop ≤ s.flushed := by
  have within := kept.tally.within
  obtain ⟨stopping, _, flushed, _⟩ := exec_grows within executed
  by_cases last : o = .closeDone
  · subst last
    exact (holds.mono within executed).final allowed.2.1
  · obtain ⟨before, covered⟩ := kept.stopped ((exec_frame executed).done last ▸ finished)
    obtain ⟨after, same⟩ := stopping before
    exact ⟨after, by rw [same]; exact covered.trans flushed⟩

theorem closed_step {k : Insight} (kept : c.Kept cfg headID tests) (holds : k.Holds c.state)
    (executed : o.exec cfg choice c.state = some (r, s)) (allowed : o.Allowed task k (next r)) (finished : s.closed = true) :
    s.done = true := by
  obtain ⟨_, done, _, _⟩ := exec_grows kept.tally.within executed
  by_cases closing : o = .closeSink
  · subst closing
    exact done (holds.waited allowed)
  · exact done (kept.closed ((exec_frame executed).closed closing ▸ finished))

/-- In production it is a round of `run` that enqueues, so that the recorder is not done. -/
theorem dropped_step {k : Insight} (kept : c.Kept cfg headID tests) (present : c.threads[i]? = some ⟨task, .op o next⟩)
    (executed : o.exec cfg choice c.state = some (r, s)) (allowed : o.Allowed task k (next r)) (production : tests = false) :
    s.dropped = [] := by
  obtain ⟨before, others⟩ := kept.untested production
  cases o with
  | enqueue e =>
    have running : task = .run := by
      have flushes : task.flushes = true := allowed
      have other := others _ (List.mem_of_getElem? present)
      cases task with
      | run => rfl
      | flushNow => exact absurd rfl other
      | request | stop => cases flushes
    have round : 0 < c.threads.countP looping :=
      List.countP_pos_iff.mpr ⟨_, List.mem_of_getElem? present, by rw [looping_op, running]; rfl⟩
    have opened : ¬ c.state.closed = true := by
      intro closed
      have lone := kept.lone
      rw [if_pos (kept.closed closed)] at lone
      omega
    obtain ⟨_, rfl⟩ := Prod.mk.inj (Option.some.inj executed)
    rw [if_neg opened]
    exact before
  | _ =>
    rw [((exec_frame executed).events (by simp)).2]
    exact before

theorem RecorderCrew.Kept.act (kept : c.Kept cfg headID tests) (present : c.threads[i]? = some ⟨task, .op o next⟩)
    (executed : o.exec cfg choice c.state = some (r, s)) : (recorded cfg headID tests c i s task o (next r)).Kept cfg headID tests := by
  have within := kept.tally.within
  obtain ⟨k, holds, orderly⟩ := kept.learns _ (List.mem_of_getElem? present)
  obtain ⟨safe, rest⟩ := orderly r trivial
  refine ⟨kept.tally.step present executed safe.owes, fun t member => ?_, lone_step kept.lone present executed safe.allowed,
    early_step within kept.early executed, stopped_step kept holds executed safe.allowed, closed_step kept holds executed safe.allowed,
    fun production => ⟨dropped_step kept present executed safe.allowed production, fun t member => ?_⟩,
    fun k => counted_step k (kept.counted k) present executed safe.serves⟩
  · rcases Crew.mem_after present member with rfl | old | new
    · exact ⟨_, holds.learn within kept.early executed, rest⟩
    · obtain ⟨k', holds', orderly'⟩ := kept.learns t old
      exact ⟨k', holds'.mono within executed, orderly'⟩
    · obtain ⟨task', _, rfl⟩ := List.mem_map.mp new
      exact ⟨{}, .none _, body_orderly tests task'⟩
  · rcases Crew.mem_after present member with rfl | old | new
    · have before := (kept.untested production).2 _ (List.mem_of_getElem? present)
      exact before
    · exact (kept.untested production).2 t old
    · obtain ⟨task', started, rfl⟩ := List.mem_map.mp new
      cases o with
      | go t =>
        obtain rfl := List.mem_singleton.mp started
        obtain ⟨_, rfl, _⟩ := safe.allowed
        exact fun no => by cases no
      | _ => cases started

theorem RecorderCrew.Kept.enter (kept : c.Kept cfg headID tests) {task : RecorderTask}
    (outside : (recorderSystem (F := F) cfg headID tests).entry task = true) :
    RecorderCrew.Kept cfg headID tests ⟨c.state, c.threads ++ [(recorderSystem cfg headID tests).start task]⟩ := by
  obtain ⟨idle, nothing⟩ := start_idle (F := F) cfg headID tests task
  have other : task ≠ .run := fun same => by subst same; cases outside
  refine ⟨⟨?_, kept.tally.window, kept.tally.within⟩, ?_, ?_, kept.early, kept.stopped, kept.closed,
    fun production => ⟨(kept.untested production).1, fun t member => ?_⟩, fun k => ?_⟩
  · have same : (c.threads ++ [(recorderSystem (F := F) cfg headID tests).start task]).flatMap (fun t => owed t.prog) =
        c.threads.flatMap (fun t => owed t.prog) := by
      rw [List.flatMap_append, List.flatMap_cons, List.flatMap_nil, List.append_nil]
      exact (congrArg _ nothing).trans (List.append_nil _)
    rw [same]
    exact kept.tally.pairs
  · intro t member
    rcases List.mem_append.mp member with old | new
    · exact kept.learns t old
    · obtain rfl := List.mem_singleton.mp new
      exact ⟨{}, .none _, body_orderly tests task⟩
  · have idle : looping ((recorderSystem (F := F) cfg headID tests).start task) = false := by
      simp [looping, System.start, other]
    simp only [List.countP_append, List.countP_singleton, idle, Bool.false_eq_true, if_false, Nat.add_zero]
    exact kept.lone
  · rcases List.mem_append.mp member with old | new
    · exact (kept.untested production).2 t old
    · obtain rfl := List.mem_singleton.mp new
      rintro rfl
      exact absurd (production.symm.trans outside) (by decide)
  · rw [List.countP_append, List.countP_singleton]
    simp only [System.start, idle, reduceCtorEq, decide_false, Bool.false_eq_true, if_false, Nat.add_zero]
    exact kept.counted k

theorem RecorderCrew.Kept.of_reach
    (reach : Crew.Reach (recorderSystem cfg headID tests) Crew.Anyhow (RecorderCrew.new cfg headID tests) c) :
    c.Kept cfg headID tests := by
  induction reach with
  | start => exact .new cfg headID tests
  | next _ step ih =>
    cases step with
    | enter task outside => exact ih.enter outside
    | act i choice present executed _ => exact ih.act present executed

end Runs

section Results

variable {F : Type} [LinearOrder F] [Zero F] [Add F] [Div F] [NatCast F] [IntCast F]

/-- No sample is lost or counted twice, whatever runs at once. The samples observed up to the last flush fall into groups, and each
group is reported in full by one event, which the sink has been given or a flush is about to give it; the others are in the
window. In production nothing comes to the sink after its close, and once it is closed no event is to come, and all that had
been observed when `Stop` was called has been reported. -/
theorem samples_reported_once {cfg : Config} {headID : String} {tests : Bool} {c : RecorderCrew F}
    (reach : Crew.Reach (recorderSystem cfg headID tests) Crew.Anyhow (RecorderCrew.new cfg headID tests) c) :
    (∃ pairs : List (List (Sample F) × Rollup F),
      (pairs.map (fun p => buildEvent headID cfg.groupType p.2)).Perm
        (c.state.events ++ c.state.dropped ++ c.threads.flatMap (fun t => owed t.prog)) ∧
      (∀ p ∈ pairs, p.2.Reports cfg.maxLatencySamples cfg.flushIntervalSeconds p.1) ∧
      (pairs.flatMap Prod.fst).Perm (c.state.observed.take c.state.flushed)) ∧
    Window (capacity cfg.maxLatencySamples) c.state.buckets (c.state.observed.drop c.state.flushed) ∧
    (tests = false → c.state.dropped = [] ∧ (c.state.closed = true →
      c.threads.flatMap (fun t => owed t.prog) = [] ∧ c.state.atStop ≤ c.state.flushed)) := by
  have kept := RecorderCrew.Kept.of_reach reach
  refine ⟨kept.tally.pairs, kept.tally.window, fun production => ⟨(kept.untested production).1, fun closed => ?_⟩⟩
  have done := kept.closed closed
  refine ⟨List.flatMap_eq_nil_iff.mpr (fun t member => ?_), (kept.stopped done).2⟩
  by_contra owes
  have lone := kept.lone
  rw [if_pos done] at lone
  have ended : looping t = false := by
    have empty : c.threads.countP looping = 0 := by omega
    simpa using List.countP_eq_zero.mp empty t member
  obtain ⟨task, prog⟩ := t
  cases prog with
  | ret a => exact owes rfl
  | fail e => exact owes rfl
  | op o next =>
    cases o with
    | enqueue e =>
      obtain ⟨k, _, orderly⟩ := kept.learns _ member
      have flushes : task.flushes = true := (orderly () trivial).1.allowed
      have other := (kept.untested production).2 _ member
      rw [looping_op] at ended
      cases task with
      | run => cases ended
      | flushNow => exact other rfl
      | request | stop => cases flushes
    | _ => exact owes rfl

/-- The count of a service, model and worker is that of the requests being served for them, together with those that a panic has
cut short. -/
theorem inflight_counts {cfg : Config} {headID : String} {tests : Bool} {c : RecorderCrew F}
    (reach : Crew.Reach (recorderSystem cfg headID tests) Crew.Anyhow (RecorderCrew.new cfg headID tests) c) (k : BucketKey) :
    c.state.inflight k = c.threads.countP (fun t => busy t.prog = some k) :=
  (RecorderCrew.Kept.of_reach reach).counted k

end Results

namespace Shutdown

def cfg : Config := Config.normalize ⟨0, 0, ""⟩

def sample : Sample ℚ where
  service := ""
  model := ""
  workerPeerID := ""
  providerID := "p"
  gpuModel := "g"
  gpuCount := 1
  status := 200
  latencyMs := 3
  ttftMs := 1
  inputTokens := 5
  outputTokens := 7
  cachedTokens := 0
  totalTokens := 12
  gpuMs := 2
  concurrency := 0

/-- A request whose first worker has to be given up, and which is being served by the second. -/
def serving : List (Crew.Move (RecorderChoice ℚ) RecorderTask) :=
  [.enter (.request "llm" "m" ["v", "w"]), .act 1 {}, .act 1 {}, .act 1 {}, .act 1 {}]

/-- It is answered, and the recorder is stopped. -/
def stopped : List (Crew.Move (RecorderChoice ℚ) RecorderTask) :=
  serving ++ [.act 1 { outcome := .answered sample }, .act 1 {}, .act 1 {}, .enter .stop, .act 2 {}, .act 2 {},
    .act 0 { tick := false }, .act 0 { keys := [⟨"llm", "m", "w"⟩] }, .act 0 {}, .act 0 {}, .act 2 {}, .act 2 {}, .act 2 {}]

def crew (moves : List (Crew.Move (RecorderChoice ℚ) RecorderTask)) : RecorderCrew ℚ :=
  (RecorderCrew.new cfg "head" false).play (recorderSystem cfg "head" false) (fun _ _ => true) moves

theorem reach (moves : List (Crew.Move (RecorderChoice ℚ) RecorderTask)) :
    Crew.Reach (recorderSystem cfg "head" false) Crew.Anyhow (RecorderCrew.new cfg "head" false) (crew moves) :=
  .of_play (fun _ _ => true) (fun _ _ _ _ _ _ => trivial) moves .start

end Shutdown

theorem samples_reported_once_shutdown : (Shutdown.crew Shutdown.stopped).state.events.length = 1 ∧
    (Shutdown.crew Shutdown.stopped).state.dropped = [] ∧
    (Shutdown.crew Shutdown.stopped).state.atStop ≤ (Shutdown.crew Shutdown.stopped).state.flushed := by
  obtain ⟨_, _, production⟩ := samples_reported_once (Shutdown.reach Shutdown.stopped)
  obtain ⟨dropped, closed⟩ := production rfl
  exact ⟨by decide, dropped, (closed (by decide)).2⟩

theorem inflight_counts_serving : (Shutdown.crew Shutdown.serving).state.inflight ⟨"llm", "m", "w"⟩ = 1 := by
  rw [inflight_counts (Shutdown.reach Shutdown.serving)]
  decide

end OpenTela.Analytics
