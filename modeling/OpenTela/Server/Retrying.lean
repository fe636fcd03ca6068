import OpenTela.Server.RetryWriter
import Mathlib.Data.List.Perm.Subperm

namespace OpenTela

/-- `c.JSON` of an error. -/
def ResponseWriter.error (json : JsonParser) (status : ℕ) (text : String) (w : ResponseWriter) : ResponseWriter :=
  ({ w with header := w.header.set "Content-Type" "application/json; charset=utf-8" }.call (.writeHeader status)).call
    (.write (json.marshal "error" text).toUTF8.data.toList)

/-- What `ServeHTTP` does with the writer of an attempt. It panics if the copy of the answer breaks off.
`firstByte` is the time that the marker measures, in milliseconds. -/
structure Exchange where
  calls : List WriterCall
  panics : Bool := false
  firstByte : String := ""

/-- An attempt, with its writer at the end of `ServeHTTP`. -/
structure Attempt where
  dispatch : Dispatch
  exchange : Exchange
  writer : RetryableResponseWriter

def Attempt.received (a : Attempt) : List UInt8 := a.exchange.calls.flatMap WriterCall.data

def Attempt.retried (a : Attempt) : Bool := !a.exchange.panics && a.writer.isRetryable

def timingComment (firstByte : String) : List UInt8 := (": otela-head-first-byte=" ++ firstByte ++ "\n\n").toUTF8.data.toList

/-- The comment goes to the writer of the client directly. -/
def appendTiming (isStreaming : Bool) (firstByte : String) (rw : RetryableResponseWriter) : RetryableResponseWriter :=
  if isStreaming && rw.headersSent && rw.underlying.fired then
    let client := (rw.underlying.client.call (.write (timingComment firstByte))).call .flush
    { rw with underlying := { rw.underlying with client } }
  else rw

/-- The bytes of an attempt that is not retried, as they reach the client. -/
def Attempt.delivered (isStreaming : Bool) (a : Attempt) : List UInt8 :=
  if a.exchange.panics then
    if a.writer.headersSent then a.received else []
  else
    a.received ++
      if isStreaming && a.writer.headersSent && !a.received.isEmpty then timingComment a.exchange.firstByte else []

/-- The attempts of a request, in order, and what has become of the client's writer. -/
structure Transcript where
  attempts : List Attempt
  client : ResponseWriter

def Transcript.after (a : Attempt) (t : Transcript) : Transcript := { t with attempts := a :: t.attempts }

section Retry

variable (env : Surroundings) (scope : RoutingScope) (requestPath : String) (send : Target → Request) (json : JsonParser)
  (isStreaming : Bool) (maxBuffer : ℤ) (upstream : ℕ → Exchange) (candidates : List String)

def writerAt (n : ℕ) (client : ResponseWriter) : RetryableResponseWriter :=
  (newRetryableResponseWriter client isStreaming maxBuffer).serve (upstream n).calls

/-- The retry loop of `globalServiceForward.attempts`, with the writers. -/
def globalServiceForward.serveAttempts : (rounds : ℕ) → (n : ℕ) → (excluded : List String) → ResponseWriter → Transcript
  | 0, _, _, client =>
    { attempts := [], client := client.error json statusBadGateway ("all workers unreachable for service " ++ scope.service) }
  | rounds + 1, n, excluded, client =>
    match excludePeers candidates excluded with
    | [] =>
      { attempts := [], client := client.error json statusBadGateway ("all workers unreachable for service " ++ scope.service) }
    | first :: rest =>
      let remaining := first :: rest
      let targetPeer := remaining.getD (env.pick n % remaining.length) first
      match resolveTarget env scope n targetPeer requestPath with
      | none => serveAttempts rounds (n + 1) (targetPeer :: excluded) client
      | some target =>
        let exchange := upstream n
        let rw := writerAt isStreaming maxBuffer upstream n client
        let a : Attempt := { dispatch := { peer := targetPeer, target, request := send target }, exchange, writer := rw }
        if exchange.panics then { attempts := [a], client := rw.underlying.client }
        else
          let rw := appendTiming isStreaming exchange.firstByte rw
          if rw.isRetryable then (serveAttempts rounds (n + 1) (targetPeer :: excluded) rw.underlying.client).after a
          else { attempts := [a], client := (if rw.headersSent then rw else rw.flushToClient).underlying.client }

/-- The surroundings in which an attempt is retryable if its writer says so. -/
def Surroundings.retrying (client : ResponseWriter) : Surroundings :=
  { env with retryable := fun n _ => !(upstream n).panics && (writerAt isStreaming maxBuffer upstream n client).isRetryable }

/-- Layers 1 and 2 of the streaming detection; `stream` is whether the body has a true `stream`. -/
def isStreamingRequest (stream : Bool) (req : Request) : Bool :=
  stream || decide ("text/event-stream".toList <:+: (req.getHeader "Accept").toList)

/-- `globalServiceForward` with the writers. -/
def globalServiceForward.serve (setup : ServerSetup) (legacy : Legacy) (req : Request) (candidates : List String)
    (outcome : Option (Except ControlPlaneError (Option ControlPlaneDecisionV2))) (stream : Bool) (client : ResponseWriter) :
    Except Reply Transcript :=
  match globalServiceForward.eligible setup env scope req candidates outcome with
  | .error reply => .error reply
  | .ok (candidates, primaryWallet) =>
    let maxRetries := if setup.routing.retryEnabled then setup.routing.maxRetries else 0
    let clientWallet := authenticatedWallet setup legacy req primaryWallet
    let attemptReq := { req with header := req.header.set "X-Otela-Request-Id" env.requestID }
    .ok (globalServiceForward.serveAttempts env scope (buildInternalServicePath scope req.path)
      (fun target => serveHTTP (director target clientWallet) attemptReq) setup.routing.json (isStreamingRequest stream req) maxBuffer
      upstream candidates (maxRetries + 1).toNat 0 [] client)

end Retry

section Peers

variable {env : Surroundings} {scope : RoutingScope} {requestPath : String} {send : Target → Request} {candidates : List String}

theorem attempts_fresh {rounds n : ℕ} {excluded : List String} {d : Dispatch}
    (member : d ∈ globalServiceForward.attempts env scope requestPath send candidates rounds n excluded) : d.peer ∉ excluded := by
  induction rounds generalizing n excluded with
  | zero => cases member
  | succ rounds ih =>
    unfold globalServiceForward.attempts at member
    split at member
    · cases member
    · rename_i first rest left
      dsimp only at member
      split at member
      · exact fun before => ih member (List.mem_cons_of_mem _ before)
      · rcases List.mem_cons.mp member with rfl | later
        · exact (mem_excludePeers.mp (pick_mem (env.pick n) left)).2
        · split at later
          · exact fun before => ih later (List.mem_cons_of_mem _ before)
          · cases later

theorem attempts_nodup {rounds n : ℕ} {excluded : List String} :
    ((globalServiceForward.attempts env scope requestPath send candidates rounds n excluded).map Dispatch.peer).Nodup := by
  induction rounds generalizing n excluded with
  | zero => exact List.nodup_nil
  | succ rounds ih =>
    unfold globalServiceForward.attempts
    split
    · exact List.nodup_nil
    · dsimp only
      split
      · exact ih
      · split
        · refine List.nodup_cons.mpr ⟨fun again => ?_, ih⟩
          obtain ⟨d, member, same⟩ := List.mem_map.mp again
          refine attempts_fresh member ?_
          rw [same]
          exact List.mem_cons_self
        · exact List.nodup_singleton _

theorem attempts_length_le {rounds n : ℕ} {excluded : List String} :
    (globalServiceForward.attempts env scope requestPath send candidates rounds n excluded).length ≤ rounds := by
  induction rounds generalizing n excluded with
  | zero => exact Nat.le_refl 0
  | succ rounds ih =>
    unfold globalServiceForward.attempts
    split
    · exact Nat.zero_le _
    · dsimp only
      split
      · exact ih.trans (Nat.le_succ rounds)
      · rw [List.length_cons]
        split
        · exact Nat.succ_le_succ ih
        · exact Nat.succ_le_succ (Nat.zero_le rounds)

/-- No more attempts than candidates, since each is made at another one. -/
theorem attempts_length_le_candidates {rounds n : ℕ} {excluded : List String} :
    (globalServiceForward.attempts env scope requestPath send candidates rounds n excluded).length ≤ candidates.length := by
  have within : (globalServiceForward.attempts env scope requestPath send candidates rounds n excluded).map Dispatch.peer ⊆ candidates := by
    intro peer member
    obtain ⟨d, attempted, rfl⟩ := List.mem_map.mp member
    exact (attempts_mem attempted).1
  have bound := (List.subperm_of_subset attempts_nodup within).length_le
  rwa [List.length_map] at bound

end Peers

section Delivery

variable {env : Surroundings} {scope : RoutingScope} {requestPath : String} {send : Target → Request} {json : JsonParser}
  {isStreaming : Bool} {maxBuffer : ℤ} {upstream : ℕ → Exchange} {candidates : List String} {client : ResponseWriter}

theorem writerAt_keeps (n : ℕ) :
    (writerAt isStreaming maxBuffer upstream n client).Keeps client ((upstream n).calls.flatMap WriterCall.data) :=
  (RetryableResponseWriter.new_keeps isStreaming maxBuffer).serve (upstream n).calls

theorem appendTiming_isRetryable (firstByte : String) (rw : RetryableResponseWriter) :
    (appendTiming isStreaming firstByte rw).isRetryable = rw.isRetryable := by
  unfold appendTiming
  split <;> rfl

theorem appendTiming_headersSent (firstByte : String) (rw : RetryableResponseWriter) :
    (appendTiming isStreaming firstByte rw).headersSent = rw.headersSent := by
  unfold appendTiming
  split <;> rfl

theorem appendTiming_unsent (firstByte : String) {rw : RetryableResponseWriter} (unsent : rw.headersSent = false) :
    appendTiming isStreaming firstByte rw = rw := by
  simp [appendTiming, unsent]

theorem isRetryable_unsent {rw : RetryableResponseWriter} (retryable : rw.isRetryable = true) : rw.headersSent = false := by
  simp only [RetryableResponseWriter.isRetryable, Bool.and_eq_true, Bool.not_eq_true'] at retryable
  exact retryable.1

/-- A retried attempt leaves the client's writer to the next as it has found it. -/
theorem appendTiming_untouched {n : ℕ} (firstByte : String)
    (retryable : (appendTiming isStreaming firstByte (writerAt isStreaming maxBuffer upstream n client)).isRetryable = true) :
    (appendTiming isStreaming firstByte (writerAt isStreaming maxBuffer upstream n client)).underlying.client = client := by
  rw [appendTiming_isRetryable] at retryable
  rw [appendTiming_unsent firstByte (isRetryable_unsent retryable)]
  exact (writerAt_keeps n).untouched retryable

/-- The attempts are those of `globalServiceForward.attempts` with the writers to say which are retryable: whichever
is retried leaves the next one the same writer of the client. -/
theorem serveAttempts_dispatch {rounds n : ℕ} {excluded : List String} :
    (globalServiceForward.serveAttempts env scope requestPath send json isStreaming maxBuffer upstream candidates rounds n excluded
      client).attempts.map Attempt.dispatch =
      globalServiceForward.attempts (env.retrying isStreaming maxBuffer upstream client) scope requestPath send candidates rounds n
        excluded := by
  induction rounds generalizing n excluded with
  | zero => rfl
  | succ rounds ih =>
    unfold globalServiceForward.serveAttempts globalServiceForward.attempts
    cases left : excludePeers candidates excluded with
    | nil => rfl
    | cons first rest =>
      dsimp only
      change _ = match resolveTarget env scope n ((first :: rest).getD (env.pick n % (first :: rest).length) first) requestPath with
        | none => _
        | some target => _
      cases found : resolveTarget env scope n ((first :: rest).getD (env.pick n % (first :: rest).length) first) requestPath with
      | none => exact ih
      | some target =>
        cases panics : (upstream n).panics with
        | true => simp [Surroundings.retrying, panics]
        | false =>
          cases retryable : (writerAt isStreaming maxBuffer upstream n client).isRetryable with
          | true =>
            have untouched : (appendTiming isStreaming (upstream n).firstByte
                (writerAt isStreaming maxBuffer upstream n client)).underlying.client = client :=
              appendTiming_untouched _ ((appendTiming_isRetryable _ _).trans retryable)
            simp [Surroundings.retrying, panics, retryable, appendTiming_isRetryable, untouched, Transcript.after, ih]
          | false => simp [Surroundings.retrying, panics, retryable, appendTiming_isRetryable]

/-- Whatever holds of the requests that go out holds of them with the writers. -/
theorem serve_dispatch {setup : ServerSetup} {legacy : Legacy} {req : Request}
    {outcome : Option (Except ControlPlaneError (Option ControlPlaneDecisionV2))} {stream : Bool} :
    (globalServiceForward.serve env scope maxBuffer upstream setup legacy req candidates outcome stream client).map
        (fun t => t.attempts.map Attempt.dispatch) =
      globalServiceForward setup legacy (env.retrying (isStreamingRequest stream req) maxBuffer upstream client) scope req candidates
        outcome := by
  unfold globalServiceForward.serve globalServiceForward
  change _ = match globalServiceForward.eligible setup env scope req candidates outcome with
    | .error reply => _
    | .ok (candidates, primaryWallet) => _
  cases globalServiceForward.eligible setup env scope req candidates outcome with
  | error reply => rfl
  | ok out => exact congrArg Except.ok serveAttempts_dispatch

/-- What an attempt that is not retried gives the client: nothing but its own bytes, and the comment. -/
theorem writerAt_delivered {n : ℕ} (dispatch : Dispatch) (completes : (upstream n).panics = false) :
    let rw := appendTiming isStreaming (upstream n).firstByte (writerAt isStreaming maxBuffer upstream n client)
    (if rw.headersSent then rw else rw.flushToClient).underlying.client.body =
      client.body ++ Attempt.delivered isStreaming
        { dispatch, exchange := upstream n, writer := writerAt isStreaming maxBuffer upstream n client } := by
  have keeps : (writerAt isStreaming maxBuffer upstream n client).Keeps client _ := writerAt_keeps n
  simp only [Attempt.delivered, Attempt.received, completes, Bool.false_eq_true, if_false, appendTiming_headersSent]
  cases sent : (writerAt isStreaming maxBuffer upstream n client).headersSent with
  | true =>
    obtain ⟨body, fired⟩ := keeps.committed sent
    simp only [appendTiming, sent, fired, Bool.and_true, if_true]
    split
    · simp [body, ClientCall.data]
    · simpa using body
  | false =>
    rw [appendTiming_unsent _ sent]
    simpa using keeps.flushToClient sent

theorem panicked_delivered {n : ℕ} (dispatch : Dispatch) (panics : (upstream n).panics = true) :
    (writerAt isStreaming maxBuffer upstream n client).underlying.client.body =
      client.body ++ Attempt.delivered isStreaming
        { dispatch, exchange := upstream n, writer := writerAt isStreaming maxBuffer upstream n client } := by
  have keeps : (writerAt isStreaming maxBuffer upstream n client).Keeps client _ := writerAt_keeps n
  simp only [Attempt.delivered, Attempt.received, panics, if_true]
  cases sent : (writerAt isStreaming maxBuffer upstream n client).headersSent with
  | true => simpa using (keeps.committed sent).1
  | false => simp [(keeps.buffered sent).1]

/-- How the attempts of a request may go, from a writer of the client on. -/
inductive Serves (isStreaming : Bool) (exhausted client : ResponseWriter) : Transcript → Prop
  | exhausted : Serves isStreaming exhausted client { attempts := [], client := exhausted }
  | retried {a : Attempt} {t : Transcript} :
      a.retried = true → a.writer.underlying.client = client → Serves isStreaming exhausted client t →
      Serves isStreaming exhausted client (t.after a)
  | last {a : Attempt} {served : ResponseWriter} :
      a.retried = false → served.body = client.body ++ a.delivered isStreaming →
      Serves isStreaming exhausted client { attempts := [a], client := served }

theorem serveAttempts_serves {rounds n : ℕ} {excluded : List String} :
    Serves isStreaming (client.error json statusBadGateway ("all workers unreachable for service " ++ scope.service)) client
      (globalServiceForward.serveAttempts env scope requestPath send json isStreaming maxBuffer upstream candidates rounds n excluded
        client) := by
  induction rounds generalizing n excluded with
  | zero => exact .exhausted
  | succ rounds ih =>
    unfold globalServiceForward.serveAttempts
    split
    · exact .exhausted
    · dsimp only
      split
      · exact ih
      · split
        · rename_i panics
          refine .last ?_ (panicked_delivered _ panics)
          simp [Attempt.retried, panics]
        · rename_i completes
          have completes : (upstream n).panics = false := Bool.eq_false_iff.mpr completes
          split
          · rename_i retryable
            rw [appendTiming_untouched _ retryable]
            rw [appendTiming_isRetryable] at retryable
            refine .retried ?_ ((writerAt_keeps n).untouched retryable) ih
            simp [Attempt.retried, completes, retryable]
          · rename_i settled
            rw [appendTiming_isRetryable] at settled
            refine .last ?_ (writerAt_delivered _ completes)
            simp [Attempt.retried, settled]

theorem Serves.untouched {exhausted : ResponseWriter} {t : Transcript} (serves : Serves isStreaming exhausted client t) {a : Attempt}
    (member : a ∈ t.attempts) (retried : a.retried = true) : a.writer.underlying.client = client := by
  induction serves with
  | exhausted => cases member
  | retried _ untouched _ ih =>
    rcases List.mem_cons.mp member with rfl | later
    · exact untouched
    · exact ih later
  | last settled _ =>
    rcases List.mem_singleton.mp member with rfl
    cases settled.symm.trans retried

/-- All are retried, or all but the last. -/
theorem Serves.delivered {exhausted : ResponseWriter} {t : Transcript} (serves : Serves isStreaming exhausted client t) :
    ((∀ a ∈ t.attempts, a.retried = true) ∧ t.client = exhausted) ∨
      ∃ earlier a, t.attempts = earlier ++ [a] ∧ (∀ b ∈ earlier, b.retried = true) ∧ a.retried = false ∧
        t.client.body = client.body ++ a.delivered isStreaming := by
  induction serves with
  | exhausted => exact .inl ⟨fun _ member => (nomatch member), rfl⟩
  | @retried a t retried _ _ ih =>
    rcases ih with ⟨all, same⟩ | ⟨earlier, last, split, all, settled, body⟩
    · exact .inl ⟨List.forall_mem_cons.mpr ⟨retried, all⟩, same⟩
    · refine .inr ⟨a :: earlier, last, ?_, List.forall_mem_cons.mpr ⟨retried, all⟩, settled, body⟩
      exact congrArg (List.cons a) split
  | last settled body => exact .inr ⟨[], _, rfl, fun _ member => (nomatch member), settled, body⟩

end Delivery

/-- Attempts go to different candidates, at most `maxRetries + 1` of them. One that is retried has written nothing to
the client; the first that is not gives it its bytes in order and a comment at most; and the client hears of
the failure if all are retried. -/
theorem single_attempt_delivery (env : Surroundings) (scope : RoutingScope) (requestPath : String) (send : Target → Request)
    (json : JsonParser) (isStreaming : Bool) (maxBuffer maxRetries : ℤ) (upstream : ℕ → Exchange) (candidates : List String)
    (client : ResponseWriter) :
    let run := globalServiceForward.serveAttempts env scope requestPath send json isStreaming maxBuffer upstream candidates
      (maxRetries + 1).toNat 0 [] client
    (run.attempts.map (fun a => a.dispatch.peer)).Nodup ∧ (∀ a ∈ run.attempts, a.dispatch.peer ∈ candidates) ∧
      run.attempts.length ≤ min (maxRetries + 1).toNat candidates.length ∧
      (∀ a ∈ run.attempts, a.retried = true → a.writer.underlying.client = client) ∧
      (((∀ a ∈ run.attempts, a.retried = true) ∧
          run.client = client.error json statusBadGateway ("all workers unreachable for service " ++ scope.service)) ∨
        ∃ earlier a, run.attempts = earlier ++ [a] ∧ (∀ b ∈ earlier, b.retried = true) ∧ a.retried = false ∧
          run.client.body = client.body ++ a.delivered isStreaming) := by
  intro run
  have dispatched : run.attempts.map Attempt.dispatch = _ := serveAttempts_dispatch
  have serves : Serves isStreaming _ client run := serveAttempts_serves
  have peers : run.attempts.map (fun a => a.dispatch.peer) = (run.attempts.map Attempt.dispatch).map Dispatch.peer := by
    rw [List.map_map]
    rfl
  have length : run.attempts.length = (run.attempts.map Attempt.dispatch).length := (List.length_map _).symm
  refine ⟨?_, fun a member => ?_, ?_, fun a member => serves.untouched member, serves.delivered⟩
  · rw [peers, dispatched]
    exact attempts_nodup
  · have sent := List.mem_map_of_mem (f := Attempt.dispatch) member
    rw [dispatched] at sent
    exact (attempts_mem sent).1
  · rw [length, dispatched]
    exact Nat.le_min.mpr ⟨attempts_length_le, attempts_length_le_candidates⟩

end OpenTela
