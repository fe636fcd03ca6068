import OpenTela.Server.Retrying

namespace OpenTela

/-- An interim status. `101` ends a response. -/
def isInterim (code : ℕ) : Prop := 100 ≤ code ∧ code < 200 ∧ code ≠ 101

instance (code : ℕ) : Decidable (isInterim code) := inferInstanceAs (Decidable (_ ∧ _ ∧ _))

/-- The final status of the response a client gets: that of the first call that is not an interim one,
where bytes and flushes stand for 200. -/
def finalStatus : List ClientCall → ℕ
  | .writeHeader code :: rest => if isInterim code then finalStatus rest else code
  | _ => statusOK

def ResponseWriter.status (w : ResponseWriter) : ℕ := finalStatus w.calls

/-- What `ReverseProxy` calls while it copies a body, and announces trailers. -/
def WriterCall.IsCopy : WriterCall → Prop
  | .writeHeader _ | .markFailed => False
  | .setHeader _ | .write _ | .flush => True

/-- A worker's response. -/
structure WorkerResponse where
  interim : List (ℕ × Header)
  code : ℕ
  header : Header
  body : List WriterCall
  informational : ∀ i ∈ interim, isInterim i.1
  final : 200 ≤ code
  copies : ∀ call ∈ body, call.IsCopy

namespace WorkerResponse

variable (r : WorkerResponse)

def bytes : List UInt8 := r.body.flatMap WriterCall.data

/-- Each interim response passes through `WriteHeader`, before the final one. -/
def calls : List WriterCall :=
  r.interim.flatMap (fun i => [.setHeader i.2, .writeHeader i.1, .setHeader Header.empty]) ++
    .setHeader r.header :: .writeHeader r.code :: r.body

def exchange (firstByte : String) : Exchange := { calls := r.calls, firstByte }

/-- The status the writer latches. -/
def firstCode : ℕ := (r.interim.head?.map Prod.fst).getD r.code

end WorkerResponse

/-- What the client's writer is left with by an attempt that is not retried. -/
def Attempt.settled (isStreaming : Bool) (a : Attempt) : ResponseWriter :=
  let rw := appendTiming isStreaming a.exchange.firstByte a.writer
  (if rw.headersSent then rw else rw.flushToClient).underlying.client

/-- The status is the worker's, for the client and for the retry decision, and so is the body, unless it is one
of server-sent events. -/
structure Faithful (r : WorkerResponse) (a : Attempt) (client : ResponseWriter) : Prop where
  status : client.status = r.code
  decision : a.writer.statusCode = r.code
  body : isStreamingResponse r.header = false → client.body = r.bytes

/-- The client's writer has nothing before the commit, and from then on the status, bytes and flushes. -/
structure RetryableResponseWriter.Fronts (rw : RetryableResponseWriter) : Prop where
  wrote : rw.wroteHeader = true
  named : rw.statusCode ≠ 0
  unsent : rw.headersSent = false → rw.underlying.client.calls = []
  sent : rw.headersSent = true → ∃ rest, rw.underlying.client.calls = .writeHeader rw.statusCode :: rest ∧
    ∀ call ∈ rest, ∀ code, call ≠ .writeHeader code

/-- The buffer holds what it may, and the writer commits when there is more. -/
structure RetryableResponseWriter.Capped (maxBuffer : ℤ) (received : List UInt8) (rw : RetryableResponseWriter) : Prop where
  limit : rw.maxBufferSize = maxBuffer
  wrote : rw.wroteHeader = true
  unsent : rw.headersSent = false → rw.body = received ∧ (received = [] ∨ received.length ≤ maxBuffer)
  sent : rw.headersSent = true → maxBuffer < received.length

namespace RetryableResponseWriter

variable {rw : RetryableResponseWriter} {received : List UInt8}

theorem finalStatus_front {code : ℕ} {rest : List ClientCall} (bytes : ∀ call ∈ rest, ∀ code, call ≠ .writeHeader code) :
    finalStatus (.writeHeader code :: rest) = if isInterim code then statusOK else code := by
  rw [finalStatus]
  cases rest with
  | nil => rfl
  | cons call rest =>
    cases call with
    | writeHeader other => exact absurd rfl (bytes _ (List.mem_cons_self ..) other)
    | write _ | flush => rfl

theorem Fronts.pass (fronts : rw.Fronts) (sent : rw.headersSent = true) (data : List UInt8) : (rw.pass data).Fronts := by
  refine ⟨fronts.wrote, fronts.named, fun unsent => Bool.noConfusion (sent.symm.trans unsent), fun _ => ?_⟩
  obtain ⟨rest, calls, bytes⟩ := fronts.sent sent
  refine ⟨rest ++ [.write data], ?_, ?_⟩
  · simp [RetryableResponseWriter.pass, FirstByteMarker.call, ResponseWriter.call, calls]
  · intro call member code
    rcases List.mem_append.mp member with before | new
    · exact bytes call before code
    · rw [List.mem_singleton.mp new]
      exact ClientCall.noConfusion

theorem Fronts.passBody (fronts : rw.Fronts) (sent : rw.headersSent = true) : rw.passBody.Fronts := by
  unfold RetryableResponseWriter.passBody
  split
  · exact fronts
  · exact fronts.pass sent _

theorem Fronts.commit (fronts : rw.Fronts) (unsent : rw.headersSent = false) (exceeded : Bool) :
    ({ rw.commitHeaders with bufferExceeded := exceeded } : RetryableResponseWriter).Fronts := by
  refine ⟨fronts.wrote, fronts.named, fun unsent => Bool.noConfusion unsent, fun _ => ⟨[], ?_, fun _ none => absurd none List.not_mem_nil⟩⟩
  simp [commitHeaders, FirstByteMarker.call, ResponseWriter.call, fronts.unsent unsent, fronts.named]

/-- A write after the status is written. -/
theorem write_eq (wrote : rw.wroteHeader = true) (data : List UInt8) :
    rw.write data =
      if rw.headersSent then rw.pass data
      else if rw.maxBufferSize < (rw.body.length + data.length : ℕ) then
        ({ rw.commitHeaders with bufferExceeded := true }.passBody).pass data
      else { rw with body := rw.body ++ data } := by
  have written : (if rw.wroteHeader then rw else rw.writeHeader statusOK) = rw := if_pos wrote
  simp only [write, written]

theorem Fronts.step (fronts : rw.Fronts) (call : WriterCall) :
    (rw.step call).Fronts ∧ (rw.step call).statusCode = rw.statusCode := by
  cases call with
  | setHeader header => exact ⟨⟨fronts.wrote, fronts.named, fronts.unsent, fronts.sent⟩, rfl⟩
  | markFailed => exact ⟨⟨fronts.wrote, fronts.named, fronts.unsent, fronts.sent⟩, rfl⟩
  | writeHeader code =>
    simp only [RetryableResponseWriter.step, RetryableResponseWriter.writeHeader, fronts.wrote, if_true]
    exact ⟨fronts, trivial⟩
  | flush =>
    simp only [RetryableResponseWriter.step, RetryableResponseWriter.flush]
    split
    · rename_i sent
      refine ⟨⟨fronts.wrote, fronts.named, fun unsent => Bool.noConfusion (sent.symm.trans unsent), fun _ => ?_⟩, rfl⟩
      obtain ⟨rest, calls, bytes⟩ := fronts.sent sent
      refine ⟨rest ++ [.flush], ?_, ?_⟩
      · simp [FirstByteMarker.call, ResponseWriter.call, calls]
      · intro call member code
        rcases List.mem_append.mp member with before | new
        · exact bytes call before code
        · rw [List.mem_singleton.mp new]
          exact ClientCall.noConfusion
    · exact ⟨fronts, rfl⟩
  | write data =>
    rw [RetryableResponseWriter.step, write_eq fronts.wrote]
    split
    · exact ⟨fronts.pass ‹_› data, rfl⟩
    · have unsent : rw.headersSent = false := Bool.eq_false_iff.mpr ‹_›
      split
      · have committed := (fronts.commit unsent true).passBody rfl
        refine ⟨committed.pass (by rw [passBody_headersSent]; rfl) data, ?_⟩
        simp only [RetryableResponseWriter.pass, RetryableResponseWriter.passBody]
        split <;> rfl
      · exact ⟨⟨fronts.wrote, fronts.named, fronts.unsent, fronts.sent⟩, rfl⟩

theorem Fronts.serve (fronts : rw.Fronts) (calls : List WriterCall) :
    (rw.serve calls).Fronts ∧ (rw.serve calls).statusCode = rw.statusCode := by
  induction calls generalizing rw with
  | nil => exact ⟨fronts, rfl⟩
  | cons call rest ih =>
    obtain ⟨next, same⟩ := fronts.step call
    obtain ⟨later, same'⟩ := ih next
    exact ⟨later, same'.trans same⟩

theorem Capped.step {maxBuffer : ℤ} (capped : rw.Capped maxBuffer received) {call : WriterCall} (copy : call.IsCopy) :
    (rw.step call).Capped maxBuffer (received ++ call.data) := by
  cases call with
  | writeHeader code => exact copy.elim
  | markFailed => exact copy.elim
  | setHeader header =>
    simp only [WriterCall.data, List.append_nil]
    exact ⟨capped.limit, capped.wrote, capped.unsent, capped.sent⟩
  | flush =>
    simp only [WriterCall.data, List.append_nil, RetryableResponseWriter.step, RetryableResponseWriter.flush]
    split
    · exact ⟨capped.limit, capped.wrote, capped.unsent, capped.sent⟩
    · exact capped
  | write data =>
    have long : ((received ++ data).length : ℤ) = received.length + data.length := by simp
    rw [RetryableResponseWriter.step, write_eq capped.wrote, WriterCall.data, capped.limit]
    cases sent : rw.headersSent with
    | true =>
      rw [if_pos rfl]
      refine ⟨capped.limit, capped.wrote, fun unsent => Bool.noConfusion (sent.symm.trans unsent), fun _ => ?_⟩
      have before := capped.sent sent
      omega
    | false =>
      obtain ⟨body, _⟩ := capped.unsent sent
      rw [if_neg Bool.false_ne_true, body]
      split
      · rename_i exceeded
        refine ⟨?_, ?_, fun unsent => ?_, fun _ => ?_⟩
        · simp only [RetryableResponseWriter.pass, RetryableResponseWriter.passBody]
          split <;> exact capped.limit
        · simp only [RetryableResponseWriter.pass]
          rw [passBody_wroteHeader]
          exact capped.wrote
        · simp only [RetryableResponseWriter.pass] at unsent
          rw [passBody_headersSent] at unsent
          cases unsent
        · rw [List.length_append]
          exact exceeded
      · rename_i fits
        refine ⟨rfl, capped.wrote, fun _ => ⟨rfl, Or.inr ?_⟩, fun sent => Bool.noConfusion sent⟩
        rw [List.length_append]
        exact not_lt.mp fits

theorem Capped.serve {maxBuffer : ℤ} (capped : rw.Capped maxBuffer received) {calls : List WriterCall}
    (copies : ∀ call ∈ calls, call.IsCopy) : (rw.serve calls).Capped maxBuffer (received ++ calls.flatMap WriterCall.data) := by
  induction calls generalizing rw received with
  | nil => simpa [RetryableResponseWriter.serve] using capped
  | cons call rest ih =>
    have later := ih (capped.step (copies call (List.mem_cons_self ..))) (fun c member => copies c (List.mem_cons_of_mem _ member))
    rwa [List.append_assoc] at later

theorem writeHeader_headersSent (sent : rw.headersSent = true) (code : ℕ) : (rw.writeHeader code).headersSent = true := by
  simp only [RetryableResponseWriter.writeHeader]
  split
  · exact sent
  · split
    · rfl
    · exact sent

/-- A commit is not taken back. -/
theorem step_headersSent (sent : rw.headersSent = true) (call : WriterCall) : (rw.step call).headersSent = true := by
  cases call with
  | setHeader header => exact sent
  | markFailed => exact sent
  | writeHeader code => exact writeHeader_headersSent sent code
  | flush => simp only [RetryableResponseWriter.step, RetryableResponseWriter.flush, sent, if_true]
  | write data =>
    simp only [RetryableResponseWriter.step, RetryableResponseWriter.write]
    have still : (if rw.wroteHeader then rw else rw.writeHeader statusOK).headersSent = true := by
      split
      · exact sent
      · exact writeHeader_headersSent sent statusOK
    rw [if_pos still]
    exact still

theorem serve_headersSent (sent : rw.headersSent = true) (calls : List WriterCall) : (rw.serve calls).headersSent = true := by
  induction calls generalizing rw with
  | nil => exact sent
  | cons call rest ih => exact ih (step_headersSent sent call)

theorem Fronts.status (fronts : rw.Fronts) (sent : rw.headersSent = true) :
    rw.underlying.client.status = if isInterim rw.statusCode then statusOK else rw.statusCode := by
  obtain ⟨rest, calls, bytes⟩ := fronts.sent sent
  rw [ResponseWriter.status, calls]
  exact finalStatus_front bytes

theorem Fronts.appendTiming (fronts : rw.Fronts) (sent : rw.headersSent = true) (isStreaming : Bool) (firstByte : String) :
    (appendTiming isStreaming firstByte rw).Fronts := by
  unfold OpenTela.appendTiming
  split
  · refine ⟨fronts.wrote, fronts.named, fun unsent => Bool.noConfusion (sent.symm.trans unsent), fun _ => ?_⟩
    obtain ⟨rest, calls, bytes⟩ := fronts.sent sent
    refine ⟨rest ++ [.write (timingComment firstByte), .flush], ?_, ?_⟩
    · simp [ResponseWriter.call, calls]
    · intro call member code
      rcases List.mem_append.mp member with before | new
      · exact bytes call before code
      · rcases List.mem_pair.mp new with rfl | rfl <;> exact ClientCall.noConfusion
  · exact fronts

/-- The first status opens the response. -/
theorem writeHeader_fronts (rw : RetryableResponseWriter) {code : ℕ} (named : code ≠ 0) (fresh : rw.wroteHeader = false) (unsent : rw.headersSent = false)
    (silent : rw.underlying.client.calls = []) :
    (rw.writeHeader code).Fronts ∧ (rw.writeHeader code).statusCode = code := by
  simp only [RetryableResponseWriter.writeHeader, fresh, Bool.false_eq_true, if_false]
  split
  · refine ⟨⟨rfl, named, fun unsent => Bool.noConfusion unsent, fun _ => ⟨[], ?_, fun _ none => absurd none List.not_mem_nil⟩⟩, rfl⟩
    simp [commitHeaders, FirstByteMarker.call, ResponseWriter.call, silent, named]
  · exact ⟨⟨rfl, named, fun _ => silent, fun sent => Bool.noConfusion (unsent.symm.trans sent)⟩, rfl⟩

/-- On the first status, the writer commits or begins to buffer. -/
theorem writeHeader_opens (rw : RetryableResponseWriter) (code : ℕ) (fresh : rw.wroteHeader = false)
    (unsent : rw.headersSent = false) (empty : rw.body = []) :
    if (rw.streaming || isStreamingResponse rw.header) = true ∧ 200 ≤ code ∧ code < 300 then
      (rw.writeHeader code).headersSent = true
    else (rw.writeHeader code).Capped rw.maxBufferSize [] := by
  simp only [RetryableResponseWriter.writeHeader, fresh, Bool.false_eq_true, if_false]
  split
  · rfl
  · exact ⟨rfl, rfl, fun _ => ⟨empty, Or.inl rfl⟩, fun sent => Bool.noConfusion (unsent.symm.trans sent)⟩

end RetryableResponseWriter

section Responses

open RetryableResponseWriter

variable {isStreaming : Bool} {maxBuffer : ℤ} {header : Header} {r : WorkerResponse}

/-- Whatever the worker's response, its first status is the one that counts. -/
theorem response_fronts :
    ((newRetryableResponseWriter { header } isStreaming maxBuffer).serve r.calls).Fronts ∧
    ((newRetryableResponseWriter { header } isStreaming maxBuffer).serve r.calls).statusCode = r.firstCode := by
  have opens : ∀ (header' : Header) (code : ℕ) (rest : List WriterCall), code ≠ 0 →
      ((newRetryableResponseWriter { header } isStreaming maxBuffer).serve (.setHeader header' :: .writeHeader code :: rest)).Fronts ∧
      ((newRetryableResponseWriter { header } isStreaming maxBuffer).serve
        (.setHeader header' :: .writeHeader code :: rest)).statusCode = code := by
    intro header' code rest named
    obtain ⟨opened, latched⟩ :=
      writeHeader_fronts { newRetryableResponseWriter { header } isStreaming maxBuffer with header := header' } named rfl rfl rfl
    obtain ⟨fronts, same⟩ := opened.serve rest
    exact ⟨fronts, same.trans latched⟩
  unfold WorkerResponse.calls WorkerResponse.firstCode
  cases interims : r.interim with
  | nil => exact opens r.header r.code r.body (by have := r.final; omega)
  | cons i rest =>
    have informational := r.informational i (by rw [interims]; exact List.mem_cons_self ..)
    exact opens i.2 i.1 _ (by have := informational.1; omega)

/-- The status the client gets is the first one, or 200 if that is an interim one. -/
theorem settled_status {a : Attempt} (fronts : a.writer.Fronts) :
    (a.settled isStreaming).status = if isInterim a.writer.statusCode then statusOK else a.writer.statusCode := by
  unfold Attempt.settled
  dsimp only
  cases sent : a.writer.headersSent with
  | true =>
    have timed := fronts.appendTiming sent isStreaming a.exchange.firstByte
    have sent' : (appendTiming isStreaming a.exchange.firstByte a.writer).headersSent = true :=
      (appendTiming_headersSent a.exchange.firstByte a.writer).trans sent
    have same : (appendTiming isStreaming a.exchange.firstByte a.writer).statusCode = a.writer.statusCode := by
      unfold appendTiming
      split <;> rfl
    rw [if_pos sent', timed.status sent', same]
  | false =>
    rw [appendTiming_unsent _ sent, sent, if_neg Bool.false_ne_true]
    have committed : a.writer.commitHeaders.Fronts := fronts.commit sent a.writer.bufferExceeded
    have flushed := committed.passBody rfl
    have same : a.writer.commitHeaders.passBody.statusCode = a.writer.statusCode := by
      unfold RetryableResponseWriter.passBody
      split <;> rfl
    exact (flushed.status (passBody_headersSent.trans rfl)).trans (by rw [same])

/-- A response without interim ones commits if it is streamed and successful, or larger than the buffer. -/
theorem plain_headersSent (plain : r.interim = []) (some : r.bytes ≠ []) :
    ((newRetryableResponseWriter { header } isStreaming maxBuffer).serve r.calls).headersSent = true ↔
      (isStreaming = true ∨ isStreamingResponse r.header = true) ∧ r.code < 300 ∨ maxBuffer < r.bytes.length := by
  have served : (newRetryableResponseWriter { header } isStreaming maxBuffer).serve r.calls =
      ({ newRetryableResponseWriter { header } isStreaming maxBuffer with header := r.header }.writeHeader r.code).serve r.body := by
    simp only [WorkerResponse.calls, plain]
    rfl
  have opens := writeHeader_opens { newRetryableResponseWriter { header } isStreaming maxBuffer with header := r.header }
    r.code rfl rfl rfl
  rw [served]
  split at opens
  · rename_i commits
    refine iff_of_true (serve_headersSent opens r.body) (Or.inl ⟨?_, commits.2.2⟩)
    exact (Bool.or_eq_true _ _).mp commits.1
  · rename_i buffers
    have capped := opens.serve r.copies
    have small : ¬ ((isStreaming = true ∨ isStreamingResponse r.header = true) ∧ r.code < 300) := fun commits =>
      buffers ⟨(Bool.or_eq_true _ _).mpr commits.1, r.final, commits.2⟩
    rw [or_iff_right small]
    constructor
    · exact fun sent => capped.sent sent
    · intro exceeded
      by_contra unsent
      rcases (capped.unsent (Bool.eq_false_iff.mpr unsent)).2 with none | fits
      · exact some none
      · exact absurd exceeded (not_lt.mpr fits)

theorem timingComment_ne_nil (firstByte : String) : timingComment firstByte ≠ [] := by
  intro empty
  have size : (": otela-head-first-byte=" ++ firstByte ++ "\n\n").utf8ByteSize = 0 := by
    rw [← String.size_toByteArray]
    exact congrArg List.length empty
  rw [String.utf8ByteSize_append, String.utf8ByteSize_append] at size
  have colon : 0 < ": otela-head-first-byte=".utf8ByteSize := by decide
  omega

/-- What reaches the client besides the worker's bytes. -/
theorem settled_body {a : Attempt} {firstByte : String}
    (writer : a.writer = (newRetryableResponseWriter { header } isStreaming maxBuffer).serve (r.exchange firstByte).calls)
    (exchange : a.exchange = r.exchange firstByte) :
    (a.settled isStreaming).body =
      r.bytes ++ if isStreaming && a.writer.headersSent && !r.bytes.isEmpty then timingComment firstByte else [] := by
  have received : r.calls.flatMap WriterCall.data = r.bytes := by
    simp [WorkerResponse.calls, WorkerResponse.bytes, List.flatMap_append, List.flatMap_cons, WriterCall.data, List.flatMap_assoc]
  obtain ⟨dispatch, used, served⟩ := a
  dsimp only at writer exchange ⊢
  subst writer exchange
  have delivered := @writerAt_delivered isStreaming maxBuffer (fun _ => r.exchange firstByte) { header } 0 dispatch rfl
  refine Eq.trans delivered ?_
  simp only [Attempt.delivered, Attempt.received, WorkerResponse.exchange, received, Bool.false_eq_true, if_false]
  rfl

/-- Whatever status the worker ends with after interim ones, the client gets 200. -/
theorem settled_status_interim {a : Attempt} (fronts : a.writer.Fronts) (latched : a.writer.statusCode = r.firstCode)
    (interims : r.interim ≠ []) : (a.settled isStreaming).status = statusOK := by
  have informational : isInterim r.firstCode := by
    unfold WorkerResponse.firstCode
    cases some : r.interim with
    | nil => exact absurd some interims
    | cons i rest => exact r.informational i (by rw [some]; exact List.mem_cons_self ..)
  rw [settled_status fronts, latched, if_pos informational]

variable {env : Surroundings} {scope : RoutingScope} {requestPath : String} {send : Target → Request} {json : JsonParser}
  {upstream : ℕ → Exchange} {candidates : List String} {client : ResponseWriter}

/-- An attempt that is not retried settles what the client gets. -/
theorem serveAttempts_settled {rounds n : ℕ} {excluded : List String} {a : Attempt}
    (member : a ∈ (globalServiceForward.serveAttempts env scope requestPath send json isStreaming maxBuffer upstream candidates rounds
      n excluded client).attempts) (completes : a.exchange.panics = false) (delivered : a.retried = false) :
    a.writer = (newRetryableResponseWriter client isStreaming maxBuffer).serve a.exchange.calls ∧
      (globalServiceForward.serveAttempts env scope requestPath send json isStreaming maxBuffer upstream candidates rounds
        n excluded client).client = a.settled isStreaming := by
  induction rounds generalizing n excluded with
  | zero => cases member
  | succ rounds ih =>
    unfold globalServiceForward.serveAttempts at member ⊢
    split at member
    · cases member
    · dsimp only at member ⊢
      split at member
      · exact ih member
      · split at member
        · rename_i panics
          obtain rfl := List.mem_singleton.mp member
          cases completes.symm.trans panics
        · rename_i goes
          rw [if_neg goes]
          split at member
          · rename_i retried
            rw [if_pos retried]
            rcases List.mem_cons.mp member with rfl | later
            · rw [appendTiming_isRetryable] at retried
              simp only [Attempt.retried, retried, Bool.and_true, Bool.not_eq_false'] at delivered
              exact absurd delivered goes
            · have untouched := appendTiming_untouched _ retried
              rw [untouched] at later
              simp only [Transcript.after, untouched]
              exact ih later
          · rename_i settled
            rw [if_neg settled]
            obtain rfl := List.mem_singleton.mp member
            exact ⟨rfl, rfl⟩

end Responses

/-- An answer without interim responses reaches the client as it is, unless a comment is put behind a body that is not of
server-sent events; and with interim ones the writer goes by the first of them. -/
theorem response_fidelity (env : Surroundings) (scope : RoutingScope) (requestPath : String) (send : Target → Request)
    (json : JsonParser) (isStreaming : Bool) (maxBuffer maxRetries : ℤ) (upstream : ℕ → Exchange) (candidates : List String)
    (header : Header) (r : WorkerResponse) (firstByte : String) (a : Attempt)
    (member : a ∈ (globalServiceForward.serveAttempts env scope requestPath send json isStreaming maxBuffer upstream candidates
      (maxRetries + 1).toNat 0 [] { header }).attempts)
    (delivered : a.retried = false) (exchange : a.exchange = r.exchange firstByte) :
    Faithful r a (globalServiceForward.serveAttempts env scope requestPath send json isStreaming maxBuffer upstream candidates
        (maxRetries + 1).toNat 0 [] { header }).client ↔
      r.interim = [] ∧ ¬ (isStreaming = true ∧ isStreamingResponse r.header = false ∧ r.bytes ≠ [] ∧
        (r.code < 300 ∨ maxBuffer < r.bytes.length)) := by
  have completes : a.exchange.panics = false := congrArg Exchange.panics exchange
  obtain ⟨writer, client⟩ := serveAttempts_settled member completes delivered
  rw [client]
  rw [exchange] at writer
  obtain ⟨fronts, latched⟩ : a.writer.Fronts ∧ a.writer.statusCode = r.firstCode := by
    rw [writer]
    exact response_fronts
  have body := settled_body writer exchange
  cases interims : r.interim with
  | cons i rest =>
    -- the writer has latched the status of the first interim response
    have informational := r.informational i (by rw [interims]; exact List.mem_cons_self ..)
    have first : r.firstCode = i.1 := by simp [WorkerResponse.firstCode, interims]
    refine iff_of_false (fun faithful => ?_) (fun none => (nomatch none.1))
    have same : i.1 = r.code := first.symm.trans (latched.symm.trans faithful.decision)
    have final := r.final
    have below := informational.2.1
    omega
  | nil =>
    have first : r.firstCode = r.code := by simp [WorkerResponse.firstCode, interims]
    have final := r.final
    have named : ¬ isInterim r.code := fun informational => by
      have below := informational.2.1
      omega
    have status : (a.settled isStreaming).status = r.code := by
      rw [settled_status fronts, latched, first, if_neg named]
    have commits : r.bytes ≠ [] → (a.writer.headersSent = true ↔
        (isStreaming = true ∨ isStreamingResponse r.header = true) ∧ r.code < 300 ∨ maxBuffer < r.bytes.length) := by
      rw [writer]
      exact plain_headersSent interims
    constructor
    · rintro ⟨_, _, same⟩
      refine ⟨rfl, fun ⟨streams, plain, nonempty, large⟩ => ?_⟩
      have sent : a.writer.headersSent = true := (commits nonempty).mpr (large.imp_left (fun ok => ⟨Or.inl streams, ok⟩))
      have some : r.bytes.isEmpty = false := by simpa using nonempty
      have appended := body.symm.trans (same plain)
      rw [streams, sent, some] at appended
      exact timingComment_ne_nil firstByte (List.append_right_eq_self.mp appended)
    · rintro ⟨_, silent⟩
      refine ⟨status, latched.trans first, fun plain => ?_⟩
      rw [body, if_neg, List.append_nil]
      intro comment
      simp only [Bool.and_eq_true, Bool.not_eq_true', List.isEmpty_eq_false_iff] at comment
      obtain ⟨⟨streams, sent⟩, nonempty⟩ := comment
      exact silent ⟨streams, plain, nonempty, ((commits nonempty).mp sent).imp_left (fun ok => ok.2)⟩

namespace Altered

def env : Surroundings := { network := fun _ => { connected := fun _ => true } }

def scope : RoutingScope := { partition := .permissionless, region := "", routeKind := .serviceIngress, service := "llm" }

def json : JsonParser := { has := fun _ _ => false, getString := fun _ _ => none, marshal := fun _ value => value }

/-- A response of the type, with an empty JSON object for its body. -/
def response (interim : List (ℕ × Header)) (code : ℕ) (contentType : String) (informational : ∀ i ∈ interim, isInterim i.1)
    (final : 200 ≤ code) : WorkerResponse where
  interim := interim
  code := code
  header := Header.empty.set "Content-Type" contentType
  body := [.write [123, 125]]
  informational := informational
  final := final
  copies := by simp [WriterCall.IsCopy]

/-- The attempt at the only candidate. -/
def attempt (isStreaming : Bool) (r : WorkerResponse) : Attempt where
  dispatch := { peer := "worker", target := { scheme := "libp2p", host := "worker", path := "/v1/models" }, request := {} }
  exchange := r.exchange "1.000"
  writer := (newRetryableResponseWriter {} isStreaming 1048576).serve r.calls

/-- The forward of a request to it. -/
def transcript (isStreaming : Bool) (r : WorkerResponse) : Transcript :=
  globalServiceForward.serveAttempts env scope "/v1/models" (fun _ => {}) json isStreaming 1048576 (fun _ => r.exchange "1.000")
    ["worker"] ((0 : ℤ) + 1).toNat 0 [] {}

def notFound : WorkerResponse := response [(103, Header.empty)] 404 "application/json" (by decide) (by decide)

def ok : WorkerResponse := response [] 200 "application/json" (by decide) (by decide)

def events : WorkerResponse := response [] 200 "text/event-stream" (by decide) (by decide)

end Altered

open Altered in
/-- A body of server-sent events may have a comment put behind it. -/
theorem response_fidelity_events : attempt true events ∈ (transcript true events).attempts ∧
    Faithful events (attempt true events) (transcript true events).client := by
  have member : attempt true events ∈ (transcript true events).attempts := List.mem_singleton.mpr rfl
  refine ⟨member, (response_fidelity env scope "/v1/models" (fun _ => {}) json true 1048576 0 _ ["worker"] Header.empty events "1.000"
    (attempt true events) member (by decide +kernel) rfl).mpr ⟨rfl, fun appended => ?_⟩⟩
  exact absurd appended.2.1 (by decide +kernel)

open Altered in
/-- After an early hint, a 404 comes back as 200 and is taken for 103; and an answer that is no stream, to a
request that asked for one, gets a comment. -/
theorem response_unfaithful :
    (attempt false notFound ∈ (transcript false notFound).attempts ∧ (attempt false notFound).retried = false ∧
      (transcript false notFound).client.status = 200 ∧ (attempt false notFound).writer.statusCode = 103 ∧
      ¬ Faithful notFound (attempt false notFound) (transcript false notFound).client) ∧
    attempt true ok ∈ (transcript true ok).attempts ∧ (attempt true ok).retried = false ∧
      isStreamingResponse ok.header = false ∧ ¬ Faithful ok (attempt true ok) (transcript true ok).client := by
  refine ⟨⟨List.mem_singleton.mpr rfl, by decide +kernel, by decide +kernel, by decide +kernel, fun faithful => ?_⟩,
    List.mem_singleton.mpr rfl, by decide +kernel, by decide +kernel, fun faithful => ?_⟩
  · exact absurd faithful.decision (by decide +kernel)
  · exact absurd (faithful.body (by decide +kernel)) (by decide +kernel)

end OpenTela
