import OpenTela.Server.Forwarding
import Mathlib.Data.List.Infix

namespace OpenTela

/-- A call on the writer of a client. -/
inductive ClientCall where
  | writeHeader (code : ℕ)
  | write (data : List UInt8)
  | flush
  deriving DecidableEq

def ClientCall.data : ClientCall → List UInt8
  | .write data => data
  | _ => []

/-- `c.Writer`, with the calls made on it. It takes what is written, and can be flushed. -/
structure ResponseWriter where
  header : Header := Header.empty
  calls : List ClientCall := []

def ResponseWriter.call (w : ResponseWriter) (c : ClientCall) : ResponseWriter := { w with calls := w.calls ++ [c] }

def ResponseWriter.body (w : ResponseWriter) : List UInt8 := w.calls.flatMap ClientCall.data

@[simp] theorem ResponseWriter.body_call (w : ResponseWriter) (c : ClientCall) : (w.call c).body = w.body ++ c.data := by
  simp [call, body]

/-- `firstByteMarker` fires at the first write that is not empty. -/
structure FirstByteMarker where
  client : ResponseWriter
  fired : Bool := false

def FirstByteMarker.call (m : FirstByteMarker) (c : ClientCall) : FirstByteMarker :=
  { client := m.client.call c, fired := m.fired || !c.data.isEmpty }

/-- `retryableResponseWriter`. -/
structure RetryableResponseWriter where
  underlying : FirstByteMarker
  streaming : Bool
  maxBufferSize : ℤ
  statusCode : ℕ := 0
  header : Header := Header.empty
  body : List UInt8 := []
  headersSent : Bool := false
  failed : Bool := false
  wroteHeader : Bool := false
  bufferExceeded : Bool := false

def isStreamingResponse (h : Header) : Bool := decide ("text/event-stream".toList <:+: (h.get "Content-Type").toList)

namespace RetryableResponseWriter

variable (rw : RetryableResponseWriter)

def markFailed : RetryableResponseWriter := { rw with failed := true }

def isRetryable : Bool := !rw.headersSent && rw.failed

/-- The headers of the client under the names that `header` has none of stay. -/
def commitHeaders : RetryableResponseWriter :=
  let client := rw.underlying.client
  let dst : Header := fun name => if rw.header name = [] then client.header name else rw.header name
  let code := if rw.statusCode = 0 then statusOK else rw.statusCode
  { rw with
    underlying := { rw.underlying with client := { client with header := dst } }.call (.writeHeader code)
    headersSent := true }

def writeHeader (code : ℕ) : RetryableResponseWriter :=
  if rw.wroteHeader then rw
  else
    let streaming := rw.streaming || isStreamingResponse rw.header
    let written := { rw with wroteHeader := true, statusCode := code, streaming }
    if streaming = true ∧ 200 ≤ code ∧ code < 300 then written.commitHeaders else written

/-- A write on the underlying writer. -/
def pass (data : List UInt8) : RetryableResponseWriter := { rw with underlying := rw.underlying.call (.write data) }

def passBody : RetryableResponseWriter := if rw.body = [] then rw else rw.pass rw.body

def write (data : List UInt8) : RetryableResponseWriter :=
  let rw := if rw.wroteHeader then rw else rw.writeHeader statusOK
  if rw.headersSent then rw.pass data
  else if rw.maxBufferSize < (rw.body.length + data.length : ℕ) then
    ({ rw.commitHeaders with bufferExceeded := true }.passBody).pass data
  else { rw with body := rw.body ++ data }

def flush : RetryableResponseWriter := if rw.headersSent then { rw with underlying := rw.underlying.call .flush } else rw

def flushToClient : RetryableResponseWriter := rw.commitHeaders.passBody

end RetryableResponseWriter

def newRetryableResponseWriter (client : ResponseWriter) (streaming : Bool) (maxBuffer : ℤ) : RetryableResponseWriter :=
  { underlying := { client }, streaming, maxBufferSize := maxBuffer }

/-- What `httputil.ReverseProxy` does with the writer it is given. `Header` gives it the map itself, which it
changes at will; the error handler only marks the writer. -/
inductive WriterCall where
  | setHeader (header : Header)
  | writeHeader (code : ℕ)
  | write (data : List UInt8)
  | flush
  | markFailed

def WriterCall.data : WriterCall → List UInt8
  | .write data => data
  | _ => []

def RetryableResponseWriter.step (rw : RetryableResponseWriter) : WriterCall → RetryableResponseWriter
  | .setHeader header => { rw with header }
  | .writeHeader code => rw.writeHeader code
  | .write data => rw.write data
  | .flush => rw.flush
  | .markFailed => rw.markFailed

def RetryableResponseWriter.serve (rw : RetryableResponseWriter) (calls : List WriterCall) : RetryableResponseWriter :=
  calls.foldl step rw

/-- What the writer made for `client` has done with the bytes received: it has them all, or they have all gone on.
Before the status is written there are none, so that a commit on the status leaves none behind. -/
structure RetryableResponseWriter.Keeps (client : ResponseWriter) (received : List UInt8) (rw : RetryableResponseWriter) : Prop where
  fresh : rw.wroteHeader = false → rw.headersSent = false ∧ received = []
  buffered : rw.headersSent = false → rw.underlying = { client } ∧ rw.body = received
  committed : rw.headersSent = true →
    rw.underlying.client.body = client.body ++ received ∧ rw.underlying.fired = !received.isEmpty

namespace RetryableResponseWriter

variable {rw : RetryableResponseWriter} {client : ResponseWriter} {received : List UInt8}

theorem commitHeaders_body : rw.commitHeaders.underlying.client.body = rw.underlying.client.body := by
  simp [commitHeaders, FirstByteMarker.call, ClientCall.data, ResponseWriter.body, ResponseWriter.call]

theorem commitHeaders_fired : rw.commitHeaders.underlying.fired = rw.underlying.fired := by
  simp [commitHeaders, FirstByteMarker.call, ClientCall.data]

theorem passBody_body : rw.passBody.underlying.client.body = rw.underlying.client.body ++ rw.body := by
  unfold passBody
  split
  · rename_i empty
    rw [empty, List.append_nil]
  · simp [pass, FirstByteMarker.call, ClientCall.data]

theorem passBody_fired : rw.passBody.underlying.fired = (rw.underlying.fired || !rw.body.isEmpty) := by
  unfold passBody
  split
  · rename_i empty
    simp [empty]
  · rfl

theorem passBody_headersSent : rw.passBody.headersSent = rw.headersSent := by
  unfold passBody
  split <;> rfl

theorem passBody_wroteHeader : rw.passBody.wroteHeader = rw.wroteHeader := by
  unfold passBody
  split <;> rfl

theorem new_keeps (streaming : Bool) (maxBuffer : ℤ) : (newRetryableResponseWriter client streaming maxBuffer).Keeps client [] where
  fresh := fun _ => ⟨rfl, rfl⟩
  buffered := fun _ => ⟨rfl, rfl⟩
  committed := fun sent => nomatch sent

theorem Keeps.wroteHeader (keeps : rw.Keeps client received) (sent : rw.headersSent = true) : rw.wroteHeader = true := by
  cases wrote : rw.wroteHeader with
  | true => rfl
  | false => cases sent.symm.trans (keeps.fresh wrote).1

theorem Keeps.pass (keeps : rw.Keeps client received) (sent : rw.headersSent = true) (data : List UInt8) :
    (rw.pass data).Keeps client (received ++ data) := by
  obtain ⟨body, fired⟩ := keeps.committed sent
  refine ⟨fun fresh => ?_, fun unsent => ?_, fun _ => ⟨?_, ?_⟩⟩
  · cases fresh.symm.trans (keeps.wroteHeader sent)
  · cases sent.symm.trans unsent
  · simp [RetryableResponseWriter.pass, FirstByteMarker.call, ClientCall.data, body]
  · simp only [RetryableResponseWriter.pass, FirstByteMarker.call, ClientCall.data, fired]
    cases received <;> cases data <;> rfl

theorem Keeps.writeHeader (keeps : rw.Keeps client received) (code : ℕ) : (rw.writeHeader code).Keeps client received := by
  unfold RetryableResponseWriter.writeHeader
  split
  · exact keeps
  · rename_i unwritten
    obtain ⟨unsent, rfl⟩ := keeps.fresh (Bool.eq_false_iff.mpr unwritten)
    obtain ⟨same, empty⟩ := keeps.buffered unsent
    dsimp only
    split
    · refine ⟨fun fresh => (nomatch fresh), fun unsent => (nomatch unsent), fun _ => ⟨?_, ?_⟩⟩
      · rw [commitHeaders_body, same, List.append_nil]
      · rw [commitHeaders_fired, same]
        rfl
    · exact ⟨fun fresh => (nomatch fresh), fun _ => ⟨same, empty⟩, fun sent => (nomatch sent.symm.trans unsent)⟩

theorem writeHeader_wroteHeader (code : ℕ) : (rw.writeHeader code).wroteHeader = true := by
  unfold RetryableResponseWriter.writeHeader
  split
  · assumption
  · dsimp only
    split <;> rfl

/-- A commit in the middle of buffering takes along what is buffered. -/
theorem Keeps.commit (keeps : rw.Keeps client received) (unsent : rw.headersSent = false) (wrote : rw.wroteHeader = true)
    (exceeded : Bool) : ({ rw.commitHeaders with bufferExceeded := exceeded }.passBody).Keeps client received := by
  obtain ⟨same, body⟩ := keeps.buffered unsent
  refine ⟨fun fresh => ?_, fun unsent => ?_, fun _ => ⟨?_, ?_⟩⟩
  · rw [passBody_wroteHeader] at fresh
    cases fresh.symm.trans wrote
  · rw [passBody_headersSent] at unsent
    cases unsent
  · rw [passBody_body]
    change rw.commitHeaders.underlying.client.body ++ rw.body = _
    rw [commitHeaders_body, same, body]
  · rw [passBody_fired]
    change (rw.commitHeaders.underlying.fired || !rw.body.isEmpty) = _
    rw [commitHeaders_fired, same, body, Bool.false_or]

theorem Keeps.buffer (keeps : rw.Keeps client received) (unsent : rw.headersSent = false) (wrote : rw.wroteHeader = true)
    (data : List UInt8) : ({ rw with body := rw.body ++ data }).Keeps client (received ++ data) := by
  obtain ⟨same, body⟩ := keeps.buffered unsent
  refine ⟨fun fresh => (nomatch fresh.symm.trans wrote), fun _ => ⟨same, ?_⟩, fun sent => (nomatch sent.symm.trans unsent)⟩
  change rw.body ++ data = received ++ data
  rw [body]

theorem Keeps.write (keeps : rw.Keeps client received) (data : List UInt8) : (rw.write data).Keeps client (received ++ data) := by
  unfold RetryableResponseWriter.write
  have kept : (if rw.wroteHeader then rw else rw.writeHeader statusOK).Keeps client received := by
    split
    · exact keeps
    · exact keeps.writeHeader statusOK
  have wrote : (if rw.wroteHeader then rw else rw.writeHeader statusOK).wroteHeader = true := by
    split
    · assumption
    · exact writeHeader_wroteHeader statusOK
  revert kept wrote
  generalize (if rw.wroteHeader then rw else rw.writeHeader statusOK) = written
  intro kept wrote
  dsimp only
  split
  · exact kept.pass ‹_› data
  · have unsent : written.headersSent = false := Bool.eq_false_iff.mpr ‹_›
    split
    · refine (kept.commit unsent wrote true).pass ?_ data
      rw [passBody_headersSent]
      rfl
    · exact kept.buffer unsent wrote data

theorem Keeps.flush (keeps : rw.Keeps client received) : rw.flush.Keeps client received := by
  unfold RetryableResponseWriter.flush
  split
  · rename_i sent
    obtain ⟨body, fired⟩ := keeps.committed sent
    refine ⟨fun fresh => (nomatch fresh.symm.trans (keeps.wroteHeader sent)), fun unsent => (nomatch sent.symm.trans unsent),
      fun _ => ⟨?_, ?_⟩⟩
    · simp [FirstByteMarker.call, ClientCall.data, body]
    · simp [FirstByteMarker.call, ClientCall.data, fired]
  · exact keeps

theorem Keeps.step (keeps : rw.Keeps client received) (call : WriterCall) : (rw.step call).Keeps client (received ++ call.data) := by
  cases call with
  | write data => exact keeps.write data
  | setHeader header =>
    simp only [WriterCall.data, List.append_nil]
    exact ⟨keeps.fresh, keeps.buffered, keeps.committed⟩
  | writeHeader code =>
    simp only [WriterCall.data, List.append_nil]
    exact keeps.writeHeader code
  | flush =>
    simp only [WriterCall.data, List.append_nil]
    exact keeps.flush
  | markFailed =>
    simp only [WriterCall.data, List.append_nil]
    exact ⟨keeps.fresh, keeps.buffered, keeps.committed⟩

theorem Keeps.serve (keeps : rw.Keeps client received) (calls : List WriterCall) :
    (rw.serve calls).Keeps client (received ++ calls.flatMap WriterCall.data) := by
  induction calls generalizing rw received with
  | nil => simpa [RetryableResponseWriter.serve] using keeps
  | cons call rest ih =>
    have later := ih (keeps.step call)
    rwa [List.append_assoc] at later

/-- An attempt that may be retried has not touched the writer of the client. -/
theorem Keeps.untouched (keeps : rw.Keeps client received) (retryable : rw.isRetryable = true) : rw.underlying.client = client := by
  have unsent : rw.headersSent = false := by
    simp only [isRetryable, Bool.and_eq_true, Bool.not_eq_true'] at retryable
    exact retryable.1
  rw [(keeps.buffered unsent).1]

theorem Keeps.flushToClient (keeps : rw.Keeps client received) (unsent : rw.headersSent = false) :
    rw.flushToClient.underlying.client.body = client.body ++ received := by
  obtain ⟨same, body⟩ := keeps.buffered unsent
  unfold RetryableResponseWriter.flushToClient
  rw [passBody_body, commitHeaders_body, same]
  change client.body ++ rw.body = _
  rw [body]

end RetryableResponseWriter

end OpenTela
