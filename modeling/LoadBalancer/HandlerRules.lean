import LoadBalancer.Connection

/-! What each operation of the handlers changes, and the induction rule for the mutual recursion of
`_initiate_backend_connect` and `_fail_backend`. Every invariant of the handlers is proved from these. -/

namespace LoadBalancer

open Outcome

/-! ### Operations -/

/-- The start of an attempt, before its socket is created. -/
def beginConnect (cfg : Config) (f : Frame) : Frame :=
  refreshDeadline cfg (f.setState .connectingToBackend)

/-- What `handle_client_readable` stores of a complete request. -/
def storeRequest (req : HttpRequest) (f : Frame) : Frame :=
  f.update fun c =>
    { c with
      parsedRequest := some (injectForwardedFor req c.clientAddr.1)
      forwardBuf := serialiseRequest (injectForwardedFor req c.clientAddr.1)
      forwardOffset := 0 }

/-- What it records of the first backend picked. -/
def assignFirst (backend : Backend) (f : Frame) : Frame :=
  f.update fun c =>
    { c with
      backendAddr := some backend
      backendAttempts := 1
      disconnectNotified := false }

section Operations

variable (cfg : Config) (f : Frame)

@[simp] theorem update_conn (change : ProxyConnection → ProxyConnection) :
    (f.update change).conn = change f.conn := rfl

@[simp] theorem update_trace (change : ProxyConnection → ProxyConnection) :
    (f.update change).trace = f.trace := rfl

@[simp] theorem update_router (change : ProxyConnection → ProxyConnection) :
    (f.update change).router = f.router := rfl

@[simp] theorem update_os (change : ProxyConnection → ProxyConnection) :
    (f.update change).os = f.os := rfl

@[simp] theorem update_io (change : ProxyConnection → ProxyConnection) :
    (f.update change).io = f.io := rfl

@[simp] theorem setState_conn (s : State) : (f.setState s).conn = { f.conn with state := s } := rfl

@[simp] theorem setState_trace (s : State) : (f.setState s).trace = f.trace := rfl

@[simp] theorem log_conn (a : Action) : (f.log a).conn = f.conn := rfl

@[simp] theorem log_trace (a : Action) : (f.log a).trace = f.trace ++ [a] := rfl

@[simp] theorem readClock_conn : f.readClock.conn = f.conn := rfl

@[simp] theorem awaitLock_conn : f.awaitLock.conn = f.conn := rfl

@[simp] theorem nextBackend_conn (exclude : Option (Finset Backend)) :
    (f.nextBackend exclude).2.conn = f.conn := rfl

@[simp] theorem releaseSlot_conn :
    f.releaseSlot.conn =
      { f.conn with
        disconnectNotified := f.conn.disconnectNotified || f.conn.backendAddr.isSome } := by
  unfold Frame.releaseSlot
  split
  · next h =>
    have hsame : (f.conn.disconnectNotified || f.conn.backendAddr.isSome) =
        f.conn.disconnectNotified := by simp [h]
    rw [hsame]
  · next h =>
    have hset : (f.conn.disconnectNotified || f.conn.backendAddr.isSome) = true := by simp [h]
    rw [hset]
    split
    · next hn => rw [← hn]
    · rfl

@[simp] theorem openBackendSock_conn (backend : Backend) (fd : Nat) :
    (openBackendSock backend fd f).conn =
      { f.conn with backendSock := some (f.os.newSock fd) } := rfl

@[simp] theorem closeBackend_conn :
    (closeBackend f).conn =
      { f.conn with
        pendingBackendUnregister := f.conn.backendSock.or f.conn.pendingBackendUnregister
        backendSock := none } := by
  unfold closeBackend
  split
  · next h =>
    have hsame : f.conn.backendSock.or f.conn.pendingBackendUnregister =
        f.conn.pendingBackendUnregister := by simp [h]
    rw [hsame, ← h]
  · next h => simp [h]

@[simp] theorem noteTried_conn :
    (noteTried f).conn =
      { f.conn with
        triedBackends := f.conn.backendAddr.elim f.conn.triedBackends (insert · f.conn.triedBackends) } := by
  unfold noteTried
  split
  · next h =>
    have hsame : f.conn.backendAddr.elim f.conn.triedBackends (insert · f.conn.triedBackends) =
        f.conn.triedBackends := by simp [h]
    rw [hsame]
  · next h => simp [h]

@[simp] theorem logAccess_conn : (logAccess f).conn = f.conn := by
  unfold logAccess
  split <;> rfl

@[simp] theorem finish_conn :
    (finish f).conn =
      { f.conn with
        disconnectNotified := f.conn.disconnectNotified || f.conn.backendAddr.isSome
        state := .done } := by
  simp [finish]

/-- `refresh_deadline` changes the deadline and its generation and nothing else of the connection. -/
theorem refreshDeadline_conn :
    (refreshDeadline cfg f).conn =
      { f.conn with
        deadlineGen := (refreshDeadline cfg f).conn.deadlineGen
        deadline := (refreshDeadline cfg f).conn.deadline } := by
  unfold refreshDeadline
  split <;> rfl

theorem abandonBackend_conn :
    (abandonBackend f).conn =
      { f.conn with
        disconnectNotified := f.conn.disconnectNotified || f.conn.backendAddr.isSome
        pendingBackendUnregister := f.conn.backendSock.or f.conn.pendingBackendUnregister
        backendSock := none
        triedBackends := f.conn.backendAddr.elim f.conn.triedBackends (insert · f.conn.triedBackends) } := by
  simp [abandonBackend]

@[simp] theorem refreshDeadline_trace : (refreshDeadline cfg f).trace = f.trace := by
  unfold refreshDeadline
  split <;> rfl

@[simp] theorem refreshDeadline_router : (refreshDeadline cfg f).router = f.router := by
  unfold refreshDeadline
  split <;> rfl

@[simp] theorem refreshDeadline_os : (refreshDeadline cfg f).os = f.os := by
  unfold refreshDeadline
  split <;> rfl

@[simp] theorem refreshDeadline_connect : (refreshDeadline cfg f).io.connect = f.io.connect := by
  unfold refreshDeadline
  split <;> rfl

@[simp] theorem refreshDeadline_send : (refreshDeadline cfg f).io.send = f.io.send := by
  unfold refreshDeadline
  split <;> rfl

@[simp] theorem refreshDeadline_marks : (refreshDeadline cfg f).io.marks = f.io.marks := by
  unfold refreshDeadline
  split <;> rfl

@[simp] theorem releaseSlot_os : f.releaseSlot.os = f.os := by
  unfold Frame.releaseSlot
  split
  · rfl
  · split <;> rfl

@[simp] theorem releaseSlot_connect : f.releaseSlot.io.connect = f.io.connect := by
  unfold Frame.releaseSlot
  split
  · rfl
  · split <;> rfl

@[simp] theorem refreshDeadline_sendall : (refreshDeadline cfg f).io.sendall = f.io.sendall := by
  unfold refreshDeadline
  split <;> rfl

@[simp] theorem releaseSlot_sendall : f.releaseSlot.io.sendall = f.io.sendall := by
  unfold Frame.releaseSlot
  split
  · rfl
  · split <;> rfl

@[simp] theorem closeBackend_trace : (closeBackend f).trace = f.trace := by
  unfold closeBackend
  split <;> rfl

@[simp] theorem closeBackend_router : (closeBackend f).router = f.router := by
  unfold closeBackend
  split <;> rfl

@[simp] theorem closeBackend_io : (closeBackend f).io = f.io := by
  unfold closeBackend
  split <;> rfl

@[simp] theorem noteTried_trace : (noteTried f).trace = f.trace := by
  unfold noteTried
  split <;> rfl

@[simp] theorem noteTried_router : (noteTried f).router = f.router := by
  unfold noteTried
  split <;> rfl

@[simp] theorem noteTried_os : (noteTried f).os = f.os := by
  unfold noteTried
  split <;> rfl

@[simp] theorem noteTried_io : (noteTried f).io = f.io := by
  unfold noteTried
  split <;> rfl

@[simp] theorem logAccess_router : (logAccess f).router = f.router := by
  unfold logAccess
  split <;> rfl

@[simp] theorem logAccess_os : (logAccess f).os = f.os := by
  unfold logAccess
  split <;> rfl

@[simp] theorem finish_os : (finish f).os = f.os := by
  simp only [finish, Frame.setState, update_os, releaseSlot_os, logAccess_os, Frame.readClock]

@[simp] theorem abandonBackend_connect : (abandonBackend f).io.connect = f.io.connect := by
  simp only [abandonBackend, noteTried_io, closeBackend_io, releaseSlot_connect]

@[simp] theorem abandonBackend_sendall : (abandonBackend f).io.sendall = f.io.sendall := by
  simp only [abandonBackend, noteTried_io, closeBackend_io, releaseSlot_sendall]

@[simp] theorem beginConnect_connect :
    (beginConnect cfg f).io.connect = f.io.connect := refreshDeadline_connect _ _

@[simp] theorem beginConnect_attempts :
    (beginConnect cfg f).conn.backendAttempts = f.conn.backendAttempts :=
  backendAttempts_refreshDeadline _ _

theorem beginConnect_conn :
    (beginConnect cfg f).conn =
      { f.conn with
        state := .connectingToBackend
        deadlineGen := (beginConnect cfg f).conn.deadlineGen
        deadline := (beginConnect cfg f).conn.deadline } :=
  refreshDeadline_conn _ _

/-- Received bytes of a request change the buffer and the deadline. -/
theorem receiveRequest_conn (bytes : Bytes) :
    (receiveRequest cfg bytes f).conn =
      { f.conn with
        requestBuf := f.conn.requestBuf ++ bytes
        deadlineGen := (receiveRequest cfg bytes f).conn.deadlineGen
        deadline := (receiveRequest cfg bytes f).conn.deadline } :=
  refreshDeadline_conn _ _

theorem recordForwarded_conn (accepted : Bytes) :
    (recordForwarded cfg accepted f).conn =
      { f.conn with
        forwardOffset := f.conn.forwardOffset + accepted.length
        deadlineGen := (recordForwarded cfg accepted f).conn.deadlineGen
        deadline := (recordForwarded cfg accepted f).conn.deadline } := by
  unfold recordForwarded
  dsimp only
  split
  · rfl
  · rw [update_conn, refreshDeadline_conn]
    rfl

@[simp] theorem recordForwarded_trace (accepted : Bytes) :
    (recordForwarded cfg accepted f).trace = f.trace ++ [.backendSent accepted] := by
  unfold recordForwarded
  dsimp only
  split
  · rfl
  · rw [update_trace, refreshDeadline_trace]
    rfl

@[simp] theorem recordRelayed_trace (accepted : Bytes) :
    (recordRelayed cfg accepted f).trace = f.trace ++ [.clientSent accepted] := by
  unfold recordRelayed
  dsimp only
  split
  · rfl
  · rw [update_trace, refreshDeadline_trace]
    rfl

theorem recordRelayed_conn (accepted : Bytes) :
    (recordRelayed cfg accepted f).conn =
      { f.conn with
        relayOffset := f.conn.relayOffset + accepted.length
        clientBytesSent := f.conn.clientBytesSent || decide (accepted ≠ [])
        deadlineGen := (recordRelayed cfg accepted f).conn.deadlineGen
        deadline := (recordRelayed cfg accepted f).conn.deadline } := by
  unfold recordRelayed
  dsimp only
  split
  · next h => simp [h]
  · next h =>
    rw [update_conn, refreshDeadline_conn]
    simp [h]

theorem recordStatus_eq (c : ProxyConnection) :
    recordStatus c = { c with responseStatus := (recordStatus c).responseStatus } := by
  unfold recordStatus
  split <;> rfl

theorem recordFraming_eq (c : ProxyConnection) :
    recordFraming c =
      { c with
        responseHeadersDone := (recordFraming c).responseHeadersDone
        responseIsChunked := (recordFraming c).responseIsChunked
        responseContentLength := (recordFraming c).responseContentLength
        responseBodyReceived := (recordFraming c).responseBodyReceived } := by
  unfold recordFraming
  split
  · rfl
  · split <;> rfl

/-- An error response ends the connection, unless sending it raises. -/
theorem sendError_done (code : Nat) (reason : String) :
    (sendError code reason f).Post (fun f' => f'.conn.state = .done) fun _ => True := by
  unfold sendError
  split
  · rfl
  · rfl
  · trivial

theorem prepareRelay_conn :
    (prepareRelay cfg f).conn =
      { f.conn with
        relayBuf := f.conn.responseBuf
        relayOffset := 0
        state := .forwardingResponse
        deadlineGen := (prepareRelay cfg f).conn.deadlineGen
        deadline := (prepareRelay cfg f).conn.deadline } :=
  refreshDeadline_conn _ _

/-- Received bytes change the response fields and the deadline. -/
theorem receiveResponse_conn (bytes : Bytes) :
    (receiveResponse cfg bytes f).conn =
      { f.conn with
        responseBuf := f.conn.responseBuf ++ bytes
        responseStatus := (receiveResponse cfg bytes f).conn.responseStatus
        responseHeadersDone := (receiveResponse cfg bytes f).conn.responseHeadersDone
        responseIsChunked := (receiveResponse cfg bytes f).conn.responseIsChunked
        responseContentLength := (receiveResponse cfg bytes f).conn.responseContentLength
        responseBodyReceived := (receiveResponse cfg bytes f).conn.responseBodyReceived
        deadlineGen := (receiveResponse cfg bytes f).conn.deadlineGen
        deadline := (receiveResponse cfg bytes f).conn.deadline } := by
  unfold receiveResponse
  rw [update_conn, refreshDeadline_conn, recordFraming_eq, recordStatus_eq]
  rfl

/-- The check for a complete response keeps the connection as it is, except for a counter, or relays a
prefix of what has been received. -/
theorem checkComplete_post {ret exc : Frame → Prop}
    (stay : ∀ received, ret (f.update fun c => { c with responseBodyReceived := received }))
    (relay : ∀ received buf, buf <+: f.conn.responseBuf →
      ret (prepareRelay cfg (f.update fun c =>
        { c with responseBodyReceived := received, responseBuf := buf }))) :
    (checkComplete cfg f).Post ret exc := by
  unfold checkComplete
  split
  · exact stay f.conn.responseBodyReceived
  · dsimp only
    split
    · split
      · trivial
      · exact stay f.conn.responseBodyReceived
      · exact relay f.conn.responseBodyReceived _ (List.take_prefix _ _)
    · split
      · exact relay _ f.conn.responseBuf List.prefix_rfl
      · exact stay _

variable {cfg f}

/-- A `recv` of `handle_backend_readable` that gives data. -/
theorem handleBackendReadable_data (hstate : f.conn.state = .readingResponse) {bytes : Bytes}
    (hrecv : f.io.recv = .data bytes) (hne : bytes ≠ []) :
    handleBackendReadable cfg f =
      checkComplete cfg (receiveResponse cfg bytes (f.log (.backendReceived bytes))) := by
  rw [handleBackendReadable, if_neg (not_not.mpr hstate), hrecv]
  exact if_neg hne

/-- A `recv` that gives the end of the stream. -/
theorem handleBackendReadable_closed (hstate : f.conn.state = .readingResponse)
    (hrecv : f.io.recv = .data []) :
    handleBackendReadable cfg f = backendClosed cfg (f.log (.backendReceived [])) := by
  rw [handleBackendReadable, if_neg (not_not.mpr hstate), hrecv]
  exact if_pos rfl

end Operations

/-! ### The ways through a handler

To prove a postcondition of a handler, check every way a call of it can go. -/

section Handlers

variable {cfg : Config} {f : Frame} {ret exc : Frame → Prop}

theorem handleTimeout_post (ended : f.conn.state = .done → ret f)
    (idle : f.conn.state = .readingRequest → (sendError 408 "Request Timeout" f).Post ret exc)
    (relaying : f.conn.state ≠ .done → f.conn.clientBytesSent = true → ret (f.releaseSlot.setState .done))
    (unanswered : f.conn.state ≠ .done → f.conn.clientBytesSent = false →
      (sendError 504 "Gateway Timeout" f).Post ret exc) :
    (handleTimeout f).Post ret exc := by
  unfold handleTimeout
  split_ifs with hdone hreading hsent
  · exact ended hdone
  · exact idle hreading
  · exact relaying hdone hsent
  · exact unanswered hdone (Bool.eq_false_iff.mpr hsent)

theorem routeRequest_post (req : HttpRequest)
    (unavailable : ((storeRequest req f).nextBackend none).1 = none →
      (sendError 503 "Service Unavailable" ((storeRequest req f).nextBackend none).2).Post ret exc)
    (routed : ∀ backend, ((storeRequest req f).nextBackend none).1 = some backend →
      (initiateBackendConnect cfg backend
        (assignFirst backend ((storeRequest req f).nextBackend none).2)).Post ret exc) :
    (routeRequest cfg req f).Post ret exc := by
  unfold routeRequest
  dsimp only
  split
  · next hpick => exact unavailable hpick
  · next backend hpick => exact routed backend hpick

theorem handleClientReadable_post (ignored : f.conn.state ≠ .readingRequest → ret f)
    (blocked : f.conn.state = .readingRequest → f.io.recv = .blocked → ret f)
    (gone : f.conn.state = .readingRequest → f.io.recv = .osError ∨ f.io.recv = .data [] →
      ret (f.setState .done))
    (raises : f.conn.state = .readingRequest → f.io.recv = .raises → exc f)
    (tooLarge : ∀ bytes, f.conn.state = .readingRequest → f.io.recv = .data bytes → bytes ≠ [] →
      cfg.maxRequestSize < (receiveRequest cfg bytes f).conn.requestBuf.length →
      (sendError 413 "Request Entity Too Large" (receiveRequest cfg bytes f)).Post ret exc)
    (incomplete : ∀ bytes, f.conn.state = .readingRequest → f.io.recv = .data bytes → bytes ≠ [] →
      tryParseRequest (receiveRequest cfg bytes f).conn.requestBuf = none →
      ret (receiveRequest cfg bytes f))
    (complete : ∀ bytes req, f.conn.state = .readingRequest → f.io.recv = .data bytes → bytes ≠ [] →
      tryParseRequest (receiveRequest cfg bytes f).conn.requestBuf = some req →
      (routeRequest cfg req (receiveRequest cfg bytes f)).Post ret exc) :
    (handleClientReadable cfg f).Post ret exc := by
  unfold handleClientReadable
  split
  · next hstate => exact ignored hstate
  · next hnot =>
    have hstate : f.conn.state = .readingRequest := not_not.mp hnot
    split
    · next hrecv => exact blocked hstate hrecv
    · next hrecv => exact gone hstate (Or.inl hrecv)
    · next hrecv => exact raises hstate hrecv
    · next bytes hrecv =>
      split
      · next hempty => exact gone hstate (Or.inr (hempty ▸ hrecv))
      · next hne =>
        dsimp only
        split
        · next hlarge => exact tooLarge bytes hstate hrecv hne hlarge
        · split
          · next hnone => exact incomplete bytes hstate hrecv hne hnone
          · next req hsome => exact complete bytes req hstate hrecv hne hsome

theorem forwardRequest_post (blocked : f.io.send = .blocked → ret f)
    (broken : f.io.send = .osError → (failBackend cfg f).Post ret exc)
    (raises : f.io.send = .raises → exc f)
    (sentAll : ∀ n accepted, f.io.send = .sent n →
      accepted = (f.conn.forwardBuf.drop f.conn.forwardOffset).take n →
      f.conn.forwardBuf.length ≤ f.conn.forwardOffset + accepted.length →
      ret (refreshDeadline cfg ((recordForwarded cfg accepted f).setState .readingResponse)))
    (sentSome : ∀ n accepted, f.io.send = .sent n →
      accepted = (f.conn.forwardBuf.drop f.conn.forwardOffset).take n →
      f.conn.forwardOffset + accepted.length < f.conn.forwardBuf.length →
      ret (recordForwarded cfg accepted f)) :
    (forwardRequest cfg f).Post ret exc := by
  unfold forwardRequest
  split
  · next hsend => exact blocked hsend
  · next hsend => exact broken hsend
  · next hsend => exact raises hsend
  · next n hsend =>
    dsimp only
    split
    · next hall =>
      rw [recordForwarded_conn] at hall
      exact sentAll n _ hsend rfl hall
    · next hnot =>
      rw [recordForwarded_conn] at hnot
      exact sentSome n _ hsend rfl (Nat.lt_of_not_le hnot)

theorem handleBackendWritable_post
    (ignored : f.conn.state ≠ .connectingToBackend → f.conn.state ≠ .forwardingRequest → ret f)
    (raises : f.conn.state = .connectingToBackend → f.io.soError = .raises → exc f)
    (refused : ∀ err, f.conn.state = .connectingToBackend → f.io.soError = .errno err → err ≠ 0 →
      (failBackend cfg f).Post ret exc)
    (connected : f.conn.state = .connectingToBackend → f.io.soError = .errno 0 →
      (forwardRequest cfg (refreshDeadline cfg (f.setState .forwardingRequest))).Post ret exc)
    (forwarding : f.conn.state = .forwardingRequest → (forwardRequest cfg f).Post ret exc) :
    (handleBackendWritable cfg f).Post ret exc := by
  unfold handleBackendWritable
  split
  · next hstate =>
    split
    · next hanswer => exact raises hstate hanswer
    · next err hanswer =>
      split
      · next hne => exact refused err hstate hanswer hne
      · next hzero => exact connected hstate (not_not.mp hzero ▸ hanswer)
  · next hstate => exact forwarding hstate
  · next hconnecting hforwarding => exact ignored hconnecting hforwarding

theorem backendClosed_post
    (cutOff : (f.conn.responseIsChunked && f.conn.responseHeadersDone) = true →
      tryConsumeChunkedBody (responseBody f.conn.responseBuf) = some none →
      (failBackend cfg f).Post ret exc)
    (relay : ret (prepareRelay cfg f)) :
    (backendClosed cfg f).Post ret exc := by
  unfold backendClosed
  split
  · next hchunked =>
    split
    · trivial
    · next hscan => exact cutOff hchunked hscan
    · exact relay
  · exact relay

theorem handleBackendReadable_post (ignored : f.conn.state ≠ .readingResponse → ret f)
    (blocked : f.conn.state = .readingResponse → f.io.recv = .blocked → ret f)
    (broken : f.conn.state = .readingResponse → f.io.recv = .osError → (failBackend cfg f).Post ret exc)
    (raises : f.conn.state = .readingResponse → f.io.recv = .raises → exc f)
    (closed : f.conn.state = .readingResponse → f.io.recv = .data [] →
      (backendClosed cfg (f.log (.backendReceived []))).Post ret exc)
    (received : ∀ bytes, f.conn.state = .readingResponse → f.io.recv = .data bytes → bytes ≠ [] →
      (checkComplete cfg (receiveResponse cfg bytes (f.log (.backendReceived bytes)))).Post ret exc) :
    (handleBackendReadable cfg f).Post ret exc := by
  unfold handleBackendReadable
  split
  · next hstate => exact ignored hstate
  · next hnot =>
    have hstate : f.conn.state = .readingResponse := not_not.mp hnot
    split
    · next hrecv => exact blocked hstate hrecv
    · next hrecv => exact broken hstate hrecv
    · next hrecv => exact raises hstate hrecv
    · next bytes hrecv =>
      dsimp only
      split
      · next hempty =>
        subst hempty
        exact closed hstate hrecv
      · next hne => exact received bytes hstate hrecv hne

theorem handleClientWritable_post (ignored : f.conn.state ≠ .forwardingResponse → ret f)
    (blocked : f.conn.state = .forwardingResponse → f.io.send = .blocked → ret f)
    (gone : f.conn.state = .forwardingResponse → f.io.send = .osError → ret (f.setState .done))
    (raises : f.conn.state = .forwardingResponse → f.io.send = .raises → exc f)
    (sentAll : ∀ n accepted, f.conn.state = .forwardingResponse → f.io.send = .sent n →
      accepted = (f.conn.relayBuf.drop f.conn.relayOffset).take n →
      f.conn.relayBuf.length ≤ f.conn.relayOffset + accepted.length →
      ret (finish (recordRelayed cfg accepted f)))
    (sentSome : ∀ n accepted, f.conn.state = .forwardingResponse → f.io.send = .sent n →
      accepted = (f.conn.relayBuf.drop f.conn.relayOffset).take n →
      f.conn.relayOffset + accepted.length < f.conn.relayBuf.length →
      ret (recordRelayed cfg accepted f)) :
    (handleClientWritable cfg f).Post ret exc := by
  unfold handleClientWritable
  split
  · next hstate => exact ignored hstate
  · next hnot =>
    have hstate : f.conn.state = .forwardingResponse := not_not.mp hnot
    split
    · next hsend => exact blocked hstate hsend
    · next hsend => exact gone hstate hsend
    · next hsend => exact raises hstate hsend
    · next n hsend =>
      dsimp only
      split
      · next hall =>
        rw [recordRelayed_conn] at hall
        exact sentAll n _ hstate hsend rfl hall
      · next hnot =>
        rw [recordRelayed_conn] at hnot
        exact sentSome n _ hstate hsend rfl (Nat.lt_of_not_le hnot)

/-- A timeout ends the connection, unless sending the error response raises. -/
theorem handleTimeout_done (f : Frame) :
    (handleTimeout f).Post (fun f' => f'.conn.state = .done) fun _ => True := by
  apply handleTimeout_post
  case ended => exact fun h => h
  case idle => exact fun _ => sendError_done f 408 _
  case relaying => exact fun _ _ => rfl
  case unanswered => exact fun _ _ => sendError_done f 504 _

end Handlers

/-! ### The induction rule of the failover recursion -/

section Failover

variable {cfg : Config}

theorem idempotent_of_canRetry (cfg : Config) {conn : ProxyConnection} (h : canRetry cfg conn = true)
    {req : HttpRequest} (hreq : conn.parsedRequest = some req) :
    PyText.upper req.method ∈ cfg.idempotentMethods := by
  unfold canRetry at h
  rw [hreq] at h
  split at h
  · cases h
  · dsimp only at h
    split at h
    · cases h
    · next hmethod => exact not_not.mp hmethod

theorem initiateBackendConnect_eq (backend : Backend) (f : Frame) :
    initiateBackendConnect cfg backend f =
      match f.io.connect f.conn.backendAttempts with
      | .noSocket => raised (beginConnect cfg f)
      | .raises fd => raised (openBackendSock backend fd (beginConnect cfg f))
      | .errno fd err =>
          let f := openBackendSock backend fd (beginConnect cfg f)
          if err = 0 then returned (refreshDeadline cfg (f.setState .forwardingRequest))
          else if err ∈ connectInProgress then returned f
          else failBackend cfg f := by
  rw [initiateBackendConnect]
  have hanswer : (beginConnect cfg f).io.connect (beginConnect cfg f).conn.backendAttempts =
      f.io.connect f.conn.backendAttempts := by simp only [beginConnect_connect, beginConnect_attempts]
  rw [← hanswer]
  rfl

theorem failBackend_eq (f : Frame) :
    failBackend cfg f =
      if canRetry cfg (abandonBackend f).conn then
        let picked := (abandonBackend f).nextBackend (some (abandonBackend f).conn.triedBackends)
        match picked.1 with
        | some backend => initiateBackendConnect cfg backend (resetForRetry backend picked.2)
        | none => sendError 502 "Bad Gateway" picked.2
      else sendError 502 "Bad Gateway" (abandonBackend f) := by
  rw [failBackend]
  split <;> rfl

/-- To prove a property of a connect and of a failure, give what holds when an attempt starts
(`Starting`) and when one fails (`Failing`), and check the seven ways in which one of the two calls goes
on or ends. -/
theorem failover_rule {Starting : Backend → Frame → Prop} {Failing : Frame → Prop}
    {P : Outcome Frame → Prop}
    (noSocket : ∀ b f, Starting b f → f.io.connect f.conn.backendAttempts = .noSocket →
      P (raised (beginConnect cfg f)))
    (raises : ∀ b f fd, Starting b f → f.io.connect f.conn.backendAttempts = .raises fd →
      P (raised (openBackendSock b fd (beginConnect cfg f))))
    (connected : ∀ b f fd, Starting b f → f.io.connect f.conn.backendAttempts = .errno fd 0 →
      P (returned (refreshDeadline cfg
        ((openBackendSock b fd (beginConnect cfg f)).setState .forwardingRequest))))
    (inProgress : ∀ b f fd err, Starting b f → f.io.connect f.conn.backendAttempts = .errno fd err →
      err ∈ connectInProgress → P (returned (openBackendSock b fd (beginConnect cfg f))))
    (refused : ∀ b f fd err, Starting b f → f.io.connect f.conn.backendAttempts = .errno fd err →
      err ≠ 0 → err ∉ connectInProgress → Failing (openBackendSock b fd (beginConnect cfg f)))
    (retry : ∀ b f, Failing f → canRetry cfg (abandonBackend f).conn = true →
      let picked := (abandonBackend f).nextBackend (some (abandonBackend f).conn.triedBackends)
      picked.1 = some b → Starting b (resetForRetry b picked.2))
    (declined : ∀ f, Failing f → canRetry cfg (abandonBackend f).conn = false →
      P (sendError 502 "Bad Gateway" (abandonBackend f)))
    (exhausted : ∀ f, Failing f → canRetry cfg (abandonBackend f).conn = true →
      let picked := (abandonBackend f).nextBackend (some (abandonBackend f).conn.triedBackends)
      picked.1 = none → P (sendError 502 "Bad Gateway" picked.2)) :
    (∀ b f, Starting b f → P (initiateBackendConnect cfg b f)) ∧
      ∀ f, Failing f → P (failBackend cfg f) := by
  -- a failure is below the connect that meets it, and above the connect of the next attempt
  have main : ∀ n,
      (∀ b f, 2 * (cfg.maxBackendRetries + 1 - f.conn.backendAttempts) + 1 ≤ n → Starting b f →
        P (initiateBackendConnect cfg b f)) ∧
      ∀ f, 2 * (cfg.maxBackendRetries + 1 - f.conn.backendAttempts) ≤ n → Failing f →
        P (failBackend cfg f) := by
    intro n
    induction n with
    | zero =>
        refine ⟨fun b f hn _ => absurd hn (by omega), fun f hn hf => ?_⟩
        rw [failBackend_eq]
        split
        · next hretry =>
          have hle := attempts_le_of_canRetry cfg hretry
          rw [backendAttempts_abandonBackend] at hle
          omega
        · next hdeclined => exact declined f hf (Bool.eq_false_iff.mpr hdeclined)
    | succ n ih =>
        refine ⟨fun b f hn hf => ?_, fun f hn hf => ?_⟩
        · rw [initiateBackendConnect_eq]
          split
          · next hanswer => exact noSocket b f hf hanswer
          · next fd hanswer => exact raises b f fd hf hanswer
          · next fd err hanswer =>
            dsimp only
            split_ifs with hzero hprogress
            · exact connected b f fd hf (hzero ▸ hanswer)
            · exact inProgress b f fd err hf hanswer hprogress
            · refine ih.2 _ ?_ (refused b f fd err hf hanswer hzero hprogress)
              simp only [openBackendSock, log_conn, update_conn, beginConnect_attempts]
              omega
        · rw [failBackend_eq]
          split
          · next hretry =>
            have hle := attempts_le_of_canRetry cfg hretry
            rw [backendAttempts_abandonBackend] at hle
            dsimp only
            split
            · next b hpick =>
              refine ih.1 b _ ?_ (retry b f hf hretry hpick)
              simp only [resetForRetry, update_conn, nextBackend_conn, backendAttempts_abandonBackend]
              omega
            · next hpick => exact exhausted f hf hretry hpick
          · next hdeclined => exact declined f hf (Bool.eq_false_iff.mpr hdeclined)
  exact ⟨fun b f hf => (main _).1 b f le_rfl hf, fun f hf => (main _).2 f le_rfl hf⟩

/-- `failover_rule` for a property that need not know why the connection gives up. -/
theorem failover_induction {Starting : Backend → Frame → Prop} {Failing : Frame → Prop}
    {P : Outcome Frame → Prop}
    (noSocket : ∀ b f, Starting b f → f.io.connect f.conn.backendAttempts = .noSocket →
      P (raised (beginConnect cfg f)))
    (raises : ∀ b f fd, Starting b f → f.io.connect f.conn.backendAttempts = .raises fd →
      P (raised (openBackendSock b fd (beginConnect cfg f))))
    (connected : ∀ b f fd, Starting b f → f.io.connect f.conn.backendAttempts = .errno fd 0 →
      P (returned (refreshDeadline cfg
        ((openBackendSock b fd (beginConnect cfg f)).setState .forwardingRequest))))
    (inProgress : ∀ b f fd err, Starting b f → f.io.connect f.conn.backendAttempts = .errno fd err →
      err ∈ connectInProgress → P (returned (openBackendSock b fd (beginConnect cfg f))))
    (refused : ∀ b f fd err, Starting b f → f.io.connect f.conn.backendAttempts = .errno fd err →
      err ≠ 0 → err ∉ connectInProgress → Failing (openBackendSock b fd (beginConnect cfg f)))
    (retry : ∀ b f, Failing f → canRetry cfg (abandonBackend f).conn = true →
      let picked := (abandonBackend f).nextBackend (some (abandonBackend f).conn.triedBackends)
      picked.1 = some b → Starting b (resetForRetry b picked.2))
    (giveUp : ∀ f f', Failing f →
      (f' = abandonBackend f ∨
        let picked := (abandonBackend f).nextBackend (some (abandonBackend f).conn.triedBackends)
        picked.1 = none ∧ f' = picked.2) →
      P (sendError 502 "Bad Gateway" f')) :
    (∀ b f, Starting b f → P (initiateBackendConnect cfg b f)) ∧
      ∀ f, Failing f → P (failBackend cfg f) :=
  failover_rule noSocket raises connected inProgress refused retry
    (fun f hf _ => giveUp f _ hf (Or.inl rfl)) fun f hf _ hpick => giveUp f _ hf (Or.inr ⟨hpick, rfl⟩)

/-- `failover_induction` for a postcondition. -/
theorem failover_post {Starting : Backend → Frame → Prop} {Failing ret exc : Frame → Prop}
    (noSocket : ∀ b f, Starting b f → f.io.connect f.conn.backendAttempts = .noSocket →
      exc (beginConnect cfg f))
    (raises : ∀ b f fd, Starting b f → f.io.connect f.conn.backendAttempts = .raises fd →
      exc (openBackendSock b fd (beginConnect cfg f)))
    (connected : ∀ b f fd, Starting b f → f.io.connect f.conn.backendAttempts = .errno fd 0 →
      ret (refreshDeadline cfg ((openBackendSock b fd (beginConnect cfg f)).setState .forwardingRequest)))
    (inProgress : ∀ b f fd err, Starting b f → f.io.connect f.conn.backendAttempts = .errno fd err →
      err ∈ connectInProgress → ret (openBackendSock b fd (beginConnect cfg f)))
    (refused : ∀ b f fd err, Starting b f → f.io.connect f.conn.backendAttempts = .errno fd err →
      err ≠ 0 → err ∉ connectInProgress → Failing (openBackendSock b fd (beginConnect cfg f)))
    (retry : ∀ b f, Failing f → canRetry cfg (abandonBackend f).conn = true →
      let picked := (abandonBackend f).nextBackend (some (abandonBackend f).conn.triedBackends)
      picked.1 = some b → Starting b (resetForRetry b picked.2))
    (giveUp : ∀ f f', Failing f →
      (f' = abandonBackend f ∨
        let picked := (abandonBackend f).nextBackend (some (abandonBackend f).conn.triedBackends)
        picked.1 = none ∧ f' = picked.2) →
      (sendError 502 "Bad Gateway" f').Post ret exc) :
    (∀ b f, Starting b f → (initiateBackendConnect cfg b f).Post ret exc) ∧
      ∀ f, Failing f → (failBackend cfg f).Post ret exc :=
  failover_induction (P := fun o => o.Post ret exc) noSocket raises connected inProgress refused retry giveUp

theorem sendError_ends (code : Nat) (reason : String) (f : Frame) : sendError code reason f ≠ .hung := by
  unfold sendError
  split <;> exact nofun

/-- A connect and a failure end: each attempt raises the attempt number, and the limit stops it. -/
theorem failover_ends (cfg : Config) :
    (∀ b f, initiateBackendConnect cfg b f ≠ .hung) ∧ ∀ f, failBackend cfg f ≠ .hung := by
  have main : (∀ b f, True → initiateBackendConnect cfg b f ≠ .hung) ∧
      ∀ f, True → failBackend cfg f ≠ .hung := by
    apply failover_induction (P := (· ≠ .hung))
    case noSocket => exact fun _ _ _ _ => nofun
    case raises => exact fun _ _ _ _ _ => nofun
    case connected => exact fun _ _ _ _ _ => nofun
    case inProgress => exact fun _ _ _ _ _ _ _ => nofun
    case refused => exact fun _ _ _ _ _ _ _ _ => trivial
    case retry => exact fun _ _ _ _ _ => trivial
    case giveUp => exact fun _ f' _ _ => sendError_ends 502 _ f'
  exact ⟨fun b f => main.1 b f trivial, fun f => main.2 f trivial⟩

end Failover

end LoadBalancer
