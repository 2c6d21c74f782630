import LoadBalancer.Attempts
import LoadBalancer.BackendSocks

/-! Failover is transparent. A retry resets everything that a later step reads, so from the start of an
attempt on a connection cannot be told from one whose first backend was this one: two runs in which the
sockets of the two connections answer alike stay in step. -/

namespace LoadBalancer

open Outcome

/-! ### The start of an attempt -/

/-- The errno that `connect_ex` returned. -/
def ConnectResult.err : ConnectResult → Option Nat
  | .errno _ err => some err
  | _ => none

/-- An attempt has started, its `connect_ex` returned `err`, and its socket has accepted nothing yet. -/
structure Answered (connect : Nat → ConnectResult) (f : Frame) : Prop where
  answers : f.io.connect = connect
  accepted : (dealings f.trace).attempt.map BackendAttempt.accepted = some []
  state : ∃ err, (connect f.conn.backendAttempts).err = some err ∧
    f.conn.state = if err = 0 then .forwardingRequest else .connectingToBackend

section Handlers

variable {cfg : Config} {f : Frame} {connect : Nat → ConnectResult}

theorem answered_opened {b : Backend} {fd err : Nat} (hconnect : f.io.connect = connect)
    (hanswer : f.io.connect f.conn.backendAttempts = .errno fd err) {f' : Frame}
    (hio : f'.io.connect = f.io.connect) (hattempts : f'.conn.backendAttempts = f.conn.backendAttempts)
    (htrace : f'.trace = (openBackendSock b fd (beginConnect cfg f)).trace)
    (hstate : f'.conn.state = if err = 0 then .forwardingRequest else .connectingToBackend) :
    Answered connect f' := by
  refine ⟨hio.trans hconnect, ?_, err, ?_, hstate⟩
  · rw [htrace, dealings_openBackendSock]
    rfl
  · rw [hattempts, ← hconnect, hanswer]
    rfl

theorem failover_answered :
    (∀ b f, f.io.connect = connect → (initiateBackendConnect cfg b f).Post
      (fun f' => f'.conn.state = .done ∨ Answered connect f') fun _ => True) ∧
    ∀ f, f.io.connect = connect → (failBackend cfg f).Post
      (fun f' => f'.conn.state = .done ∨ Answered connect f') fun _ => True := by
  have hopened : ∀ b fd (f : Frame), (openBackendSock b fd (beginConnect cfg f)).io.connect = f.io.connect :=
    fun b fd f => beginConnect_connect cfg f
  apply failover_post
  case noSocket => exact fun _ _ _ _ => trivial
  case raises => exact fun _ _ _ _ _ => trivial
  case connected =>
    intro b f fd hconnect hanswer
    refine Or.inr (answered_opened (b := b) hconnect hanswer ?_ ?_ (refreshDeadline_trace _ _) ?_)
    · rw [refreshDeadline_connect]
      exact hopened b fd f
    · rw [backendAttempts_refreshDeadline]
      exact beginConnect_attempts cfg f
    · rw [refreshDeadline_conn]
      rfl
  case inProgress =>
    intro b f fd err hconnect hanswer hprogress
    refine Or.inr (answered_opened (b := b) hconnect hanswer (hopened b fd f) ?_ rfl ?_)
    · exact beginConnect_attempts cfg f
    · have hne : err ≠ 0 := by
        rintro rfl
        exact absurd hprogress (by decide)
      rw [if_neg hne, openBackendSock_conn, beginConnect_conn]
  case refused => exact fun b f fd err hconnect _ _ _ => (hopened b fd f).trans hconnect
  case retry =>
    intro b f hconnect _ picked _
    exact (abandonBackend_connect f).trans hconnect
  case giveUp => exact fun f f' _ _ => (sendError_done f' 502 _).mono (fun _ h => Or.inl h) fun _ h => h

/-- A call that leaves `contacted` to be all that was contacted has started no connect; one that has, and
has not ended the connection, has ended with the last of its connects. -/
def Connects (contacted : List Backend) (connect : Nat → ConnectResult) (f : Frame) : Prop :=
  (dealings f.trace).contacted = contacted ∨ f.conn.state = .done ∨ Answered connect f

theorem sendError_connects {contacted : List Backend} (code : Nat) (reason : String) (f : Frame) :
    (sendError code reason f).Post (Connects contacted connect) fun _ => True :=
  (sendError_done f code reason).mono (fun _ h => Or.inr (Or.inl h)) fun _ h => h

theorem failBackend_connects {contacted : List Backend} (hconnect : f.io.connect = connect) :
    (failBackend cfg f).Post (Connects contacted connect) fun _ => True :=
  (failover_answered.2 f hconnect).mono (fun _ h => Or.inr h) fun _ h => h

theorem handleClientReadable_connects (f : Frame) :
    (handleClientReadable cfg f).Post (Connects (dealings f.trace).contacted f.io.connect)
      fun _ => True := by
  apply handleClientReadable_post
  case ignored => exact fun _ => Or.inl rfl
  case blocked => exact fun _ _ => Or.inl rfl
  case gone => exact fun _ _ => Or.inl rfl
  case raises => exact fun _ _ => trivial
  case tooLarge => exact fun _ _ _ _ _ => sendError_connects 413 _ _
  case incomplete =>
    intro bytes _ _ _ _
    rw [Connects, receiveRequest, refreshDeadline_trace]
    exact Or.inl rfl
  case complete =>
    intro bytes req _ _ _ _
    apply routeRequest_post
    case unavailable => exact fun _ => sendError_connects 503 _ _
    case routed =>
      refine fun backend _ => (failover_answered.1 _ _ ?_).mono (fun _ h => Or.inr h) fun _ h => h
      exact refreshDeadline_connect cfg _

theorem forwardRequest_connects {contacted : List Backend} (hconnect : f.io.connect = connect)
    (hsame : (dealings f.trace).contacted = contacted) :
    (forwardRequest cfg f).Post (Connects contacted connect) fun _ => True := by
  apply forwardRequest_post
  case blocked => exact fun _ => Or.inl hsame
  case broken => exact fun _ => failBackend_connects hconnect
  case raises => exact fun _ => trivial
  case sentAll =>
    intro _ accepted _ _ _
    rw [Connects, refreshDeadline_trace, setState_trace, recordForwarded_trace, dealings_concat]
    exact Or.inl hsame
  case sentSome =>
    intro _ accepted _ _ _
    rw [Connects, recordForwarded_trace, dealings_concat]
    exact Or.inl hsame

theorem handleBackendWritable_connects (f : Frame) :
    (handleBackendWritable cfg f).Post (Connects (dealings f.trace).contacted f.io.connect)
      fun _ => True := by
  apply handleBackendWritable_post
  case ignored => exact fun _ _ => Or.inl rfl
  case raises => exact fun _ _ => trivial
  case refused => exact fun _ _ _ _ => failBackend_connects rfl
  case connected =>
    refine fun _ _ => forwardRequest_connects (refreshDeadline_connect cfg _) ?_
    rw [refreshDeadline_trace]
    rfl
  case forwarding => exact fun _ => forwardRequest_connects rfl rfl

theorem handleBackendReadable_connects (f : Frame) :
    (handleBackendReadable cfg f).Post (Connects (dealings f.trace).contacted f.io.connect)
      fun _ => True := by
  have hlogged : ∀ bytes, (dealings (f.log (.backendReceived bytes)).trace).contacted =
      (dealings f.trace).contacted := by
    intro bytes
    rw [log_trace, dealings_concat]
    rfl
  have hrelay : ∀ bytes (g : Frame), g.trace = (f.log (.backendReceived bytes)).trace →
      (dealings (prepareRelay cfg g).trace).contacted = (dealings f.trace).contacted := by
    intro bytes g hg
    rw [prepareRelay, refreshDeadline_trace, update_trace, hg]
    exact hlogged bytes
  apply handleBackendReadable_post
  case ignored => exact fun _ => Or.inl rfl
  case blocked => exact fun _ _ => Or.inl rfl
  case broken => exact fun _ _ => failBackend_connects rfl
  case raises => exact fun _ _ => trivial
  case closed =>
    exact fun _ _ => backendClosed_post (fun _ _ => failBackend_connects rfl) (Or.inl (hrelay [] _ rfl))
  case received =>
    intro bytes _ _ _
    have htrace : (receiveResponse cfg bytes (f.log (.backendReceived bytes))).trace =
        (f.log (.backendReceived bytes)).trace := refreshDeadline_trace _ _
    apply checkComplete_post
    case stay =>
      intro received
      rw [Connects, update_trace, htrace]
      exact Or.inl (hlogged bytes)
    case relay => exact fun received buf _ => Or.inl (hrelay bytes _ htrace)

theorem handleClientWritable_connects (f : Frame) :
    (handleClientWritable cfg f).Post (Connects (dealings f.trace).contacted f.io.connect)
      fun _ => True := by
  apply handleClientWritable_post
  case ignored => exact fun _ => Or.inl rfl
  case blocked => exact fun _ _ => Or.inl rfl
  case gone => exact fun _ _ => Or.inl rfl
  case raises => exact fun _ _ => trivial
  case sentAll =>
    intro _ accepted _ _ _ _
    rw [Connects, dealings_finish, recordRelayed_trace, dealings_concat]
    exact Or.inl rfl
  case sentSome =>
    intro _ accepted _ _ _ _
    rw [Connects, recordRelayed_trace, dealings_concat]
    exact Or.inl rfl

/-- A call that starts a connect ends with the last of its connects, unless it ends the connection. -/
theorem handle_connects (c : Call) (f : Frame) :
    (handle cfg c f).Post (Connects (dealings f.trace).contacted f.io.connect) fun _ => True := by
  cases c with
  | timeout => exact (handleTimeout_done f).mono (fun _ h => Or.inr (Or.inl h)) fun _ h => h
  | clientReadable => exact handleClientReadable_connects f
  | clientWritable => exact handleClientWritable_connects f
  | backendReadable => exact handleBackendReadable_connects f
  | backendWritable => exact handleBackendWritable_connects f

end Handlers

/-! ### Connections that cannot be told apart -/

/-- The connections agree on every field that a step reads, other than to retry. -/
structure Alike (c d : ProxyConnection) : Prop where
  state : c.state = d.state
  forwardBuf : c.forwardBuf = d.forwardBuf
  forwardOffset : c.forwardOffset = d.forwardOffset
  responseBuf : c.responseBuf = d.responseBuf
  responseStatus : c.responseStatus = d.responseStatus
  responseHeadersDone : c.responseHeadersDone = d.responseHeadersDone
  responseContentLength : c.responseContentLength = d.responseContentLength
  responseIsChunked : c.responseIsChunked = d.responseIsChunked
  clientBytesSent : c.clientBytesSent = d.clientBytesSent
  relay : c.state = .forwardingResponse → c.relayBuf = d.relayBuf ∧ c.relayOffset = d.relayOffset

/-- What the last backend has accepted, and what the client has been sent. -/
def delivered (trace : List Action) : Option Bytes × Bytes :=
  ((dealings trace).attempt.map BackendAttempt.accepted, (dealings trace).clientBytes)

/-- The frames cannot be told apart from their connections and from what they have sent. -/
structure Parallel (f g : Frame) : Prop extends Alike f.conn g.conn where
  delivered : delivered f.trace = delivered g.trace

/-- The sockets of the two connections answer alike. -/
structure SameAnswers (io io' : Io) : Prop where
  recv : io.recv = io'.recv
  send : io.send = io'.send
  sendall : io.sendall = io'.sendall
  soError : io.soError = io'.soError

section Operations

variable {cfg : Config} {f g : Frame}

theorem Alike.refl (c : ProxyConnection) : Alike c c :=
  ⟨rfl, rfl, rfl, rfl, rfl, rfl, rfl, rfl, rfl, fun _ => ⟨rfl, rfl⟩⟩

theorem Alike.symm {c d : ProxyConnection} (h : Alike c d) : Alike d c where
  state := h.state.symm
  forwardBuf := h.forwardBuf.symm
  forwardOffset := h.forwardOffset.symm
  responseBuf := h.responseBuf.symm
  responseStatus := h.responseStatus.symm
  responseHeadersDone := h.responseHeadersDone.symm
  responseContentLength := h.responseContentLength.symm
  responseIsChunked := h.responseIsChunked.symm
  clientBytesSent := h.clientBytesSent.symm
  relay hstate := ⟨(h.relay (h.state.trans hstate)).1.symm, (h.relay (h.state.trans hstate)).2.symm⟩

theorem Alike.trans {c d e : ProxyConnection} (h : Alike c d) (h' : Alike d e) : Alike c e where
  state := h.state.trans h'.state
  forwardBuf := h.forwardBuf.trans h'.forwardBuf
  forwardOffset := h.forwardOffset.trans h'.forwardOffset
  responseBuf := h.responseBuf.trans h'.responseBuf
  responseStatus := h.responseStatus.trans h'.responseStatus
  responseHeadersDone := h.responseHeadersDone.trans h'.responseHeadersDone
  responseContentLength := h.responseContentLength.trans h'.responseContentLength
  responseIsChunked := h.responseIsChunked.trans h'.responseIsChunked
  clientBytesSent := h.clientBytesSent.trans h'.clientBytesSent
  relay hstate :=
    have hstate' : d.state = .forwardingResponse := h.state.symm.trans hstate
    ⟨(h.relay hstate).1.trans (h'.relay hstate').1, (h.relay hstate).2.trans (h'.relay hstate').2⟩

theorem Parallel.refl (f : Frame) : Parallel f f := ⟨Alike.refl f.conn, rfl⟩

/-- Steps that cannot be seen from outside do not break it. -/
theorem Parallel.unseen {f' g' : Frame} (h : Parallel f g) (hf : Parallel f f') (hg : Parallel g g') :
    Parallel f' g' :=
  ⟨hf.toAlike.symm.trans (h.toAlike.trans hg.toAlike),
    hf.delivered.symm.trans (h.delivered.trans hg.delivered)⟩

theorem parallel_refreshDeadline (cfg : Config) (f : Frame) : Parallel f (refreshDeadline cfg f) := by
  refine ⟨?_, by rw [refreshDeadline_trace]⟩
  rw [refreshDeadline_conn]
  exact ⟨rfl, rfl, rfl, rfl, rfl, rfl, rfl, rfl, rfl, fun _ => ⟨rfl, rfl⟩⟩

theorem Parallel.refreshDeadline (h : Parallel f g) (cfg : Config) :
    Parallel (refreshDeadline cfg f) (refreshDeadline cfg g) :=
  h.unseen (parallel_refreshDeadline cfg f) (parallel_refreshDeadline cfg g)

theorem parallel_releaseSlot (f : Frame) : Parallel f f.releaseSlot := by
  refine ⟨?_, by rw [LoadBalancer.delivered, LoadBalancer.delivered, dealings_releaseSlot]⟩
  rw [releaseSlot_conn]
  exact ⟨rfl, rfl, rfl, rfl, rfl, rfl, rfl, rfl, rfl, fun _ => ⟨rfl, rfl⟩⟩

/-- Both connections enter a state other than `FORWARDING_RESPONSE`. -/
theorem Parallel.enter (h : Parallel f g) {state : State} (hstate : state ≠ .forwardingResponse) :
    Parallel (f.setState state) (g.setState state) :=
  ⟨{ h with
      state := rfl
      relay := fun heq => absurd heq hstate }, h.delivered⟩

theorem Parallel.finish (h : Parallel f g) : Parallel (finish f) (finish g) := by
  have hdone : Parallel (f.setState .done) (g.setState .done) := h.enter State.noConfusion
  refine ⟨?_, ?_⟩
  · rw [finish_conn, finish_conn]
    exact { hdone.toAlike with }
  · rw [LoadBalancer.delivered, dealings_finish, LoadBalancer.delivered, dealings_finish]
    exact h.delivered

/-- The same action is seen alike, if it is not a connect. -/
theorem delivered_log (h : delivered f.trace = delivered g.trace) {a : Action}
    (ha : ∀ b sock, a ≠ .connect b sock) : delivered (f.log a).trace = delivered (g.log a).trace := by
  obtain ⟨haccepted, hclient⟩ := Prod.mk.inj h
  rw [log_trace, log_trace, delivered, delivered, dealings_concat, dealings_concat]
  cases a with
  | connect b sock => exact absurd rfl (ha b sock)
  | backendSent bytes =>
      refine Prod.ext ?_ hclient
      simp only [Dealings.record, Option.map_map]
      have hmap := congrArg (Option.map (· ++ bytes)) haccepted
      rw [Option.map_map, Option.map_map] at hmap
      exact hmap
  | clientSent bytes => exact Prod.ext haccepted (congrArg (· ++ bytes) hclient)
  | errorSent code reason bytes => exact Prod.ext haccepted (congrArg (· ++ bytes) hclient)
  | _ => exact h

theorem Parallel.log (h : Parallel f g) {a : Action} (ha : ∀ b sock, a ≠ .connect b sock) :
    Parallel (f.log a) (g.log a) := ⟨{ h.toAlike with }, delivered_log h.delivered ha⟩

theorem sendError_parallel (code : Nat) (reason : String) (h : Parallel f g)
    (hsendall : f.io.sendall = g.io.sendall) :
    (sendError code reason f).Rel Parallel (sendError code reason g) := by
  have hlogged : ∀ bytes, Parallel (f.log (.errorSent code reason bytes))
      (g.log (.errorSent code reason bytes)) := fun bytes => h.log fun _ _ => nofun
  unfold sendError
  rw [hsendall]
  cases g.io.sendall with
  | sent =>
      refine Parallel.finish ⟨?_, (hlogged _).delivered⟩
      exact { h.toAlike with
        responseStatus := rfl
        clientBytesSent := rfl }
  | osError n =>
      refine Parallel.finish ⟨?_, (hlogged _).delivered⟩
      exact { h.toAlike with responseStatus := rfl }
  | raises n => exact hlogged _

theorem handleTimeout_parallel (h : Parallel f g) (hio : SameAnswers f.io g.io)
    (hactive : f.conn.state ≠ .readingRequest) :
    (handleTimeout f).Rel Parallel (handleTimeout g) := by
  have hactive' : g.conn.state ≠ .readingRequest := h.state ▸ hactive
  unfold handleTimeout
  rw [if_neg hactive, if_neg hactive', h.state, h.clientBytesSent]
  split_ifs
  · exact h
  · exact (h.unseen (parallel_releaseSlot f) (parallel_releaseSlot g)).enter State.noConfusion
  · exact sendError_parallel 504 _ h hio.sendall

/-! ### Sending the request -/

theorem recordForwarded_parallel (cfg : Config) (h : Parallel f g) (accepted : Bytes) :
    Parallel (recordForwarded cfg accepted f) (recordForwarded cfg accepted g) := by
  refine ⟨?_, ?_⟩
  · rw [recordForwarded_conn, recordForwarded_conn cfg g]
    exact { h.toAlike with forwardOffset := congrArg (· + accepted.length) h.forwardOffset }
  · rw [recordForwarded_trace, recordForwarded_trace]
    exact (h.log (a := .backendSent accepted) fun _ _ => nofun).delivered

theorem forwardRequest_parallel (h : Parallel f g) (hsend : f.io.send = g.io.send)
    (hholds : g.io.send ≠ .osError) :
    (forwardRequest cfg f).Rel Parallel (forwardRequest cfg g) := by
  unfold forwardRequest
  rw [hsend]
  cases hanswer : g.io.send with
  | blocked => exact h
  | osError => exact absurd hanswer hholds
  | raises => exact h
  | sent n =>
      have hsent := recordForwarded_parallel cfg h ((g.conn.forwardBuf.drop g.conn.forwardOffset).take n)
      dsimp only
      rw [h.forwardBuf, h.forwardOffset, hsent.forwardBuf, hsent.forwardOffset]
      split_ifs
      · exact (hsent.enter State.noConfusion).refreshDeadline cfg
      · exact hsent

theorem handleBackendWritable_parallel (h : Parallel f g) (hio : SameAnswers f.io g.io)
    (hholds : ¬ FailsBackend f.conn f.io .backendWritable) :
    (handleBackendWritable cfg f).Rel Parallel (handleBackendWritable cfg g) := by
  rw [FailsBackend, not_or] at hholds
  obtain ⟨hconnects, hsends⟩ := hholds
  unfold handleBackendWritable
  rw [← h.state]
  cases hstate : f.conn.state with
  | connectingToBackend =>
      dsimp only
      rw [← hio.soError]
      cases hanswer : f.io.soError with
      | raises => exact h
      | errno err =>
          have herr : err = 0 := by
            by_contra hne
            exact hconnects ⟨hstate, err, hanswer, hne⟩
          subst herr
          refine forwardRequest_parallel ((h.enter State.noConfusion).refreshDeadline cfg) ?_ ?_
          · rw [refreshDeadline_send, refreshDeadline_send]
            exact hio.send
          · rw [refreshDeadline_send]
            intro hsend
            exact hsends ⟨Or.inr ⟨hstate, hanswer⟩, hio.send.trans hsend⟩
  | forwardingRequest =>
      refine forwardRequest_parallel h hio.send fun hsend => ?_
      exact hsends ⟨Or.inl hstate, hio.send.trans hsend⟩
  | readingRequest => exact h
  | readingResponse => exact h
  | forwardingResponse => exact h
  | done => exact h

/-! ### Reading the response -/

theorem prepareRelay_parallel (cfg : Config) (h : Parallel f g) :
    Parallel (prepareRelay cfg f) (prepareRelay cfg g) := by
  refine ⟨?_, ?_⟩
  · rw [prepareRelay_conn, prepareRelay_conn cfg g]
    exact { h.toAlike with
      state := rfl
      relay := fun _ => ⟨h.responseBuf, rfl⟩ }
  · rw [prepareRelay, prepareRelay, refreshDeadline_trace, refreshDeadline_trace]
    exact h.delivered

theorem recordStatus_alike {c d : ProxyConnection} (h : Alike c d) :
    Alike (recordStatus c) (recordStatus d) := by
  unfold recordStatus
  rw [h.responseStatus, h.responseBuf]
  split
  · exact h
  · exact { h with
      responseBuf := rfl
      responseStatus := rfl }

theorem recordFraming_alike {c d : ProxyConnection} (h : Alike c d) :
    Alike (recordFraming c) (recordFraming d) := by
  unfold recordFraming
  rw [h.responseHeadersDone, h.responseBuf]
  split_ifs
  · exact h
  · split
    · exact h
    · exact { h with
        responseBuf := rfl
        responseHeadersDone := rfl
        responseContentLength := rfl
        responseIsChunked := rfl }

theorem receiveResponse_parallel (cfg : Config) (h : Parallel f g) (bytes : Bytes) :
    Parallel (receiveResponse cfg bytes f) (receiveResponse cfg bytes g) := by
  have hgrown : Parallel (f.update fun c => { c with responseBuf := c.responseBuf ++ bytes })
      (g.update fun c => { c with responseBuf := c.responseBuf ++ bytes }) :=
    ⟨{ h.toAlike with responseBuf := congrArg (· ++ bytes) h.responseBuf }, h.delivered⟩
  have hrefreshed := hgrown.refreshDeadline cfg
  exact ⟨recordFraming_alike (recordStatus_alike hrefreshed.toAlike), hrefreshed.delivered⟩

theorem checkComplete_parallel (cfg : Config) (h : Parallel f g) :
    (checkComplete cfg f).Rel Parallel (checkComplete cfg g) := by
  have hcut : ∀ n, Parallel (f.update fun c => { c with responseBuf := c.responseBuf.take n })
      (g.update fun c => { c with responseBuf := c.responseBuf.take n }) := fun n =>
    ⟨{ h.toAlike with responseBuf := congrArg (List.take n) h.responseBuf }, h.delivered⟩
  have hcounted : ∀ received, Parallel (f.update fun c => { c with responseBodyReceived := received })
      (g.update fun c => { c with responseBodyReceived := received }) := fun received =>
    ⟨{ h.toAlike with }, h.delivered⟩
  unfold checkComplete
  rw [h.responseHeadersDone, h.responseBuf, h.responseIsChunked]
  dsimp only
  split
  · exact h
  · split
    · split
      · trivial
      · exact h
      · exact prepareRelay_parallel cfg (hcut _)
    · have hlength : f.conn.responseContentLength = g.conn.responseContentLength := h.responseContentLength
      split
      · next hwhole =>
        have hwhole' := hwhole
        rw [update_conn, hlength] at hwhole'
        split
        · exact prepareRelay_parallel cfg (hcounted _)
        · next hpart => exact absurd hwhole' hpart
      · next hpart =>
        have hpart' := hpart
        rw [update_conn, hlength] at hpart'
        split
        · next hwhole => exact absurd hwhole hpart'
        · exact hcounted _

theorem handleBackendReadable_parallel (h : Parallel f g) (hio : SameAnswers f.io g.io)
    (hholds : ¬ FailsBackend f.conn f.io .backendReadable) :
    (handleBackendReadable cfg f).Rel Parallel (handleBackendReadable cfg g) := by
  unfold handleBackendReadable
  rw [← h.state, ← hio.recv]
  split
  · exact h
  · next hnot =>
    have hstate : f.conn.state = .readingResponse := not_not.mp hnot
    cases hrecv : f.io.recv with
    | blocked => exact h
    | osError => exact absurd ⟨hstate, Or.inl hrecv⟩ hholds
    | raises => exact h
    | data bytes =>
        have hlogged : Parallel (f.log (.backendReceived bytes)) (g.log (.backendReceived bytes)) :=
          h.log fun _ _ => nofun
        dsimp only
        split
        · next hempty =>
          subst hempty
          unfold backendClosed
          rw [← hlogged.responseIsChunked, ← hlogged.responseHeadersDone, ← hlogged.responseBuf]
          split
          · next hchunked =>
            split
            · trivial
            · next hincomplete => exact absurd ⟨hstate, Or.inr ⟨hrecv, hchunked, hincomplete⟩⟩ hholds
            · exact prepareRelay_parallel cfg hlogged
          · exact prepareRelay_parallel cfg hlogged
        · exact checkComplete_parallel cfg (receiveResponse_parallel cfg hlogged bytes)

/-! ### Relaying the response -/

theorem recordRelayed_parallel (cfg : Config) (h : Parallel f g) (accepted : Bytes) :
    Parallel (recordRelayed cfg accepted f) (recordRelayed cfg accepted g) := by
  refine ⟨?_, ?_⟩
  · rw [recordRelayed_conn, recordRelayed_conn cfg g]
    exact { h.toAlike with
      clientBytesSent := congrArg (· || decide (accepted ≠ [])) h.clientBytesSent
      relay := fun hstate =>
        ⟨(h.relay hstate).1, congrArg (· + accepted.length) (h.relay hstate).2⟩ }
  · rw [recordRelayed_trace, recordRelayed_trace]
    exact (h.log (a := .clientSent accepted) fun _ _ => nofun).delivered

theorem handleClientWritable_parallel (h : Parallel f g) (hio : SameAnswers f.io g.io) :
    (handleClientWritable cfg f).Rel Parallel (handleClientWritable cfg g) := by
  unfold handleClientWritable
  rw [← h.state, ← hio.send]
  split
  · exact h
  · next hnot =>
    have hstate : f.conn.state = .forwardingResponse := not_not.mp hnot
    obtain ⟨hbuf, hoffset⟩ := h.relay hstate
    cases f.io.send with
    | blocked => exact h
    | osError => exact h.enter State.noConfusion
    | raises => exact h
    | sent n =>
        have hsent := recordRelayed_parallel cfg h ((g.conn.relayBuf.drop g.conn.relayOffset).take n)
        have hstate' : (recordRelayed cfg ((g.conn.relayBuf.drop g.conn.relayOffset).take n)
            f).conn.state = .forwardingResponse := by
          rw [recordRelayed_conn]
          exact hstate
        dsimp only
        rw [hbuf, hoffset, (hsent.relay hstate').1, (hsent.relay hstate').2]
        split_ifs
        · exact hsent.finish
        · exact hsent

/-- One call on each, in which the backend does not fail. -/
theorem handle_parallel (c : Call) (h : Parallel f g) (hio : SameAnswers f.io g.io)
    (hactive : f.conn.state ≠ .readingRequest) (hholds : ¬ FailsBackend f.conn f.io c) :
    (handle cfg c f).Rel Parallel (handle cfg c g) := by
  cases c with
  | timeout => exact handleTimeout_parallel h hio hactive
  | clientReadable =>
      have hactive' : g.conn.state ≠ .readingRequest := h.state ▸ hactive
      rw [handle, handleClientReadable, handleClientReadable, if_pos hactive, if_pos hactive']
      exact h
  | clientWritable => exact handleClientWritable_parallel h hio
  | backendReadable => exact handleBackendReadable_parallel h hio hholds
  | backendWritable => exact handleBackendWritable_parallel h hio hholds

end Operations

/-! ### Runs -/

/-- What a connection hears: a call with the answers of its sockets, or that it is given up. -/
inductive Heard where
  | call (c : Call) (recv : RecvResult) (send : SendResult) (sendall : SendallResult)
      (soError : SockoptResult)
  | abort

/-- What is seen of a connection from outside: its state and status, the bytes that its backend accepted
in the current attempt, and the bytes that its client was sent. -/
def observe (s : Session) : State × Option Int × Option Bytes × Bytes :=
  (s.conn.state, s.conn.responseStatus, delivered s.trace)

namespace Fleet

def heard (i : Nat) : Event → Option Heard
  | .call j c io => if j = i then some (.call c io.recv io.send io.sendall io.soError) else none
  | .abort j => if j = i then some .abort else none
  | _ => none

def see (i : Nat) (w : Fleet) : Option (State × Option Int × Option Bytes × Bytes) :=
  w.sessions[i]?.map observe

/-- The backend of the connection `i` does not fail in the call. -/
def BackendHolds (i : Nat) (w : Fleet) : Event → Prop
  | .call j c io => j = i → ∀ s, w.sessions[j]? = some s → ¬ FailsBackend s.conn io c
  | _ => True

/-- A run after whose last call, the connection `i` has begun an attempt on `b` for a request: it has
contacted the backends `failed` before, and `connect_ex` has returned `err` for `b`. -/
def StartsOn (cfg : Config) (b : Backend) (request : HttpRequest) (err : Nat) (failed : List Backend)
    (i : Nat) (v : Fleet) : Prop :=
  ∃ router events w c io s t, Machine.run (step cfg) (init router) events = some w ∧
    step cfg w (.call i c io) = some v ∧ w.sessions[i]? = some s ∧ v.sessions[i]? = some t ∧
    (dealings t.trace).contacted = failed ++ [b] ∧
    (dealings s.trace).contacted ≠ (dealings t.trace).contacted ∧
    t.conn.parsedRequest = some request ∧ t.conn.state ≠ .done ∧
    (io.connect t.conn.backendAttempts).err = some err

variable {cfg : Config}

/-- What a connection is like at the start of an attempt does not depend on what came before. -/
theorem start_of_startsOn {b : Backend} {request : HttpRequest} {err : Nat} {failed : List Backend}
    {i : Nat} {v : Fleet} (h : StartsOn cfg b request err failed i v) :
    ∃ t, v.sessions[i]? = some t ∧ delivered t.trace = (some [], []) ∧
      t.conn.state = (if err = 0 then .forwardingRequest else .connectingToBackend) ∧
      t.conn.forwardBuf = serialiseRequest request ∧ t.conn.forwardOffset = 0 ∧
      t.conn.clientBytesSent = false ∧ t.conn.FreshResponse := by
  obtain ⟨router, events, w, c, io, s, t, hrun, hcall, hs, ht, -, hgrew, hrequest, hdone, herr⟩ := h
  have hrun' : Machine.run (step cfg) (init router) (events ++ [.call i c io]) = some v := by
    rw [Machine.run_append, hrun, Option.bind_some]
    exact Machine.run_cons_eq_some.mpr ⟨v, hcall, rfl⟩
  have hdealt := dealt_of_run hrun' t (List.mem_of_getElem? ht)
  obtain ⟨s₀, f, hs₀, hends, rfl⟩ := step_call_cases hcall
  obtain rfl := Option.some.inj (hs.symm.trans hs₀)
  obtain rfl := eq_sessionOf_of_put hs ht
  have hanswered : Answered io.connect f := by
    have hpost := hends.of_post ((handle_connects c (w.frame s io)).mono (fun _ h => h)
      fun _ _ => Or.inr (Or.inl rfl))
    rcases hpost with hsame | hdone' | hanswered
    · exact absurd hsame.symm hgrew
    · exact absurd hdone' hdone
    · exact hanswered
  obtain ⟨err', herr', hstate⟩ := hanswered.state
  obtain rfl := Option.some.inj (herr'.symm.trans herr)
  have hstage : f.conn.Trying cfg (dealings f.trace) ∧ f.conn.Sending (dealings f.trace) ∧
      f.conn.FreshResponse := by
    split at hstate
    · rw [sessionOf, Dealt, hstate] at hdealt
      exact hdealt
    · rw [sessionOf, Dealt, hstate] at hdealt
      exact hdealt
  obtain ⟨htrying, hsending, hfresh⟩ := hstage
  refine ⟨sessionOf f, getElem?_put_self hs f, Prod.ext hanswered.accepted htrying.silent, hstate, ?_, ?_,
    htrying.unsent, hfresh⟩
  · obtain ⟨req, hreq, hwritten⟩ := htrying.written
    obtain rfl := Option.some.inj (hreq.symm.trans hrequest)
    exact hwritten
  · obtain ⟨b', sock, -, -, hattempt⟩ := hsending.accepted
    have hnone := hanswered.accepted
    rw [hattempt, Option.map_some, Option.some_inj] at hnone
    have hlength := congrArg List.length hnone
    rw [List.length_take, List.length_nil] at hlength
    have hbounded := hsending.bounded
    change f.conn.forwardOffset = 0
    omega

/-- The connections with the given indices cannot be told apart. -/
def InStep (i i' : Nat) (w w' : Fleet) : Prop :=
  ∃ s s', w.sessions[i]? = some s ∧ w'.sessions[i']? = some s' ∧ s.conn.state ≠ .readingRequest ∧
    Alike s.conn s'.conn ∧ delivered s.trace = delivered s'.trace

theorem InStep.see_eq {i i' : Nat} {w w' : Fleet} (h : InStep i i' w w') : see i w = see i' w' := by
  obtain ⟨s, s', hs, hs', -, halike, hdelivered⟩ := h
  rw [see, see, hs, hs', Option.map_some, Option.map_some, observe, observe, halike.state,
    halike.responseStatus, hdelivered]

/-- An event that a connection does not hear leaves what is seen of it. -/
theorem unheard_step {i : Nat} {w w₁ : Fleet} {s : Session} {e : Event} (hs : w.sessions[i]? = some s)
    (he : heard i e = none) (hstep : step cfg w e = some w₁) :
    ∃ s₁, w₁.sessions[i]? = some s₁ ∧ s₁.conn.state = s.conn.state ∧ Alike s.conn s₁.conn ∧
      s₁.trace = s.trace := by
  obtain ⟨s₁, hs₁, hbecomes⟩ := becomes_of_step hs hstep
  refine ⟨s₁, hs₁, ?_⟩
  cases hbecomes with
  | called hends =>
      rw [heard, if_pos rfl] at he
      cases he
  | aborted =>
      rw [heard, if_pos rfl] at he
      cases he
  | unregistered => exact ⟨rfl, { Alike.refl s.conn with }, rfl⟩
  | kept => exact ⟨rfl, Alike.refl s.conn, rfl⟩

theorem InStep.unheard_left {i i' : Nat} {w w' w₁ : Fleet} {e : Event} (h : InStep i i' w w')
    (he : heard i e = none) (hstep : step cfg w e = some w₁) : InStep i i' w₁ w' := by
  obtain ⟨s, s', hs, hs', hactive, halike, hdelivered⟩ := h
  obtain ⟨s₁, hs₁, hstate, hsame, htrace⟩ := unheard_step hs he hstep
  exact ⟨s₁, s', hs₁, hs', hstate ▸ hactive, hsame.symm.trans halike, htrace ▸ hdelivered⟩

theorem InStep.unheard_right {i i' : Nat} {w w' w₁ : Fleet} {e : Event} (h : InStep i i' w w')
    (he : heard i' e = none) (hstep : step cfg w' e = some w₁) : InStep i i' w w₁ := by
  obtain ⟨s, s', hs, hs', hactive, halike, hdelivered⟩ := h
  obtain ⟨s₁, hs₁, -, hsame, htrace⟩ := unheard_step hs' he hstep
  exact ⟨s, s₁, hs, hs₁, hactive, halike.trans hsame, htrace ▸ hdelivered⟩

/-- Two calls that end in the same way leave connections that cannot be told apart. -/
theorem parallel_of_ends {o o' : Outcome Frame} {f f' : Frame} (h : o.Rel Parallel o') (hf : Ends o f)
    (hf' : Ends o' f') : Parallel f f' := by
  rcases hf with rfl | ⟨f₀, rfl, rfl⟩
  · rcases hf' with rfl | ⟨f₀', rfl, -⟩
    · exact h
    · exact h.elim
  · rcases hf' with rfl | ⟨f₀', rfl, rfl⟩
    · exact h.elim
    · exact Parallel.enter h State.noConfusion

theorem InStep.call {i i' : Nat} {w w' w₁ w₁' : Fleet} {c : Call} {io io' : Io} (h : InStep i i' w w')
    (hholds : BackendHolds i w (.call i c io)) (hio : SameAnswers io io')
    (hstep : step cfg w (.call i c io) = some w₁) (hstep' : step cfg w' (.call i' c io') = some w₁') :
    InStep i i' w₁ w₁' := by
  obtain ⟨s, s', hs, hs', hactive, halike, hdelivered⟩ := h
  obtain ⟨s₀, f, hs₀, hends, rfl⟩ := step_call_cases hstep
  obtain ⟨s₀', f', hs₀', hends', rfl⟩ := step_call_cases hstep'
  obtain rfl := Option.some.inj (hs.symm.trans hs₀)
  obtain rfl := Option.some.inj (hs'.symm.trans hs₀')
  have hrel : (handle cfg c (w.frame s io)).Rel Parallel (handle cfg c (w'.frame s' io')) :=
    handle_parallel (f := w.frame s io) (g := w'.frame s' io') c ⟨halike, hdelivered⟩ hio hactive
      (hholds rfl s hs)
  have hparallel := parallel_of_ends hrel hends hends'
  have hparsed : Parsed s.conn.parsedRequest s.conn.forwardBuf f :=
    hends.of_post ((handle_parsed (f := w.frame s io) c ⟨rfl, rfl, hactive⟩).mono (fun _ h => h)
      fun _ h => h.enter State.noConfusion)
  exact ⟨sessionOf f, sessionOf f', getElem?_put_self hs f, getElem?_put_self hs' f', hparsed.2.2,
    hparallel.toAlike, hparallel.delivered⟩

theorem InStep.abort {i i' : Nat} {w w' : Fleet} (h : InStep i i' w w') :
    InStep i i' (w.markDone i) (w'.markDone i') := by
  obtain ⟨s, s', hs, hs', -, halike, hdelivered⟩ := h
  refine ⟨s.markDone, s'.markDone, ?_, ?_, State.noConfusion, ?_, hdelivered⟩
  · rw [markDone, getElem?_modify_of_some hs, if_pos rfl]
  · rw [markDone, getElem?_modify_of_some hs', if_pos rfl]
  · exact { halike with
      state := rfl
      relay := fun hstate => State.noConfusion hstate }

theorem InStep.heard {i i' : Nat} {w w' w₁ w₁' : Fleet} {e e' : Event} {x : Heard} (h : InStep i i' w w')
    (hholds : BackendHolds i w e) (he : heard i e = some x) (he' : heard i' e' = some x)
    (hstep : step cfg w e = some w₁) (hstep' : step cfg w' e' = some w₁') : InStep i i' w₁ w₁' := by
  unfold Fleet.heard at he he'
  split at he
  · next j c io =>
    obtain ⟨rfl, hx⟩ := Option.ite_none_right_eq_some.mp he
    obtain rfl := Option.some.inj hx
    split at he'
    · next j' c' io' =>
      obtain ⟨rfl, hx'⟩ := Option.ite_none_right_eq_some.mp he'
      injection hx' with hx'
      injection hx' with hc hrecv hsend hsendall hsoError
      subst hc
      exact h.call hholds ⟨hrecv.symm, hsend.symm, hsendall.symm, hsoError.symm⟩ hstep hstep'
    · obtain ⟨-, hx'⟩ := Option.ite_none_right_eq_some.mp he'
      cases hx'
    · cases he'
  · next j =>
    obtain ⟨rfl, hx⟩ := Option.ite_none_right_eq_some.mp he
    obtain rfl := Option.some.inj hx
    split at he'
    · obtain ⟨-, hx'⟩ := Option.ite_none_right_eq_some.mp he'
      cases hx'
    · next j' =>
      obtain ⟨rfl, -⟩ := Option.ite_none_right_eq_some.mp he'
      obtain rfl := Option.some.inj hstep
      obtain rfl := Option.some.inj hstep'
      exact h.abort
    · cases he'
  · cases he

/-- **Failover is transparent.** Let a connection of one run begin an attempt on `b` after any failed
attempts, and let one of another run begin its first attempt, on the same `b` and for the same request,
and let `connect_ex` answer alike. As long as the sockets of the two go on to answer alike and `b` does
not fail, the two show the same states, statuses, bytes to `b` and bytes to the client, whatever else
happens in the two runs. -/
theorem failover_transparent (cfg : Config) {b : Backend} {request : HttpRequest} {err : Nat}
    {failed : List Backend} {i i' : Nat} {v v' u u' : Fleet} {later later' : List Event}
    (hretry : StartsOn cfg b request err failed i v) (hfirst : StartsOn cfg b request err [] i' v')
    (hlater : Machine.run (step cfg) v later = some u)
    (hlater' : Machine.run (step cfg) v' later' = some u')
    (hanswers : later.filterMap (heard i) = later'.filterMap (heard i'))
    (hholds : Machine.Guarded (step cfg) (BackendHolds i) v later) :
    see i v = see i' v' ∧
    Machine.observations (step cfg) (heard i) (see i) v later =
      Machine.observations (step cfg) (heard i') (see i') v' later' := by
  obtain ⟨t, ht, hdelivered, hstate, hbuf, hoffset, hsent, hfresh⟩ := start_of_startsOn hretry
  obtain ⟨t', ht', hdelivered', hstate', hbuf', hoffset', hsent', hfresh'⟩ := start_of_startsOn hfirst
  have hactive : ∀ state, t.conn.state = state → state ≠ .connectingToBackend →
      state ≠ .forwardingRequest → False := by
    intro state heq hconnecting hforwarding
    rw [hstate] at heq
    split at heq
    · exact hforwarding heq.symm
    · exact hconnecting heq.symm
  have halike : Alike t.conn t'.conn :=
    { state := hstate.trans hstate'.symm
      forwardBuf := hbuf.trans hbuf'.symm
      forwardOffset := hoffset.trans hoffset'.symm
      responseBuf := hfresh.responseBuf.trans hfresh'.responseBuf.symm
      responseStatus := hfresh.responseStatus.trans hfresh'.responseStatus.symm
      responseHeadersDone := hfresh.responseHeadersDone.trans hfresh'.responseHeadersDone.symm
      responseContentLength := hfresh.responseContentLength.trans hfresh'.responseContentLength.symm
      responseIsChunked := hfresh.responseIsChunked.trans hfresh'.responseIsChunked.symm
      clientBytesSent := hsent.trans hsent'.symm
      relay := fun h => (hactive _ h State.noConfusion State.noConfusion).elim }
  have hinstep : InStep i i' v v' :=
    ⟨t, t', ht, ht', fun h => hactive _ h State.noConfusion State.noConfusion, halike,
      hdelivered.trans hdelivered'.symm⟩
  refine ⟨hinstep.see_eq, ?_⟩
  exact Machine.observations_eq (InStep i i') (fun _ _ _ _ h he hstep => h.unheard_left he hstep)
    (fun _ _ _ _ h he hstep => h.unheard_right he hstep)
    (fun _ _ _ _ _ _ _ h hholds he he' hstep hstep' =>
      have hnext := h.heard hholds he he' hstep hstep'
      ⟨hnext, hnext.see_eq⟩)
    hinstep hholds hlater hlater' hanswers

/-- The answers during a call in which a request arrives and the first `connect_ex` returns `err`. -/
def connecting (err : Nat) : Io :=
  { quiet with
    recv := .data (PyText.ascii "GET / HTTP/1.1\r\n\r\n")
    connect := fun n => .errno (8 + n) (if n = 1 then err else 0) }

def accepted (router : Router) : Fleet := (init router).accept .default 7 (PyText.ascii "10.0.0.1", 50000) []

/-- The backend answers in full. -/
def answered : List Event :=
  [.call 0 .backendWritable { quiet with send := .sent 4096 },
    .call 0 .backendReadable
      { quiet with recv := .data (PyText.ascii "HTTP/1.1 200 OK\r\nContent-Length: 0\r\n\r\n") },
    .call 0 .clientWritable { quiet with send := .sent 4096 }]

theorem startsOn_accepted (router : Router) (err n : Nat) (b : Backend) (failed : List Backend)
    (request : HttpRequest) (herr : ((connecting err).connect n).err = some 0)
    (hview : ((step .default (accepted router) (.call 0 .clientReadable (connecting err))).bind fun v =>
        v.sessions[0]?.map fun t => ((dealings t.trace).contacted, t.conn.parsedRequest,
          decide (t.conn.state = .done), t.conn.backendAttempts)) =
      some (failed ++ [b], some request, false, n)) :
    ∃ v, step .default (accepted router) (.call 0 .clientReadable (connecting err)) = some v ∧
      StartsOn .default b request 0 failed 0 v := by
  obtain ⟨v, hcall, hsession⟩ := Option.bind_eq_some_iff.mp hview
  obtain ⟨t, ht, heq⟩ := Option.map_eq_some_iff.mp hsession
  simp only [Prod.mk.injEq, decide_eq_false_iff_not] at heq
  obtain ⟨hcontacted, hrequest, hdone, hattempts⟩ := heq
  refine ⟨v, hcall, router, [.accept 7 (PyText.ascii "10.0.0.1", 50000) []], accepted router, .clientReadable,
    connecting err, _, t, rfl, hcall, rfl, ht, hcontacted, ?_, hrequest, hdone, hattempts ▸ herr⟩
  rw [hcontacted]
  exact (List.append_ne_nil_of_right_ne_nil failed (List.cons_ne_nil b [])).symm

theorem failover_transparent_refusedOnce : ∃ request v v' u u',
    StartsOn .default ⟨"127.0.0.1", 9002⟩ request 0 [localBackend] 0 v ∧
    StartsOn .default ⟨"127.0.0.1", 9002⟩ request 0 [] 0 v' ∧
    Machine.run (step .default) v answered = some u ∧ Machine.run (step .default) v' answered = some u' ∧
    see 0 v = see 0 v' ∧
    Machine.observations (step .default) (heard 0) (see 0) v answered =
      Machine.observations (step .default) (heard 0) (see 0) v' answered := by
  let b : Backend := ⟨"127.0.0.1", 9002⟩
  let request : HttpRequest := injectForwardedFor
    ⟨PyText.ascii "GET", PyText.ascii "/", PyText.ascii "HTTP/1.1", Dict.empty, [],
      PyText.ascii "GET / HTTP/1.1\r\n\r\n", 18⟩ (PyText.ascii "10.0.0.1")
  have halone : (((step .default (accepted (.roundRobin (.init [b])))
      (.call 0 .clientReadable (connecting 0))).bind fun v => Machine.run (step .default) v answered).isSome) := by
    decide +kernel
  have hrefused : (((step .default (accepted twoBackends)
      (.call 0 .clientReadable (connecting 111))).bind fun v => Machine.run (step .default) v answered).isSome) := by
    decide +kernel
  obtain ⟨v, hv, hretry⟩ := startsOn_accepted twoBackends 111 2 b [localBackend] request rfl
    (by decide +kernel)
  obtain ⟨v', hv', hfirst⟩ := startsOn_accepted (.roundRobin (.init [b])) 0 1 b [] request rfl
    (by decide +kernel)
  rw [hv, Option.bind_some] at hrefused
  rw [hv', Option.bind_some] at halone
  obtain ⟨u, hu⟩ := Option.isSome_iff_exists.mp hrefused
  obtain ⟨u', hu'⟩ := Option.isSome_iff_exists.mp halone
  have hholds : Machine.Guarded (step .default) (BackendHolds 0) v answered :=
    Machine.guarded_of_mem (by simp [answered, BackendHolds, FailsBackend, quiet, PyText.ascii]) v
  obtain ⟨hsee, hobservations⟩ := failover_transparent .default hretry hfirst hu hu' rfl hholds
  exact ⟨request, v, v', u, u', hretry, hfirst, hu, hu', hsee, hobservations⟩

end Fleet

end LoadBalancer
