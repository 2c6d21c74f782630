import LoadBalancer.ProtocolRuns

/-! Every client that stays gets an answer. Whatever the backends do, and however the calls of all
connections interleave, a connection ends with its whole response relayed or with a whole error response,
unless the client hangs up, its time runs out in the middle of a response, or an exception escapes. -/

namespace LoadBalancer

open Outcome Protocol

/-- The client has the whole of one answer: of the response, which is logged, or of an error. -/
def AnsweredInFull (relayBuf : Bytes) (trace : List Action) : Prop :=
  (accessLog trace ≠ [] ∧ (exchange trace).errors = [] ∧ (exchange trace).relayed = relayBuf) ∨
    ∃ code reason, (exchange trace).relayed = [] ∧
      (exchange trace).errors = [(code, reason, errorResponse code reason)]

/-- The client takes what it is sent and does not hang up, no exception escapes, and no timeout strikes in
the middle of a response. The backends are free. -/
structure Attended (c : ProxyConnection) (call : Call) (io : Io) : Prop where
  sendall : io.sendall = .sent
  connect : ∀ n, ∃ fd err, io.connect n = .errno fd err
  soError : io.soError ≠ .raises
  recv : io.recv ≠ .raises
  send : io.send ≠ .raises
  clientRecv : call = .clientReadable → io.recv ≠ .osError ∧ io.recv ≠ .data []
  clientSend : call = .clientWritable → io.send ≠ .osError
  inTime : call = .timeout → c.state ≠ .done → c.clientBytesSent = false

section Handlers

variable {cfg : Config} {f : Frame}

/-- A connection that is over has been answered. -/
def Settled (f : Frame) : Prop := f.conn.state = .done → AnsweredInFull f.conn.relayBuf f.trace

/-- An error could be answered now, and would get through. -/
structure Answerable (f : Frame) : Prop where
  silent : (exchange f.trace).Silent
  sendall : f.io.sendall = .sent
  connect : ∀ n, ∃ fd err, f.io.connect n = .errno fd err

theorem settled_of_state {s : State} (h : f.conn.state = s) (hs : s ≠ .done) : Settled f :=
  fun hdone => absurd (h.symm.trans hdone) hs

/-- An error that gets through is an answer. -/
theorem Answerable.sendError (h : Answerable f) (code : Nat) (reason : String) :
    (sendError code reason f).Post Settled fun _ => False := by
  unfold LoadBalancer.sendError
  rw [h.sendall]
  intro _
  refine Or.inr ⟨code, reason, ?_, ?_⟩
  · rw [exchange_finish]
    show (exchange (f.trace ++ [.errorSent code reason (errorResponse code reason)])).relayed = []
    rw [exchange_concat]
    exact h.silent.relayed
  · rw [exchange_finish]
    show (exchange (f.trace ++ [.errorSent code reason (errorResponse code reason)])).errors = _
    rw [exchange_concat, Exchange.record, h.silent.errors]
    rfl

theorem Answerable.of_same {f' : Frame} (h : Answerable f) (htrace : exchange f'.trace = exchange f.trace)
    (hsendall : f'.io.sendall = f.io.sendall) (hconnect : f'.io.connect = f.io.connect) : Answerable f' where
  silent := htrace ▸ h.silent
  sendall := hsendall.trans h.sendall
  connect := hconnect ▸ h.connect

theorem Answerable.begin (h : Answerable f) : Answerable (beginConnect cfg f) :=
  h.of_same (congrArg exchange (refreshDeadline_trace _ _)) (refreshDeadline_sendall _ _)
    (beginConnect_connect _ _)

theorem Answerable.opened (h : Answerable f) (b : Backend) (fd : Nat) : Answerable (openBackendSock b fd f) where
  silent := by
    show (exchange (f.trace ++ [.connect b (f.os.newSock fd)])).Silent
    rw [exchange_concat]
    exact ⟨h.silent.relayed, h.silent.errors⟩
  sendall := h.sendall
  connect := h.connect

theorem Answerable.abandoned (h : Answerable f) : Answerable (abandonBackend f) :=
  h.of_same (exchange_abandonBackend f) (abandonBackend_sendall f) (abandonBackend_connect f)

theorem Answerable.picked (h : Answerable f) (exclude : Option (Finset Backend)) :
    Answerable (f.nextBackend exclude).2 :=
  h.of_same (exchange_nextBackend f exclude) rfl rfl

theorem failover_answers :
    (∀ b f, Answerable f → (initiateBackendConnect cfg b f).Post Settled fun _ => False) ∧
    ∀ f, Answerable f → (failBackend cfg f).Post Settled fun _ => False := by
  apply failover_post
  case noSocket =>
    intro b f h hanswer
    obtain ⟨fd, err, herrno⟩ := h.connect f.conn.backendAttempts
    cases hanswer.symm.trans herrno
  case raises =>
    intro b f fd h hanswer
    obtain ⟨fd', err, herrno⟩ := h.connect f.conn.backendAttempts
    cases hanswer.symm.trans herrno
  case connected =>
    intro b f fd _ _
    apply settled_of_state (s := .forwardingRequest)
    · rw [refreshDeadline_conn]
      rfl
    · decide
  case inProgress =>
    intro b f fd err _ _ _
    apply settled_of_state (s := .connectingToBackend)
    · rw [openBackendSock_conn, beginConnect_conn]
    · decide
  case refused => exact fun b f fd err h _ _ _ => h.begin.opened b fd
  case retry => exact fun b f h _ _ => (h.abandoned.picked _).of_same rfl rfl rfl
  case giveUp =>
    rintro f f' h (rfl | ⟨-, rfl⟩)
    · exact h.abandoned.sendError 502 _
    · exact (h.abandoned.picked _).sendError 502 _

theorem handleTimeout_answers (hstage : OnStage f) (hsettled : Settled f)
    (hattended : Attended f.conn .timeout f.io) : (handleTimeout f).Post Settled fun _ => False := by
  have hanswerable : f.conn.state ≠ .done → Answerable f := fun hdone =>
    ⟨Staged.silent hstage hdone (hattended.inTime rfl hdone), hattended.sendall, hattended.connect⟩
  apply handleTimeout_post
  case ended => exact fun _ => hsettled
  case idle =>
    intro hreading
    exact (hanswerable (by rw [hreading]; decide)).sendError 408 _
  case relaying =>
    intro hdone hsent
    cases (hattended.inTime rfl hdone).symm.trans hsent
  case unanswered => exact fun hdone _ => (hanswerable hdone).sendError 504 _

theorem handleClientReadable_answers (hstage : OnStage f) (hsettled : Settled f)
    (hattended : Attended f.conn .clientReadable f.io) :
    (handleClientReadable cfg f).Post Settled fun _ => False := by
  have hgrown : ∀ bytes, f.conn.state = .readingRequest → Answerable (receiveRequest cfg bytes f) := by
    intro bytes hstate
    have hsilent : (exchange f.trace).Silent := by
      rw [OnStage, Staged, hstate] at hstage
      exact hstage.1.silent
    have hanswerable : Answerable f := ⟨hsilent, hattended.sendall, hattended.connect⟩
    exact hanswerable.of_same (congrArg exchange (refreshDeadline_trace _ _)) (refreshDeadline_sendall _ _)
      (refreshDeadline_connect _ _)
  apply handleClientReadable_post
  case ignored => exact fun _ => hsettled
  case blocked => exact fun _ _ => hsettled
  case gone =>
    rintro _ (hrecv | hrecv)
    · exact absurd hrecv (hattended.clientRecv rfl).1
    · exact absurd hrecv (hattended.clientRecv rfl).2
  case raises => exact fun _ hrecv => hattended.recv hrecv
  case tooLarge => exact fun bytes hstate _ _ _ => (hgrown bytes hstate).sendError 413 _
  case incomplete =>
    intro bytes hstate _ _ _
    apply settled_of_state (s := .readingRequest)
    · rw [receiveRequest_conn]
      exact hstate
    · decide
  case complete =>
    intro bytes req hstate _ _ _
    have hstored : Answerable (storeRequest req (receiveRequest cfg bytes f)) :=
      (hgrown bytes hstate).of_same rfl rfl rfl
    apply routeRequest_post
    case unavailable => exact fun _ => (hstored.picked none).sendError 503 _
    case routed =>
      intro b _
      exact failover_answers.1 b _ ((hstored.picked none).of_same rfl rfl rfl)

theorem forwardRequest_answers (hanswerable : Answerable f) (hsend : f.io.send ≠ .raises)
    (hstate : f.conn.state = .forwardingRequest) :
    (forwardRequest cfg f).Post Settled fun _ => False := by
  have hforwarding : State.forwardingRequest ≠ .done := by decide
  apply forwardRequest_post
  case blocked => exact fun _ => settled_of_state hstate hforwarding
  case broken => exact fun _ => failover_answers.2 f hanswerable
  case raises => exact fun hraises => hsend hraises
  case sentAll =>
    intro n accepted _ _ _
    apply settled_of_state (s := .readingResponse)
    · rw [refreshDeadline_conn]
      rfl
    · decide
  case sentSome =>
    intro n accepted _ _ _
    apply settled_of_state (s := .forwardingRequest) _ hforwarding
    rw [recordForwarded_conn]
    exact hstate

theorem handleBackendWritable_answers (hstage : OnStage f) (hsettled : Settled f)
    (hattended : Attended f.conn .backendWritable f.io) :
    (handleBackendWritable cfg f).Post Settled fun _ => False := by
  have hanswerable : f.conn.state = .connectingToBackend ∨ f.conn.state = .forwardingRequest →
      Answerable f := by
    intro hstate
    refine ⟨?_, hattended.sendall, hattended.connect⟩
    rcases hstate with hstate | hstate
    · rw [OnStage, Staged, hstate] at hstage
      exact hstage.silent
    · rw [OnStage, Staged, hstate] at hstage
      exact hstage.silent
  apply handleBackendWritable_post
  case ignored => exact fun _ _ => hsettled
  case raises => exact fun _ hraises => hattended.soError hraises
  case refused => exact fun _ hstate _ _ => failover_answers.2 f (hanswerable (Or.inl hstate))
  case connected =>
    intro hstate _
    apply forwardRequest_answers
    · exact (hanswerable (Or.inl hstate)).of_same (congrArg exchange (refreshDeadline_trace _ _))
        (refreshDeadline_sendall _ _) (refreshDeadline_connect _ _)
    · rw [refreshDeadline_send]
      exact hattended.send
    · rw [refreshDeadline_conn]
      rfl
  case forwarding =>
    exact fun hstate => forwardRequest_answers (hanswerable (Or.inr hstate)) hattended.send hstate

theorem settled_prepareRelay : Settled (prepareRelay cfg f) := by
  apply settled_of_state (s := .forwardingResponse)
  · rw [prepareRelay_conn]
  · decide

theorem handleBackendReadable_answers (hstage : OnStage f) (hsettled : Settled f)
    (hattended : Attended f.conn .backendReadable f.io) :
    (handleBackendReadable cfg f).Post Settled fun _ => False := by
  have hanswerable : f.conn.state = .readingResponse → ∀ bytes,
      Answerable f ∧ Answerable (f.log (.backendReceived bytes)) := by
    intro hstate bytes
    rw [OnStage, Staged, hstate] at hstage
    refine ⟨⟨hstage.silent, hattended.sendall, hattended.connect⟩, ?_, hattended.sendall, hattended.connect⟩
    rw [log_trace, exchange_concat]
    exact ⟨hstage.silent.relayed, hstage.silent.errors⟩
  apply handleBackendReadable_post
  case ignored => exact fun _ => hsettled
  case blocked => exact fun _ _ => hsettled
  case broken => exact fun hstate _ => failover_answers.2 f (hanswerable hstate []).1
  case raises => exact fun _ hraises => hattended.recv hraises
  case closed =>
    intro hstate _
    apply backendClosed_post
    case cutOff => exact fun _ _ => failover_answers.2 _ (hanswerable hstate []).2
    case relay => exact settled_prepareRelay
  case received =>
    intro bytes hstate _ _
    apply checkComplete_post
    case stay =>
      intro received
      apply settled_of_state (s := .readingResponse)
      · exact (receiveResponse_log cfg f bytes).1.trans hstate
      · decide
    case relay => exact fun _ _ _ => settled_prepareRelay

/-- A connection that ends with a request and a backend to name is logged. -/
theorem accessLog_finish {req : HttpRequest} {b : Backend} (hreq : f.conn.parsedRequest = some req)
    (haddr : f.conn.backendAddr = some b) : accessLog (finish f).trace ≠ [] := by
  obtain ⟨latency, hlogged⟩ := logAccess_trace (f := f.readClock) hreq haddr
  rw [finish_trace, accessLog_releaseSlot, hlogged, accessLog_concat]
  exact List.append_ne_nil_of_right_ne_nil _ (List.cons_ne_nil _ _)

theorem handleClientWritable_answers (hstage : OnStage f) (hfollows : Follows cfg f) (hsettled : Settled f)
    (hattended : Attended f.conn .clientWritable f.io) :
    (handleClientWritable cfg f).Post Settled fun _ => False := by
  apply handleClientWritable_post
  case ignored => exact fun _ => hsettled
  case blocked => exact fun _ _ => hsettled
  case gone => exact fun _ hsend => absurd hsend (hattended.clientSend rfl)
  case raises => exact fun _ hsend => hattended.send hsend
  case sentAll =>
    rintro n _ hstate hsend rfl hall
    have hrelaying : Relaying f.conn.backendAddr f.conn.relayBuf f.conn.relayOffset f.conn.clientBytesSent
        (exchange f.trace) := by
      rw [OnStage, Staged, hstate] at hstage
      exact hstage
    have hsent := relaying_recordRelayed cfg n hrelaying
    obtain ⟨phase, -, hagrees⟩ := hfollows
    rw [Agrees, hstate] at hagrees
    obtain ⟨req, b, hserves⟩ := hagrees
    have hconn := recordRelayed_conn cfg f ((f.conn.relayBuf.drop f.conn.relayOffset).take n)
    have hlogged : accessLog
        (finish (recordRelayed cfg ((f.conn.relayBuf.drop f.conn.relayOffset).take n) f)).trace ≠ [] := by
      apply accessLog_finish (b := b)
      · rw [hconn]
        exact hserves.parsedRequest
      · rw [hconn]
        exact hserves.backendAddr
    intro _
    refine Or.inl ⟨hlogged, ?_, ?_⟩
    · rw [exchange_finish]
      exact hsent.errors
    · rw [exchange_finish, finish_conn]
      exact hsent.relayed.trans (List.take_of_length_le (by rw [hconn]; exact hall))
  case sentSome =>
    intro n accepted hstate _ _ _
    apply settled_of_state (s := .forwardingResponse)
    · rw [recordRelayed_conn]
      exact hstate
    · decide

theorem handle_answers (c : Call) (hstage : OnStage f) (hfollows : Follows cfg f) (hsettled : Settled f)
    (hattended : Attended f.conn c f.io) : (handle cfg c f).Post Settled fun _ => False := by
  cases c with
  | timeout => exact handleTimeout_answers hstage hsettled hattended
  | clientReadable => exact handleClientReadable_answers hstage hsettled hattended
  | clientWritable => exact handleClientWritable_answers hstage hfollows hsettled hattended
  | backendReadable => exact handleBackendReadable_answers hstage hsettled hattended
  | backendWritable => exact handleBackendWritable_answers hstage hsettled hattended

end Handlers

/-! ### Runs -/

namespace Fleet

variable {cfg : Config} {w : Fleet} {router : Router} {events : List Event}

/-- **Every client is answered.** In a run in which the clients stay and no exception escapes, with any
backend failures at any point, any health changes and any interleaving, each connection that is over has
been answered in full: with all of its response, which is logged, or with a whole error response. -/
theorem answered_of_run
    (hguard : Machine.Guarded (step cfg) (Meets Attended fun c => c.state = .done) (init router) events)
    (hrun : Machine.run (step cfg) (init router) events = some w) :
    ∀ s ∈ w.sessions, s.conn.state = .done → AnsweredInFull s.conn.relayBuf s.trace := by
  have hall := session_invariant_of_guarded
    (fun s => Staged s.conn (LoadBalancer.exchange s.trace) ∧
      (∃ phase, Leads cfg s.conn.clientAddr s.trace phase ∧ Agrees s.conn phase) ∧
      (s.conn.state = .done → AnsweredInFull s.conn.relayBuf s.trace))
    (fun _ _ _ _ => ⟨⟨⟨⟨rfl, rfl⟩, rfl⟩, rfl⟩, ⟨.reading, .nil, rfl, rfl, rfl, rfl, rfl, rfl, rfl⟩,
      State.noConfusion⟩)
    ?_ ?_ (fun _ h => h) (fun s hs => absurd hs List.not_mem_nil) hguard hrun
  · exact fun s hs => (hall s hs).2.2
  · rintro c f ⟨hstage, hfollows, hsettled⟩ hattended
    have hrelay : (handle cfg c f).Post OnStage Ended := handle_relay c hstage
    have hpost := (hrelay.and (handle_follows c hfollows)).and
      (handle_answers c hstage hfollows hsettled hattended)
    exact hpost.mono (fun _ ⟨⟨hstage, hfollows⟩, hsettled⟩ => ⟨hstage, hfollows, hsettled⟩)
      fun _ h => h.2.elim
  · rintro s ⟨hstage, ⟨phase, hleads, hagrees⟩, hsettled⟩ hdone
    have hdelivered : Delivered s.conn.backendAddr s.conn.relayBuf (LoadBalancer.exchange s.trace) :=
      Staged.delivered hstage
    exact ⟨hdelivered, ⟨phase, hleads, hagrees.named⟩, fun _ => hsettled hdone⟩

/-- The first backend refuses the request, and the second answers it. -/
def answeredBySecond : List Event := refusedOnce ++ (oneRequest (.sent 4096)).drop 3

theorem answered_of_run_answeredBySecond : ∃ w,
    Machine.run (step .default) (init twoBackends) answeredBySecond = some w ∧
    w.sessions.map (fun s => decide (s.conn.state = .done)) = [true] ∧
    ∀ s ∈ w.sessions, s.conn.state = .done → AnsweredInFull s.conn.relayBuf s.trace := by
  obtain ⟨w, hrun, hdone⟩ := Option.map_eq_some_iff.mp (show
    (Machine.run (step .default) (init twoBackends) answeredBySecond).map
      (fun w => w.sessions.map fun s => decide (s.conn.state = .done)) = some [true] by decide +kernel)
  have hguard : ∀ e ∈ answeredBySecond, ∀ w, Meets Attended (fun c => c.state = .done) w e := by
    have hattended : ∀ (io : Io) (call : Call), call ≠ .timeout → io.sendall = .sent →
        (∀ n, ∃ fd err, io.connect n = .errno fd err) → io.soError ≠ .raises →
        (io.recv = .blocked ∨ ∃ b bytes, io.recv = .data (b :: bytes)) →
        (io.send = .blocked ∨ ∃ n, io.send = .sent n) → ∀ c, Attended c call io := by
      rintro io call hcall hsendall hconnect hso hrecv hsend c
      refine ⟨hsendall, hconnect, hso, ?_, ?_, ?_, ?_, fun h => absurd h hcall⟩
      · rcases hrecv with h | ⟨b, bytes, h⟩ <;> simp [h]
      · rcases hsend with h | ⟨n, h⟩ <;> simp [h]
      · rcases hrecv with h | ⟨b, bytes, h⟩ <;> simp [h]
      · rcases hsend with h | ⟨n, h⟩ <;> simp [h]
    simp only [answeredBySecond, refusedOnce, oneRequest, List.drop, List.cons_append, List.nil_append,
      List.forall_mem_cons]
    refine ⟨fun _ => trivial, fun _ _ _ => hattended _ _ ?_ rfl ?_ ?_ ?_ ?_ _,
      fun _ _ _ => hattended _ _ ?_ rfl ?_ ?_ ?_ ?_ _, fun _ _ _ => hattended _ _ ?_ rfl ?_ ?_ ?_ ?_ _,
      fun _ _ _ => hattended _ _ ?_ rfl ?_ ?_ ?_ ?_ _, List.forall_mem_nil _⟩ <;>
      simp [quiet, PyText.ascii]
  exact ⟨w, hrun, hdone, answered_of_run (Machine.guarded_of_mem hguard _) hrun⟩

end Fleet

end LoadBalancer
