import LoadBalancer.Fleet
import LoadBalancer.HandlerRules

/-! What a client is sent over the whole life of its connection: bytes of one response, from the backend
of the last attempt and in order, or one error response, and never some of both. -/

namespace LoadBalancer

open Outcome

/-! ### The exchange that a trace describes -/

/-- The bytes of `relay_buf` that the client accepted, the error responses that were sent to it, and the
last connect with what has been received since. -/
structure Exchange where
  relayed : Bytes
  errors : List (Nat × String × Bytes)
  attempt : Option (Backend × Bytes)

namespace Exchange

def start : Exchange := ⟨[], [], none⟩

def record (x : Exchange) : Action → Exchange
  | .clientSent bytes => { x with relayed := x.relayed ++ bytes }
  | .errorSent code reason bytes => { x with errors := x.errors ++ [(code, reason, bytes)] }
  | .connect backend _ => { x with attempt := some (backend, []) }
  | .backendReceived bytes =>
      { x with attempt := x.attempt.map fun attempt => (attempt.1, attempt.2 ++ bytes) }
  | _ => x

/-- Nothing has been sent to the client. -/
structure Silent (x : Exchange) : Prop where
  relayed : x.relayed = []
  errors : x.errors = []

/-- A part of the response, or of one error response. -/
def Unmixed (x : Exchange) (relayBuf : Bytes) : Prop :=
  (x.errors = [] ∧ x.relayed <+: relayBuf) ∨
    (x.relayed = [] ∧ ∃ code reason bytes,
      x.errors = [(code, reason, bytes)] ∧ bytes <+: errorResponse code reason)

/-- What is relayed has been received since the last connect, from the backend assigned now. -/
def FromBackend (x : Exchange) (backendAddr : Option Backend) (relayBuf : Bytes) : Prop :=
  relayBuf = [] ∨ ∃ backend received,
    x.attempt = some (backend, received) ∧ backendAddr = some backend ∧ relayBuf <+: received

end Exchange

def exchange (trace : List Action) : Exchange := trace.foldl Exchange.record .start

@[simp] theorem exchange_concat (trace : List Action) (a : Action) :
    exchange (trace ++ [a]) = (exchange trace).record a := by
  rw [exchange, List.foldl_append]
  rfl

section Operations

variable (f : Frame)

@[simp] theorem exchange_nextBackend (exclude : Option (Finset Backend)) :
    exchange (f.nextBackend exclude).2.trace = exchange f.trace := by
  rw [Frame.nextBackend, log_trace, exchange_concat]
  rfl

@[simp] theorem exchange_releaseSlot : exchange f.releaseSlot.trace = exchange f.trace := by
  unfold Frame.releaseSlot
  split
  · rfl
  · split
    · rfl
    · rw [log_trace, exchange_concat]
      rfl

@[simp] theorem exchange_logAccess : exchange (logAccess f).trace = exchange f.trace := by
  unfold logAccess
  split
  · rw [log_trace, exchange_concat]
    rfl
  · rfl

@[simp] theorem exchange_finish : exchange (finish f).trace = exchange f.trace := by
  have h := exchange_releaseSlot (logAccess f.readClock)
  rw [exchange_logAccess] at h
  exact h

@[simp] theorem exchange_abandonBackend : exchange (abandonBackend f).trace = exchange f.trace := by
  rw [abandonBackend, noteTried_trace, closeBackend_trace, exchange_releaseSlot]

end Operations

/-! ### Stages -/

/-- No response yet and nothing sent. -/
structure Untouched (relayBuf : Bytes) (x : Exchange) : Prop where
  silent : x.Silent
  relayBuf : relayBuf = []

/-- An attempt is under way: the response buffer has all that its backend sent. -/
structure Attempting (backendAddr : Option Backend) (responseBuf relayBuf : Bytes) (x : Exchange) : Prop
    extends Untouched relayBuf x where
  attempt : ∃ backend, backendAddr = some backend ∧ x.attempt = some (backend, responseBuf)

structure Relaying (backendAddr : Option Backend) (relayBuf : Bytes) (relayOffset : Nat)
    (clientBytesSent : Bool) (x : Exchange) : Prop where
  errors : x.errors = []
  relayed : x.relayed = relayBuf.take relayOffset
  origin : x.FromBackend backendAddr relayBuf
  flag : clientBytesSent = false → x.relayed = []

/-- What holds of every connection at any time. -/
structure Delivered (backendAddr : Option Backend) (relayBuf : Bytes) (x : Exchange) : Prop where
  unmixed : x.Unmixed relayBuf
  origin : x.FromBackend backendAddr relayBuf

def Staged (c : ProxyConnection) (x : Exchange) : Prop :=
  match c.state with
  | .readingRequest => Untouched c.relayBuf x ∧ c.responseBuf = []
  | .connectingToBackend | .forwardingRequest | .readingResponse =>
      Attempting c.backendAddr c.responseBuf c.relayBuf x
  | .forwardingResponse => Relaying c.backendAddr c.relayBuf c.relayOffset c.clientBytesSent x
  | .done => Delivered c.backendAddr c.relayBuf x

section Stages

variable {c : ProxyConnection} {x : Exchange}

theorem Untouched.delivered {relayBuf : Bytes} (h : Untouched relayBuf x)
    (backendAddr : Option Backend) : Delivered backendAddr relayBuf x where
  unmixed := Or.inl ⟨h.silent.errors, by rw [h.silent.relayed]; exact List.nil_prefix⟩
  origin := Or.inl h.relayBuf

theorem Relaying.delivered {backendAddr : Option Backend} {relayBuf : Bytes} {relayOffset : Nat}
    {clientBytesSent : Bool} (h : Relaying backendAddr relayBuf relayOffset clientBytesSent x) :
    Delivered backendAddr relayBuf x where
  unmixed := Or.inl ⟨h.errors, by rw [h.relayed]; exact List.take_prefix _ _⟩
  origin := h.origin

theorem Staged.delivered (h : Staged c x) : Delivered c.backendAddr c.relayBuf x := by
  unfold Staged at h
  split at h
  · exact h.1.delivered _
  · exact h.delivered _
  · exact h.delivered _
  · exact h.delivered _
  · exact h.delivered
  · exact h

/-- Without `_client_bytes_sent`, nothing has been sent to a client that is still served. -/
theorem Staged.silent (h : Staged c x) (hdone : c.state ≠ .done) (hsent : c.clientBytesSent = false) :
    x.Silent := by
  unfold Staged at h
  split at h
  · exact h.1.silent
  · exact h.silent
  · exact h.silent
  · exact h.silent
  · exact ⟨h.flag hsent, h.errors⟩
  · next hstate => exact absurd hstate hdone

end Stages

/-! ### Handlers -/

section Handlers

variable {cfg : Config} {f : Frame}

/-- The connection is at one of the stages. -/
def OnStage (f : Frame) : Prop := Staged f.conn (exchange f.trace)

/-- The connection can be given up. -/
def Ended (f : Frame) : Prop := Delivered f.conn.backendAddr f.conn.relayBuf (exchange f.trace)

theorem Ended.setDone (h : Ended f) : OnStage (f.setState .done) := h

theorem OnStage.refreshDeadline (h : OnStage f) (cfg : Config) : OnStage (refreshDeadline cfg f) := by
  rw [OnStage, refreshDeadline_conn, refreshDeadline_trace]
  exact h

theorem Ended.finish (h : Ended f) : OnStage (finish f) := by
  rw [OnStage, finish_conn, exchange_finish]
  exact h

/-- The only way to send an error response: to a client that has been sent nothing. -/
theorem Ended.errorSent (code : Nat) (reason : String) (hsilent : (exchange f.trace).Silent)
    (horigin : (exchange f.trace).FromBackend f.conn.backendAddr f.conn.relayBuf) {bytes : Bytes}
    (hbytes : bytes <+: errorResponse code reason) : Ended (f.log (.errorSent code reason bytes)) := by
  rw [Ended, log_trace, exchange_concat]
  refine ⟨Or.inr ⟨hsilent.relayed, code, reason, bytes, ?_, hbytes⟩, horigin⟩
  rw [Exchange.record, hsilent.errors, List.nil_append]

theorem sendError_relay (code : Nat) (reason : String) (hsilent : (exchange f.trace).Silent)
    (horigin : (exchange f.trace).FromBackend f.conn.backendAddr f.conn.relayBuf) :
    (sendError code reason f).Post OnStage Ended := by
  unfold sendError
  split
  · exact Ended.finish (Ended.errorSent code reason hsilent horigin List.prefix_rfl)
  · exact Ended.finish (Ended.errorSent code reason hsilent horigin (List.take_prefix _ _))
  · exact Ended.errorSent code reason hsilent horigin (List.take_prefix _ _)

theorem sendError_untouched (code : Nat) (reason : String) (h : Untouched f.conn.relayBuf (exchange f.trace)) :
    (sendError code reason f).Post OnStage Ended :=
  sendError_relay code reason h.silent (Or.inl h.relayBuf)

/-- An attempt starts with nothing sent and an empty response buffer, and one that fails leaves
nothing sent. -/
theorem failover_relay :
    (∀ b f, Untouched f.conn.relayBuf (exchange f.trace) ∧ f.conn.backendAddr = some b ∧
        f.conn.responseBuf = [] →
      (initiateBackendConnect cfg b f).Post OnStage Ended) ∧
    ∀ f, Untouched f.conn.relayBuf (exchange f.trace) → (failBackend cfg f).Post OnStage Ended := by
  have hbegin : ∀ {f : Frame}, Untouched f.conn.relayBuf (exchange f.trace) →
      Untouched (beginConnect cfg f).conn.relayBuf (exchange (beginConnect cfg f).trace) := by
    intro f h
    rw [beginConnect_conn, beginConnect, refreshDeadline_trace]
    exact ⟨h.silent, h.relayBuf⟩
  have hopen : ∀ {b f} (fd), Untouched f.conn.relayBuf (exchange f.trace) → f.conn.backendAddr = some b →
      f.conn.responseBuf = [] →
      let opened := openBackendSock b fd (beginConnect cfg f)
      Attempting opened.conn.backendAddr opened.conn.responseBuf opened.conn.relayBuf
        (exchange opened.trace) := by
    intro b f fd h haddr hbuf opened
    obtain ⟨hsilent, hrelay⟩ := hbegin h
    have htrace : exchange opened.trace =
        { exchange (beginConnect cfg f).trace with attempt := some (b, []) } := exchange_concat _ _
    have haddr' : opened.conn.backendAddr = some b := by
      rw [openBackendSock_conn, beginConnect_conn]
      exact haddr
    have hbuf' : opened.conn.responseBuf = [] := by
      rw [openBackendSock_conn, beginConnect_conn]
      exact hbuf
    rw [htrace]
    exact ⟨⟨⟨hsilent.relayed, hsilent.errors⟩, hrelay⟩, b, haddr', by rw [hbuf']⟩
  have hfailed : ∀ {f : Frame}, Untouched f.conn.relayBuf (exchange f.trace) →
      Untouched (abandonBackend f).conn.relayBuf (exchange (abandonBackend f).trace) := by
    intro f h
    rw [abandonBackend_conn, exchange_abandonBackend]
    exact ⟨h.silent, h.relayBuf⟩
  apply failover_post
  case noSocket => exact fun b f h _ => (hbegin h.1).delivered _
  case raises => exact fun b f fd h _ => (hopen fd h.1 h.2.1 h.2.2).delivered _
  case connected =>
    intro b f fd h _
    exact OnStage.refreshDeadline (f := (openBackendSock b fd (beginConnect cfg f)).setState .forwardingRequest)
      (hopen fd h.1 h.2.1 h.2.2) cfg
  case inProgress =>
    intro b f fd err h _ _
    have hattempt := hopen fd h.1 h.2.1 h.2.2
    have hstate : (openBackendSock b fd (beginConnect cfg f)).conn.state = .connectingToBackend := by
      rw [openBackendSock_conn, beginConnect_conn]
    rw [OnStage, Staged, hstate]
    exact hattempt
  case refused => exact fun b f fd err h _ _ _ => (hopen fd h.1 h.2.1 h.2.2).toUntouched
  case retry =>
    intro b f h _ picked _
    refine ⟨?_, rfl, rfl⟩
    rw [resetForRetry, update_trace, exchange_nextBackend]
    exact ⟨(hfailed h).silent, (hfailed h).relayBuf⟩
  case giveUp =>
    rintro f f' h (rfl | ⟨-, rfl⟩)
    · exact sendError_untouched 502 _ (hfailed h)
    · refine sendError_untouched 502 _ ?_
      rw [exchange_nextBackend, nextBackend_conn]
      exact hfailed h

theorem handleTimeout_relay (h : OnStage f) : (handleTimeout f).Post OnStage Ended := by
  apply handleTimeout_post
  case ended => exact fun _ => h
  case idle =>
    intro hreading
    rw [OnStage, Staged, hreading] at h
    exact sendError_untouched 408 _ h.1
  case relaying =>
    intro _ _
    refine Ended.setDone ?_
    rw [Ended, releaseSlot_conn, exchange_releaseSlot]
    exact Staged.delivered h
  case unanswered =>
    intro hdone hunsent
    exact sendError_relay 504 _ (Staged.silent h hdone hunsent) (Staged.delivered h).origin

theorem routeRequest_relay (req : HttpRequest) (huntouched : Untouched f.conn.relayBuf (exchange f.trace))
    (hresponse : f.conn.responseBuf = []) : (routeRequest cfg req f).Post OnStage Ended := by
  have hpicked : Untouched f.conn.relayBuf
      (exchange ((storeRequest req f).nextBackend none).2.trace) := by
    rw [exchange_nextBackend]
    exact huntouched
  apply routeRequest_post
  case unavailable => exact fun _ => sendError_untouched 503 _ hpicked
  case routed => exact fun _ _ => failover_relay.1 _ _ ⟨hpicked, rfl, hresponse⟩

theorem handleClientReadable_relay (h : OnStage f) :
    (handleClientReadable cfg f).Post OnStage Ended := by
  have hended : Ended f := Staged.delivered h
  have hgrown : f.conn.state = .readingRequest → ∀ bytes,
      Untouched (receiveRequest cfg bytes f).conn.relayBuf (exchange (receiveRequest cfg bytes f).trace) ∧
        (receiveRequest cfg bytes f).conn.responseBuf = [] := by
    intro hstate bytes
    rw [OnStage, Staged, hstate] at h
    rw [receiveRequest, refreshDeadline_conn, refreshDeadline_trace]
    exact h
  apply handleClientReadable_post
  case ignored => exact fun _ => h
  case blocked => exact fun _ _ => h
  case gone => exact fun _ _ => hended.setDone
  case raises => exact fun _ _ => hended
  case tooLarge => exact fun bytes hstate _ _ _ => sendError_untouched 413 _ (hgrown hstate bytes).1
  case incomplete =>
    intro bytes _ _ _ _
    refine OnStage.refreshDeadline ?_ cfg
    exact h
  case complete =>
    exact fun bytes req hstate _ _ _ => routeRequest_relay req (hgrown hstate bytes).1 (hgrown hstate bytes).2

theorem forwardRequest_relay (h : OnStage f) (hstate : f.conn.state = .forwardingRequest) :
    (forwardRequest cfg f).Post OnStage Ended := by
  have hattempt : Attempting f.conn.backendAddr f.conn.responseBuf f.conn.relayBuf (exchange f.trace) := by
    rw [OnStage, Staged, hstate] at h
    exact h
  have hsent : ∀ accepted, exchange (recordForwarded cfg accepted f).trace = exchange f.trace := by
    intro accepted
    rw [recordForwarded_trace, exchange_concat]
    rfl
  apply forwardRequest_post
  case blocked => exact fun _ => h
  case broken => exact fun _ => failover_relay.2 f hattempt.toUntouched
  case raises => exact fun _ => hattempt.delivered _
  case sentAll =>
    intro _ accepted _ _ _
    refine OnStage.refreshDeadline ?_ cfg
    rw [OnStage, setState_conn, recordForwarded_conn, setState_trace, hsent]
    exact hattempt
  case sentSome =>
    intro _ accepted _ _ _
    rw [OnStage, recordForwarded_conn, hsent]
    exact h

theorem handleBackendWritable_relay (h : OnStage f) :
    (handleBackendWritable cfg f).Post OnStage Ended := by
  have hattempt : f.conn.state = .connectingToBackend →
      Attempting f.conn.backendAddr f.conn.responseBuf f.conn.relayBuf (exchange f.trace) := by
    intro hstate
    rw [OnStage, Staged, hstate] at h
    exact h
  apply handleBackendWritable_post
  case ignored => exact fun _ _ => h
  case raises => exact fun hstate _ => (hattempt hstate).delivered _
  case refused => exact fun _ hstate _ _ => failover_relay.2 f (hattempt hstate).toUntouched
  case connected =>
    intro hstate _
    refine forwardRequest_relay (OnStage.refreshDeadline ?_ cfg) ?_
    · exact hattempt hstate
    · rw [refreshDeadline_conn]
      rfl
  case forwarding => exact forwardRequest_relay h

/-- Relaying starts from what an attempt has received. -/
theorem onStage_prepareRelay (backend : Backend) (received : Bytes)
    (huntouched : Untouched f.conn.relayBuf (exchange f.trace))
    (hattempt : (exchange f.trace).attempt = some (backend, received))
    (haddr : f.conn.backendAddr = some backend) (hbuf : f.conn.responseBuf <+: received) :
    OnStage (prepareRelay cfg f) := by
  refine OnStage.refreshDeadline ?_ cfg
  exact ⟨huntouched.silent.errors, huntouched.silent.relayed,
    Or.inr ⟨backend, received, hattempt, haddr, hbuf⟩, fun _ => huntouched.silent.relayed⟩

theorem handleBackendReadable_relay (h : OnStage f) :
    (handleBackendReadable cfg f).Post OnStage Ended := by
  have hattempt : f.conn.state = .readingResponse →
      Attempting f.conn.backendAddr f.conn.responseBuf f.conn.relayBuf (exchange f.trace) := by
    intro hstate
    rw [OnStage, Staged, hstate] at h
    exact h
  -- what is received goes to the attempt, and nothing of it to the client yet
  have hlogged : f.conn.state = .readingResponse → ∀ bytes, ∃ backend, f.conn.backendAddr = some backend ∧
      exchange (f.log (.backendReceived bytes)).trace =
        { exchange f.trace with attempt := some (backend, f.conn.responseBuf ++ bytes) } ∧
      Untouched f.conn.relayBuf (exchange (f.log (.backendReceived bytes)).trace) := by
    intro hstate bytes
    obtain ⟨huntouched, backend, haddr, hreceived⟩ := hattempt hstate
    have hrecorded : exchange (f.log (.backendReceived bytes)).trace =
        { exchange f.trace with attempt := some (backend, f.conn.responseBuf ++ bytes) } := by
      rw [log_trace, exchange_concat, Exchange.record, hreceived]
      rfl
    refine ⟨backend, haddr, hrecorded, ?_⟩
    rw [hrecorded]
    exact ⟨⟨huntouched.silent.relayed, huntouched.silent.errors⟩, huntouched.relayBuf⟩
  apply handleBackendReadable_post
  case ignored => exact fun _ => h
  case blocked => exact fun _ _ => h
  case broken => exact fun hstate _ => failover_relay.2 f (hattempt hstate).toUntouched
  case raises => exact fun hstate _ => (hattempt hstate).delivered _
  case closed =>
    intro hstate _
    obtain ⟨backend, haddr, hrecorded, huntouched⟩ := hlogged hstate []
    apply backendClosed_post
    case cutOff => exact fun _ _ => failover_relay.2 _ huntouched
    case relay =>
      exact onStage_prepareRelay backend (f.conn.responseBuf ++ []) huntouched (by rw [hrecorded]) haddr
        (List.prefix_append _ _)
  case received =>
    intro bytes hstate _ _
    obtain ⟨backend, haddr, hrecorded, huntouched⟩ := hlogged hstate bytes
    have hgrown := receiveResponse_conn cfg (f.log (.backendReceived bytes)) bytes
    have htrace : (receiveResponse cfg bytes (f.log (.backendReceived bytes))).trace =
        (f.log (.backendReceived bytes)).trace := refreshDeadline_trace _ _
    apply checkComplete_post
    case stay =>
      intro received
      rw [hrecorded] at huntouched
      rw [OnStage, update_conn, update_trace, htrace, hgrown, hrecorded, Staged]
      rw [log_conn, hstate]
      exact ⟨huntouched, backend, haddr, rfl⟩
    case relay =>
      intro received buf hbuf
      refine onStage_prepareRelay backend (f.conn.responseBuf ++ bytes) ?_ ?_ ?_ ?_
      · rw [update_conn, update_trace, htrace, hgrown]
        exact huntouched
      · rw [update_trace, htrace, hrecorded]
      · rw [update_conn, hgrown]
        exact haddr
      · rw [hgrown] at hbuf
        exact hbuf

/-- A `send` to the client moves on by what it accepted. -/
theorem relaying_recordRelayed (cfg : Config) (n : Nat)
    (h : Relaying f.conn.backendAddr f.conn.relayBuf f.conn.relayOffset f.conn.clientBytesSent
      (exchange f.trace)) :
    let f' := recordRelayed cfg ((f.conn.relayBuf.drop f.conn.relayOffset).take n) f
    Relaying f'.conn.backendAddr f'.conn.relayBuf f'.conn.relayOffset f'.conn.clientBytesSent
      (exchange f'.trace) := by
  intro f'
  have htrace : exchange f'.trace = (exchange f.trace).record
      (.clientSent ((f.conn.relayBuf.drop f.conn.relayOffset).take n)) := by
    rw [recordRelayed_trace, exchange_concat]
  have hconn := recordRelayed_conn cfg f ((f.conn.relayBuf.drop f.conn.relayOffset).take n)
  rw [htrace, hconn]
  refine ⟨h.errors, ?_, h.origin, fun hflag => ?_⟩
  · change (exchange f.trace).relayed ++ _ = _
    rw [h.relayed, List.take_add, ← List.prefix_iff_eq_take.mp (List.take_prefix n _)]
  · rw [Bool.or_eq_false_iff, decide_eq_false_iff_not, not_not] at hflag
    change (exchange f.trace).relayed ++ _ = _
    rw [h.flag hflag.1, hflag.2]
    rfl

theorem handleClientWritable_relay (h : OnStage f) :
    (handleClientWritable cfg f).Post OnStage Ended := by
  have hended : Ended f := Staged.delivered h
  have hsent : f.conn.state = .forwardingResponse → ∀ n,
      let f' := recordRelayed cfg ((f.conn.relayBuf.drop f.conn.relayOffset).take n) f
      Relaying f'.conn.backendAddr f'.conn.relayBuf f'.conn.relayOffset f'.conn.clientBytesSent
        (exchange f'.trace) := by
    intro hstate n
    rw [OnStage, Staged, hstate] at h
    exact relaying_recordRelayed cfg n h
  apply handleClientWritable_post
  case ignored => exact fun _ => h
  case blocked => exact fun _ _ => h
  case gone => exact fun _ _ => hended.setDone
  case raises => exact fun _ _ => hended
  case sentAll =>
    rintro n _ hstate _ rfl _
    exact Ended.finish (hsent hstate n).delivered
  case sentSome =>
    rintro n accepted hstate _ haccepted _
    have hstate' : (recordRelayed cfg accepted f).conn.state = .forwardingResponse := by
      rw [recordRelayed_conn]
      exact hstate
    rw [OnStage, Staged, hstate', haccepted]
    exact hsent hstate n

/-- A `send` after which the connection is `DONE` was the last one needed. -/
theorem handleClientWritable_finishes (cfg : Config) (h : OnStage f)
    (hstate : f.conn.state = .forwardingResponse)
    {n : Nat} (hsend : f.io.send = .sent n) :
    (handleClientWritable cfg f).Post
      (fun f' => f'.conn.state = .done → (exchange f'.trace).relayed = f'.conn.relayBuf)
      fun _ => False := by
  rw [OnStage, Staged, hstate] at h
  have hsent := relaying_recordRelayed cfg n h
  unfold handleClientWritable
  rw [if_neg (not_not.mpr hstate), hsend]
  dsimp only
  split
  · next hall =>
    intro _
    rw [exchange_finish, finish_conn]
    exact hsent.relayed.trans (List.take_of_length_le hall)
  · intro hdone
    rw [recordRelayed_conn] at hdone
    cases hstate.symm.trans hdone

theorem handle_relay (c : Call) (h : OnStage f) : (handle cfg c f).Post OnStage Ended := by
  cases c with
  | timeout => exact handleTimeout_relay h
  | clientReadable => exact handleClientReadable_relay h
  | clientWritable => exact handleClientWritable_relay h
  | backendReadable => exact handleBackendReadable_relay h
  | backendWritable => exact handleBackendWritable_relay h

end Handlers

/-! ### Runs -/

namespace Fleet

variable {cfg : Config}

/-- Every connection is at one of the stages after every run. -/
theorem staged_of_run {router : Router} {events : List Event} {w : Fleet}
    (hrun : Machine.run (step cfg) (init router) events = some w) :
    ∀ s ∈ w.sessions, Staged s.conn (exchange s.trace) := by
  refine session_invariant (fun s => Staged s.conn (exchange s.trace)) ?_ ?_ ?_ (fun _ h => h)
    (by rintro s ⟨⟩) hrun
  · exact fun _ _ _ _ => ⟨⟨⟨rfl, rfl⟩, rfl⟩, rfl⟩
  · exact fun c f h => (handle_relay c h).mono (fun _ hret => hret) fun _ hexc => hexc
  · exact fun s h => h.delivered

/-- **No mixture.** In every run, what a client has been sent is a prefix of `relay_buf` or of one error
response, and of nothing else; `relay_buf` has only bytes received since the last connect, from the
backend assigned now. When a `send` to the client leaves a connection `DONE` that was relaying, the
client has been sent all of `relay_buf`. -/
theorem client_gets_no_mixture (cfg : Config) (router : Router) {events : List Event} {w : Fleet}
    (hrun : Machine.run (step cfg) (init router) events = some w) :
    (∀ s ∈ w.sessions,
      (exchange s.trace).Unmixed s.conn.relayBuf ∧
      (exchange s.trace).FromBackend s.conn.backendAddr s.conn.relayBuf) ∧
    ∀ i s io n w', w.sessions[i]? = some s → s.conn.state = .forwardingResponse → io.send = .sent n →
      step cfg w (.call i .clientWritable io) = some w' →
      ∃ s', w'.sessions[i]? = some s' ∧
        (s'.conn.state = .done → (exchange s'.trace).relayed = s'.conn.relayBuf) := by
  have hstaged := staged_of_run hrun
  refine ⟨fun s hs => ⟨(hstaged s hs).delivered.unmixed, (hstaged s hs).delivered.origin⟩, ?_⟩
  intro i s io n w' hs hstate hsend hstep
  obtain ⟨s₀, f, hs₀, hends, rfl⟩ := step_call_cases hstep
  obtain rfl := Option.some.inj (hs.symm.trans hs₀)
  have hpost := handleClientWritable_finishes cfg (f := w.frame s io)
    (hstaged s (List.mem_of_getElem? hs)) hstate hsend
  obtain ⟨hlt, -⟩ := List.getElem?_eq_some_iff.mp hs
  refine ⟨⟨f.conn, f.trace⟩, by simp [put, hlt], ?_⟩
  exact hends.of_post (P := fun f => f.conn.state = .done → (exchange f.trace).relayed = f.conn.relayBuf)
    (hpost.mono (fun _ hret => hret) fun _ hexc => hexc.elim)

theorem client_gets_no_mixture_oneRequest : ∃ w,
    Machine.run (step .default) (init (.leastConnections (.init [localBackend])))
      (oneRequest (.sent 20)) = some w ∧
    (∀ s ∈ w.sessions,
      (exchange s.trace).Unmixed s.conn.relayBuf ∧
      (exchange s.trace).FromBackend s.conn.backendAddr s.conn.relayBuf) ∧
    ∀ i s io n w', w.sessions[i]? = some s → s.conn.state = .forwardingResponse → io.send = .sent n →
      step .default w (.call i .clientWritable io) = some w' →
      ∃ s', w'.sessions[i]? = some s' ∧
        (s'.conn.state = .done → (exchange s'.trace).relayed = s'.conn.relayBuf) := by
  obtain ⟨w, hrun⟩ : ∃ w, Machine.run (step .default)
      (init (.leastConnections (.init [localBackend]))) (oneRequest (.sent 20)) = some w :=
    Option.isSome_iff_exists.mp (by decide +kernel)
  exact ⟨w, hrun, client_gets_no_mixture .default _ hrun⟩

end Fleet

end LoadBalancer
