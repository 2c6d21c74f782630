import LoadBalancer.Attempts
import LoadBalancer.Protocol
import LoadBalancer.ResponseCuts

/-! Every connection keeps to the protocol. What it has done leads to a phase, and while it is served its
buffers and flags say which. The access log is read off the phases. -/

namespace LoadBalancer

open PyText ListSearch Outcome Protocol

/-! ### The status of a response -/

/-- A response that is cut at the end of its framing keeps its status line. -/
theorem parseResponseStatus_take_framed (buf : Bytes) (n : Nat) :
    parseResponseStatus (buf.take (buf.length - (responseBody buf).length + n)) = parseResponseStatus buf := by
  cases hfind : find headerDelim buf with
  | none =>
      rw [responseBody, hfind, List.take_of_length_le (by simp)]
  | some hdrEnd =>
      have hle := add_length_le_of_find hfind
      have hbody : buf.length - (responseBody buf).length = hdrEnd + headerDelim.length := by
        rw [responseBody, hfind, List.length_drop]
        omega
      have hheader : (find headerDelim (buf.take (hdrEnd + headerDelim.length))).isSome := by
        rw [(find_take_eq_some_iff hle).mpr ⟨hfind, le_rfl⟩]
        rfl
      obtain ⟨stop, hstop⟩ := Option.isSome_iff_exists.mp (isSome_find_line_of_header hheader)
      have hcut : ∀ k, hdrEnd + headerDelim.length ≤ k →
          parseResponseStatus (buf.take k) =
            parseResponseStatus (buf.take (hdrEnd + headerDelim.length)) := by
        intro k hk
        have hsplit : buf.take k = buf.take (hdrEnd + headerDelim.length) ++
            (buf.drop (hdrEnd + headerDelim.length)).take (k - (hdrEnd + headerDelim.length)) := by
          rw [← List.take_add, Nat.add_sub_cancel' hk]
        rw [hsplit, parseResponseStatus_append hstop]
      calc parseResponseStatus (buf.take (buf.length - (responseBody buf).length + n))
          = parseResponseStatus (buf.take (hdrEnd + headerDelim.length)) := hcut _ (by omega)
        _ = parseResponseStatus (buf.take buf.length) := (hcut _ hle).symm
        _ = parseResponseStatus buf := by rw [List.take_length]

/-- `checkComplete_post` with the status of what is relayed. -/
theorem checkComplete_status {cfg : Config} {f : Frame} {ret exc : Frame → Prop}
    (stay : ∀ received, ret (f.update fun c => { c with responseBodyReceived := received }))
    (relay : ∀ received buf, buf <+: f.conn.responseBuf →
      parseResponseStatus buf = parseResponseStatus f.conn.responseBuf →
      ret (prepareRelay cfg (f.update fun c =>
        { c with responseBodyReceived := received, responseBuf := buf }))) :
    (checkComplete cfg f).Post ret exc := by
  unfold checkComplete
  split
  · exact stay f.conn.responseBodyReceived
  · dsimp only
    split
    · split
      · trivial
      · exact stay f.conn.responseBodyReceived
      · exact relay f.conn.responseBodyReceived _ (List.take_prefix _ _)
          (parseResponseStatus_take_framed _ _)
    · split
      · exact relay _ f.conn.responseBuf List.prefix_rfl rfl
      · exact stay _

/-! ### What the operations record -/

section Records

variable {f : Frame} {b : Backend}

theorem releaseSlot_trace_of_held (haddr : f.conn.backendAddr = some b)
    (hheld : f.conn.disconnectNotified = false) :
    ∃ count, f.releaseSlot.trace = f.trace ++ [.onDisconnect b count] := by
  rw [Frame.releaseSlot, haddr]
  dsimp only
  rw [if_neg (by rw [hheld]; exact Bool.false_ne_true)]
  exact ⟨_, rfl⟩

theorem releaseSlot_trace_of_notified (h : f.conn.disconnectNotified = true) :
    f.releaseSlot.trace = f.trace := by
  unfold Frame.releaseSlot
  split
  · rfl
  · rw [if_pos h]

theorem releaseSlot_trace_of_unassigned (h : f.conn.backendAddr = none) : f.releaseSlot.trace = f.trace := by
  rw [Frame.releaseSlot, h]

theorem logAccess_trace_of_unassigned (h : f.conn.backendAddr = none) : (logAccess f).trace = f.trace := by
  unfold logAccess
  split
  · next hsome =>
    rw [h] at hsome
    cases hsome
  · rfl

theorem logAccess_trace {req : HttpRequest} (hreq : f.conn.parsedRequest = some req)
    (haddr : f.conn.backendAddr = some b) :
    ∃ latency, (logAccess f).trace =
      f.trace ++ [.accessLog f.conn.clientAddr b req.method req.path req.version
        (f.conn.responseStatus.getD 0) latency] := by
  rw [logAccess, hreq, haddr]
  exact ⟨_, rfl⟩

theorem accessLog_releaseSlot (f : Frame) : accessLog f.releaseSlot.trace = accessLog f.trace := by
  unfold Frame.releaseSlot
  split
  · rfl
  · split
    · rfl
    · exact (accessLog_concat _ _).trans (List.append_nil _)

end Records

/-! ### Connections and phases -/

/-- The backend `b` is tried for `req`, after those of `tried`, and its slot is held. -/
structure Busy (parsedRequest : Option HttpRequest) (backendAddr : Option Backend)
    (triedBackends : Finset Backend) (backendAttempts : Nat) (forwardBuf : Bytes)
    (clientBytesSent disconnectNotified : Bool) (req : HttpRequest) (tried : Finset Backend) (b : Backend) :
    Prop where
  parsedRequest : parsedRequest = some req
  backendAddr : backendAddr = some b
  triedBackends : triedBackends = tried
  fresh : b ∉ tried
  counted : backendAttempts = tried.card + 1
  forwardBuf : forwardBuf = serialiseRequest req
  unsent : clientBytesSent = false
  held : disconnectNotified = false

/-- No request has been read. -/
structure Idle (parsedRequest : Option HttpRequest) (backendAddr : Option Backend)
    (triedBackends : Finset Backend) (responseBuf : Bytes) (responseStatus : Option Int)
    (clientBytesSent : Bool) : Prop where
  parsedRequest : parsedRequest = none
  backendAddr : backendAddr = none
  triedBackends : triedBackends = ∅
  responseBuf : responseBuf = []
  responseStatus : responseStatus = none
  unsent : clientBytesSent = false

/-- A response is relayed: nothing of it has been accepted yet, or a part. -/
structure Serves (parsedRequest : Option HttpRequest) (backendAddr : Option Backend)
    (responseStatus : Option Int) (relayBuf : Bytes) (relayOffset : Nat)
    (clientBytesSent disconnectNotified : Bool) (phase : Phase) (req : HttpRequest) (b : Backend) : Prop where
  parsedRequest : parsedRequest = some req
  backendAddr : backendAddr = some b
  held : disconnectNotified = false
  status : responseStatus = (parseResponseStatus relayBuf).map Prod.fst
  begun : (relayOffset = 0 ∧ clientBytesSent = false ∧
      ∃ tried received, phase = .receiving req tried b received ∧ relayBuf <+: received) ∨
    (phase = .relaying req b relayBuf (relayBuf.take relayOffset) ∧
      relayOffset < relayBuf.length ∧ clientBytesSent = decide (relayOffset ≠ 0))

/-- What the phase tells of a connection that is over. -/
def Protocol.Phase.Names (parsedRequest : Option HttpRequest) (backendAddr : Option Backend)
    (relayBuf : Bytes) : Phase → Prop
  | .relaying _ _ response relayed | .dropped _ _ response relayed =>
      relayBuf = response ∧ relayed ≠ response
  | .logged req b verdict _ => parsedRequest = some req ∧ backendAddr = some b ∧
      ∀ bytes, verdict = .response bytes → relayBuf = bytes
  | _ => True

namespace ProxyConnection

variable (c : ProxyConnection)

def Busy : HttpRequest → Finset Backend → Backend → Prop :=
  LoadBalancer.Busy c.parsedRequest c.backendAddr c.triedBackends c.backendAttempts c.forwardBuf
    c.clientBytesSent c.disconnectNotified

def Idle : Prop :=
  LoadBalancer.Idle c.parsedRequest c.backendAddr c.triedBackends c.responseBuf c.responseStatus
    c.clientBytesSent

def Serves : Phase → HttpRequest → Backend → Prop :=
  LoadBalancer.Serves c.parsedRequest c.backendAddr c.responseStatus c.relayBuf c.relayOffset
    c.clientBytesSent c.disconnectNotified

def IsNamed (phase : Phase) : Prop := phase.Names c.parsedRequest c.backendAddr c.relayBuf

end ProxyConnection

/-- The connection is where the phase says. -/
def Agrees (c : ProxyConnection) (phase : Phase) : Prop :=
  match c.state with
  | .readingRequest => phase = .reading ∧ c.Idle
  | .connectingToBackend | .forwardingRequest => ∃ req tried b,
      phase = .sending req tried b (c.forwardBuf.take c.forwardOffset) ∧ c.Busy req tried b ∧
        c.responseBuf = [] ∧ c.responseStatus = none
  | .readingResponse => ∃ req tried b,
      ((phase = .sending req tried b (serialiseRequest req) ∧ c.responseBuf = []) ∨
        phase = .receiving req tried b c.responseBuf) ∧
        c.Busy req tried b ∧ c.responseStatus = (parseResponseStatus c.responseBuf).map Prod.fst
  | .forwardingResponse => ∃ req b, c.Serves phase req b
  | .done => c.IsNamed phase

section Agrees

variable {c : ProxyConnection} {phase : Phase}

theorem ProxyConnection.Serves.named {req : HttpRequest} {b : Backend} (h : c.Serves phase req b) :
    c.IsNamed phase := by
  rcases h.begun with ⟨-, -, tried, received, rfl, -⟩ | ⟨rfl, hlt, -⟩
  · trivial
  · refine ⟨rfl, fun hwhole => ?_⟩
    have hlength := congrArg List.length hwhole
    rw [List.length_take] at hlength
    omega

theorem Agrees.named (h : Agrees c phase) : c.IsNamed phase := by
  unfold Agrees at h
  split at h
  · rw [h.1]
    trivial
  · obtain ⟨req, tried, b, rfl, -⟩ := h
    trivial
  · obtain ⟨req, tried, b, rfl, -⟩ := h
    trivial
  · obtain ⟨req, tried, b, ⟨rfl, -⟩ | rfl, -⟩ := h <;> trivial
  · obtain ⟨req, b, hserves⟩ := h
    exact hserves.named
  · exact h

end Agrees

/-! ### Handlers -/

section Handlers

variable {cfg : Config} {f : Frame} {phase : Phase}

/-- What the connection has done leads to a phase that it agrees with. -/
def Follows (cfg : Config) (f : Frame) : Prop :=
  ∃ phase, Leads cfg f.conn.clientAddr f.trace phase ∧ Agrees f.conn phase

/-- What it has done leads to a phase in which it can be given up. -/
def Stops (cfg : Config) (f : Frame) : Prop :=
  ∃ phase, Leads cfg f.conn.clientAddr f.trace phase ∧ f.conn.IsNamed phase

theorem Follows.stops (h : Follows cfg f) : Stops cfg f := by
  obtain ⟨phase, hleads, hagrees⟩ := h
  exact ⟨phase, hleads, hagrees.named⟩

theorem Stops.setDone (h : Stops cfg f) : Follows cfg (f.setState .done) := h

theorem Follows.refreshDeadline (h : Follows cfg f) : Follows cfg (refreshDeadline cfg f) := by
  rw [Follows, refreshDeadline_conn, refreshDeadline_trace]
  exact h

/-! #### Answers -/

/-- The connection has the request and the backend that an error is about. -/
def Entered (f : Frame) : Option (HttpRequest × Backend) → Bool → Prop
  | none, _ => f.conn.backendAddr = none
  | some (req, b), slot => f.conn.parsedRequest = some req ∧ f.conn.backendAddr = some b ∧
      f.conn.disconnectNotified = !slot

theorem finish_trace : (finish f).trace = (logAccess f.readClock).releaseSlot.trace := rfl

/-- An error that has been sent is logged, where there is a request to name, and the slot given back. -/
theorem finish_error {entry : Option (HttpRequest × Backend)} {code : Nat} {slot : Bool}
    (hleads : Leads cfg f.conn.clientAddr f.trace (.answered entry code slot))
    (hentered : Entered f entry slot) (hstatus : f.conn.responseStatus = some (code : Int)) :
    Follows cfg (finish f) := by
  rw [Follows, finish_conn, finish_trace]
  cases entry with
  | none =>
      have haddr : f.conn.backendAddr = none := hentered
      have hlogged : (logAccess f.readClock).trace = f.trace :=
        logAccess_trace_of_unassigned (f := f.readClock) haddr
      have hreleased : (logAccess f.readClock).releaseSlot.trace = f.trace := by
        rw [releaseSlot_trace_of_unassigned, hlogged]
        rw [logAccess_conn]
        exact haddr
      rw [hreleased]
      exact ⟨_, hleads, trivial⟩
  | some entry =>
      obtain ⟨req, b⟩ := entry
      obtain ⟨hreq, haddr, hnotified⟩ := hentered
      obtain ⟨latency, hlogged⟩ := logAccess_trace (f := f.readClock) hreq haddr
      rw [readClock_conn, hstatus] at hlogged
      have hlog : Leads cfg f.conn.clientAddr (f.trace ++ [.accessLog f.conn.clientAddr b req.method
          req.path req.version code latency]) (.logged req b (.error code) slot) := hleads.snoc .logError
      have hline : (logAccess f.readClock).trace = f.trace ++ [.accessLog f.conn.clientAddr b req.method
          req.path req.version code latency] := hlogged
      rw [← hline] at hlog
      have hconn : (logAccess f.readClock).conn = f.conn := logAccess_conn _
      cases slot with
      | false =>
          rw [releaseSlot_trace_of_notified (by rw [hconn]; exact hnotified)]
          exact ⟨_, hlog, hreq, haddr, fun _ hbytes => Verdict.noConfusion hbytes⟩
      | true =>
          obtain ⟨count, hreleased⟩ := releaseSlot_trace_of_held (f := logAccess f.readClock)
            (by rw [hconn]; exact haddr) (by rw [hconn]; exact hnotified)
          rw [hreleased]
          exact ⟨_, hlog.snoc .release, hreq, haddr, fun _ hbytes => Verdict.noConfusion hbytes⟩

/-- A response that has been relayed is logged with its status, and the slot given back. -/
theorem finish_response {req : HttpRequest} {b : Backend}
    (hleads : Leads cfg f.conn.clientAddr f.trace (.relaying req b f.conn.relayBuf f.conn.relayBuf))
    (hreq : f.conn.parsedRequest = some req) (haddr : f.conn.backendAddr = some b)
    (hheld : f.conn.disconnectNotified = false)
    (hstatus : f.conn.responseStatus = (parseResponseStatus f.conn.relayBuf).map Prod.fst) :
    Follows cfg (finish f) := by
  obtain ⟨latency, hlogged⟩ := logAccess_trace (f := f.readClock) hreq haddr
  rw [readClock_conn, hstatus] at hlogged
  have hlog : Leads cfg f.conn.clientAddr (f.trace ++ [.accessLog f.conn.clientAddr b req.method
      req.path req.version (statusOf f.conn.relayBuf) latency])
      (.logged req b (.response f.conn.relayBuf) true) := hleads.snoc .logResponse
  have hline : (logAccess f.readClock).trace = f.trace ++ [.accessLog f.conn.clientAddr b req.method
      req.path req.version (statusOf f.conn.relayBuf) latency] := hlogged
  rw [← hline] at hlog
  have hconn : (logAccess f.readClock).conn = f.conn := logAccess_conn _
  obtain ⟨count, hreleased⟩ := releaseSlot_trace_of_held (f := logAccess f.readClock)
    (by rw [hconn]; exact haddr) (by rw [hconn]; exact hheld)
  rw [Follows, finish_conn, finish_trace, hreleased]
  refine ⟨_, hlog.snoc .release, hreq, haddr, ?_⟩
  intro bytes hbytes
  injection hbytes

/-- An error is answered where the protocol allows it. -/
theorem sendError_follows {code : Nat} {reason : String} {entry : Option (HttpRequest × Backend)} {slot : Bool}
    (hleads : Leads cfg f.conn.clientAddr f.trace phase) (hfails : Fails cfg phase code reason entry slot)
    (hentered : Entered f entry slot) : (sendError code reason f).Post (Follows cfg) (Stops cfg) := by
  have hanswered : ∀ bytes, bytes <+: errorResponse code reason →
      Leads cfg f.conn.clientAddr (f.trace ++ [.errorSent code reason bytes])
        (.answered entry code slot) :=
    fun bytes hcut => hleads.snoc (.fail hfails hcut)
  have hentered' : ∀ sent bytes, Entered (((f.update fun c => { c with clientBytesSent := sent }).log
      (.errorSent code reason bytes)).update fun c => { c with responseStatus := some (code : Int) })
      entry slot := by
    intro sent bytes
    cases entry <;> exact hentered
  unfold sendError
  split
  · exact finish_error (f := ((f.update fun c => { c with clientBytesSent := true }).log
      (.errorSent code reason (errorResponse code reason))).update
        fun c => { c with responseStatus := some (code : Int) })
      (hanswered _ List.prefix_rfl) (hentered' true _) rfl
  · exact finish_error (f := (f.log (.errorSent code reason ((errorResponse code reason).take _))).update
        fun c => { c with responseStatus := some (code : Int) })
      (hanswered _ (List.take_prefix _ _)) (hentered' f.conn.clientBytesSent _) rfl
  · exact ⟨_, hanswered _ (List.take_prefix _ _), trivial⟩

/-! #### Attempts -/

/-- The backend `b` has been chosen for an attempt. -/
structure Chosen (cfg : Config) (b : Backend) (f : Frame) : Prop where
  forwardOffset : f.conn.forwardOffset = 0
  responseBuf : f.conn.responseBuf = []
  responseStatus : f.conn.responseStatus = none
  leads : ∃ req tried, Leads cfg f.conn.clientAddr f.trace (.chosen req tried b) ∧ f.conn.Busy req tried b

/-- An attempt is under way. -/
def Trial (cfg : Config) (f : Frame) : Prop :=
  ∃ phase req tried b, Leads cfg f.conn.clientAddr f.trace phase ∧ Attempts phase req tried b ∧
    f.conn.Busy req tried b

theorem Chosen.begin {b : Backend} (h : Chosen cfg b f) : Chosen cfg b (beginConnect cfg f) := by
  obtain ⟨hoffset, hbuf, hstatus, req, tried, hleads, hbusy⟩ := h
  have hconn := beginConnect_conn cfg f
  refine ⟨?_, ?_, ?_, req, tried, ?_, ?_⟩
  · rw [hconn]
    exact hoffset
  · rw [hconn]
    exact hbuf
  · rw [hconn]
    exact hstatus
  · rw [hconn, beginConnect, refreshDeadline_trace]
    exact hleads
  · rw [hconn]
    exact hbusy

theorem Chosen.stops {b : Backend} (h : Chosen cfg b f) : Stops cfg f := by
  obtain ⟨req, tried, hleads, -⟩ := h.leads
  exact ⟨_, hleads, trivial⟩

/-- The connect of an attempt. -/
theorem Chosen.opened {b : Backend} (h : Chosen cfg b f) (fd : Nat) :
    let f' := openBackendSock b fd f
    ∃ req tried, Leads cfg f'.conn.clientAddr f'.trace (.sending req tried b []) ∧
      f'.conn.Busy req tried b ∧ f'.conn.forwardBuf.take f'.conn.forwardOffset = [] ∧
      f'.conn.responseBuf = [] ∧ f'.conn.responseStatus = none := by
  intro f'
  obtain ⟨req, tried, hleads, hbusy⟩ := h.leads
  have hconn : f'.conn = { f.conn with backendSock := some (f.os.newSock fd) } :=
    openBackendSock_conn f b fd
  have htrace : f'.trace = f.trace ++ [.connect b (f.os.newSock fd)] := rfl
  rw [hconn, htrace]
  refine ⟨req, tried, hleads.snoc .connect, hbusy, ?_, h.responseBuf, h.responseStatus⟩
  show f.conn.forwardBuf.take f.conn.forwardOffset = []
  rw [h.forwardOffset, List.take_zero]

/-- The backend of an attempt fails: its slot is given back, and it is not tried again. -/
theorem Trial.abandoned (h : Trial cfg f) : ∃ req tried b,
    Leads cfg (abandonBackend f).conn.clientAddr (abandonBackend f).trace
        (.abandoned req (insert b tried) b) ∧
      f.conn.Busy req tried b ∧ (abandonBackend f).conn.parsedRequest = some req ∧
      (abandonBackend f).conn.backendAddr = some b ∧
      (abandonBackend f).conn.triedBackends = insert b tried ∧
      (abandonBackend f).conn.disconnectNotified = true := by
  obtain ⟨phase, req, tried, b, hleads, hattempts, hbusy⟩ := h
  obtain ⟨count, hreleased⟩ := releaseSlot_trace_of_held hbusy.backendAddr hbusy.held
  have htrace : (abandonBackend f).trace = f.trace ++ [.onDisconnect b count] := by
    rw [abandonBackend, noteTried_trace, closeBackend_trace, hreleased]
  rw [htrace, abandonBackend_conn]
  refine ⟨req, tried, b, hleads.snoc (.abandon hattempts), hbusy, hbusy.parsedRequest, hbusy.backendAddr,
    ?_, ?_⟩
  · show f.conn.backendAddr.elim f.conn.triedBackends (insert · f.conn.triedBackends) = insert b tried
    rw [hbusy.backendAddr, hbusy.triedBackends]
    rfl
  · show (f.conn.disconnectNotified || f.conn.backendAddr.isSome) = true
    rw [hbusy.backendAddr]
    exact Bool.or_true _

theorem canRetry_abandonBackend {req : HttpRequest} {tried : Finset Backend} {b : Backend}
    (h : f.conn.Busy req tried b) :
    canRetry cfg (abandonBackend f).conn = true ↔ MayRetry cfg req (insert b tried) := by
  have hcard : (insert b tried).card = f.conn.backendAttempts := by
    rw [Finset.card_insert_of_notMem h.fresh, h.counted]
  have hattempts : (abandonBackend f).conn.backendAttempts = f.conn.backendAttempts :=
    backendAttempts_abandonBackend f
  have hparsed : (abandonBackend f).conn.parsedRequest = some req := by
    rw [abandonBackend_conn]
    exact h.parsedRequest
  have hunsent : (abandonBackend f).conn.clientBytesSent = false := by
    rw [abandonBackend_conn]
    exact h.unsent
  rw [canRetry, hparsed, hunsent, hattempts, ← hcard]
  by_cases hmethod : upper req.method ∈ cfg.idempotentMethods
  · simp only [Bool.false_eq_true, if_false, hmethod, not_true, decide_eq_true_eq]
    exact ⟨fun hle => ⟨hmethod, hle⟩, MayRetry.allowed⟩
  · simp only [Bool.false_eq_true, if_false, hmethod, not_false_eq_true, if_true, false_iff]
    exact fun hmay => hmethod hmay.idempotent

theorem failover_follows :
    (∀ b f, Chosen cfg b f → (initiateBackendConnect cfg b f).Post (Follows cfg) (Stops cfg)) ∧
    ∀ f, Trial cfg f → (failBackend cfg f).Post (Follows cfg) (Stops cfg) := by
  apply failover_rule (P := fun o => o.Post (Follows cfg) (Stops cfg))
  case noSocket => exact fun b f h _ => h.begin.stops
  case raises =>
    intro b f fd h _
    obtain ⟨req, tried, hleads, -⟩ := h.begin.opened fd
    exact ⟨_, hleads, trivial⟩
  case connected =>
    intro b f fd h _
    obtain ⟨req, tried, hleads, hbusy, hnone, hfresh⟩ := h.begin.opened fd
    refine Follows.refreshDeadline ?_
    exact ⟨_, hleads, req, tried, b, by rw [← hnone]; rfl, hbusy, hfresh⟩
  case inProgress =>
    intro b f fd err h _ _
    obtain ⟨req, tried, hleads, hbusy, hnone, hfresh⟩ := h.begin.opened fd
    have hstate : (openBackendSock b fd (beginConnect cfg f)).conn.state = .connectingToBackend := by
      rw [openBackendSock_conn, beginConnect_conn]
    refine ⟨_, hleads, ?_⟩
    rw [Agrees, hstate]
    exact ⟨req, tried, b, by rw [hnone], hbusy, hfresh⟩
  case refused =>
    intro b f fd err h _ _ _
    obtain ⟨req, tried, hleads, hbusy, -⟩ := h.begin.opened fd
    exact ⟨_, req, tried, b, hleads, .sending, hbusy⟩
  case retry =>
    intro b f h hretry picked hpicked
    obtain ⟨req, tried, failed, hleads, hbusy, hreq, -, htried, -⟩ := h.abandoned
    have hmay := (canRetry_abandonBackend hbusy).mp hretry
    have hfresh : b ∉ insert failed tried := htried ▸ Router.not_mem_of_nextBackend hpicked
    have hconn : picked.2.conn = (abandonBackend f).conn := nextBackend_conn _ _
    have htrace : picked.2.trace = (abandonBackend f).trace ++ [.nextBackend (some b)] := by
      rw [← hpicked]
      rfl
    have hattempts : (abandonBackend f).conn.backendAttempts + 1 = (insert failed tried).card + 1 := by
      rw [backendAttempts_abandonBackend, Finset.card_insert_of_notMem hbusy.fresh, hbusy.counted]
    refine ⟨rfl, rfl, rfl, req, insert failed tried, ?_, ?_⟩
    · rw [resetForRetry, update_conn, update_trace, hconn, htrace]
      exact hleads.snoc (.retry hmay hfresh)
    · rw [resetForRetry, update_conn, hconn]
      refine ⟨hreq, rfl, htried, hfresh, hattempts, ?_, ?_, rfl⟩
      · rw [abandonBackend_conn]
        exact hbusy.forwardBuf
      · rw [abandonBackend_conn]
        exact hbusy.unsent
  case declined =>
    intro f h hretry
    obtain ⟨req, tried, b, hleads, hbusy, hreq, haddr, -, hnotified⟩ := h.abandoned
    have hmayNot : ¬ MayRetry cfg req (insert b tried) := by
      rw [← canRetry_abandonBackend hbusy, hretry]
      exact Bool.false_ne_true
    exact sendError_follows hleads (.abandoned hmayNot) ⟨hreq, haddr, hnotified⟩
  case exhausted =>
    intro f h hretry picked hpicked
    obtain ⟨req, tried, b, hleads, hbusy, hreq, haddr, -, hnotified⟩ := h.abandoned
    have hconn : picked.2.conn = (abandonBackend f).conn := nextBackend_conn _ _
    have htrace : picked.2.trace = (abandonBackend f).trace ++ [.nextBackend none] := by
      rw [← hpicked]
      rfl
    have hexhausted : Leads cfg picked.2.conn.clientAddr picked.2.trace (.exhausted req b) := by
      rw [hconn, htrace]
      exact hleads.snoc (.exhaust ((canRetry_abandonBackend hbusy).mp hretry))
    refine sendError_follows hexhausted .exhausted ?_
    rw [Entered, hconn]
    exact ⟨hreq, haddr, hnotified⟩

/-! #### Calls -/

/-- In a connection that is served, only a response that has been begun has been sent. -/
theorem Agrees.serves {c : ProxyConnection} (h : Agrees c phase) (hdone : c.state ≠ .done)
    (hsent : c.clientBytesSent = true) : ∃ req b, c.Serves phase req b := by
  unfold Agrees at h
  split at h
  · cases h.2.unsent.symm.trans hsent
  · obtain ⟨req, tried, b, -, hbusy, -⟩ := h
    cases hbusy.unsent.symm.trans hsent
  · obtain ⟨req, tried, b, -, hbusy, -⟩ := h
    cases hbusy.unsent.symm.trans hsent
  · obtain ⟨req, tried, b, -, hbusy, -⟩ := h
    cases hbusy.unsent.symm.trans hsent
  · exact h
  · next hstate => exact absurd hstate hdone

/-- A connection that waits for a backend, or for a client that has been sent nothing, can be answered that
this takes too long. -/
theorem Agrees.fails (cfg : Config) {f : Frame} (h : Agrees f.conn phase) (hdone : f.conn.state ≠ .done)
    (hreading : f.conn.state ≠ .readingRequest) (hunsent : f.conn.clientBytesSent = false) :
    ∃ req b, Fails cfg phase 504 "Gateway Timeout" (some (req, b)) true ∧
      Entered f (some (req, b)) true := by
  unfold Agrees at h
  split at h
  · next hstate => exact absurd hstate hreading
  · obtain ⟨req, tried, b, rfl, hbusy, -⟩ := h
    exact ⟨req, b, .sending, hbusy.parsedRequest, hbusy.backendAddr, hbusy.held⟩
  · obtain ⟨req, tried, b, rfl, hbusy, -⟩ := h
    exact ⟨req, b, .sending, hbusy.parsedRequest, hbusy.backendAddr, hbusy.held⟩
  · obtain ⟨req, tried, b, ⟨rfl, -⟩ | rfl, hbusy, -⟩ := h
    · exact ⟨req, b, .sending, hbusy.parsedRequest, hbusy.backendAddr, hbusy.held⟩
    · exact ⟨req, b, .receiving, hbusy.parsedRequest, hbusy.backendAddr, hbusy.held⟩
  · obtain ⟨req, b, hserves⟩ := h
    refine ⟨req, b, ?_, hserves.parsedRequest, hserves.backendAddr, hserves.held⟩
    rcases hserves.begun with ⟨-, -, tried, received, rfl, -⟩ | ⟨rfl, -, hbegun⟩
    · exact .receiving
    · have hoffset : f.conn.relayOffset = 0 := by
        have hzero := hbegun.symm.trans hunsent
        exact not_not.mp (of_decide_eq_false hzero)
      rw [hoffset, List.take_zero]
      exact .relaying
  · next hstate => exact absurd hstate hdone

theorem handleTimeout_follows (h : Follows cfg f) :
    (handleTimeout f).Post (Follows cfg) (Stops cfg) := by
  obtain ⟨phase, hleads, hagrees⟩ := h
  unfold handleTimeout
  split_ifs with hdone hreading hsent
  · exact ⟨phase, hleads, hagrees⟩
  · rw [Agrees, hreading] at hagrees
    obtain ⟨rfl, hidle⟩ := hagrees
    exact sendError_follows hleads .idle hidle.backendAddr
  · obtain ⟨req, b, hserves⟩ := hagrees.serves hdone hsent
    obtain ⟨count, hreleased⟩ := releaseSlot_trace_of_held hserves.backendAddr hserves.held
    rcases hserves.begun with ⟨-, hunsent, -⟩ | ⟨rfl, hlt, hbegun⟩
    · cases hunsent.symm.trans hsent
    · have hoffset : f.conn.relayOffset ≠ 0 := of_decide_eq_true (hbegun.symm.trans hsent)
      have hlength : (f.conn.relayBuf.take f.conn.relayOffset).length = f.conn.relayOffset :=
        List.length_take_of_le (Nat.le_of_lt hlt)
      have hsome : f.conn.relayBuf.take f.conn.relayOffset ≠ [] := by
        rw [← List.length_pos_iff, hlength]
        exact Nat.pos_of_ne_zero hoffset
      have hpart : f.conn.relayBuf.take f.conn.relayOffset ≠ f.conn.relayBuf := by
        intro hwhole
        rw [hwhole] at hlength
        omega
      refine Stops.setDone ?_
      rw [Stops, releaseSlot_conn, hreleased]
      exact ⟨_, hleads.snoc (.drop hsome hpart), rfl, hpart⟩
  · obtain ⟨req, b, hfails, hentered⟩ := hagrees.fails cfg hdone hreading (Bool.eq_false_iff.mpr hsent)
    exact sendError_follows hleads hfails hentered

theorem routeRequest_follows (req : HttpRequest) (hleads : Leads cfg f.conn.clientAddr f.trace .reading)
    (hidle : f.conn.Idle) : (routeRequest cfg req f).Post (Follows cfg) (Stops cfg) := by
  have hconn : ((storeRequest req f).nextBackend none).2.conn = (storeRequest req f).conn :=
    nextBackend_conn _ _
  have htrace : ((storeRequest req f).nextBackend none).2.trace =
      f.trace ++ [.nextBackend ((storeRequest req f).nextBackend none).1] := rfl
  apply routeRequest_post
  case unavailable =>
    intro hnone
    rw [hnone] at htrace
    have hrefused : Leads cfg ((storeRequest req f).nextBackend none).2.conn.clientAddr
        ((storeRequest req f).nextBackend none).2.trace .refused := by
      rw [hconn, htrace]
      exact hleads.snoc .refuse
    refine sendError_follows hrefused .unavailable ?_
    rw [Entered, hconn]
    exact hidle.backendAddr
  case routed =>
    intro b hb
    rw [hb] at htrace
    refine failover_follows.1 _ _ ⟨rfl, hidle.responseBuf, hidle.responseStatus,
      injectForwardedFor req f.conn.clientAddr.1, ∅, ?_, ?_⟩
    · rw [assignFirst, update_trace, htrace]
      exact hleads.snoc .choose
    · exact ⟨rfl, rfl, hidle.triedBackends, Finset.notMem_empty b, rfl, rfl, hidle.unsent, rfl⟩

theorem handleClientReadable_follows (h : Follows cfg f) :
    (handleClientReadable cfg f).Post (Follows cfg) (Stops cfg) := by
  have hstops : Stops cfg f := h.stops
  have hgrown : ∀ bytes, f.conn.state = .readingRequest →
      Leads cfg (receiveRequest cfg bytes f).conn.clientAddr (receiveRequest cfg bytes f).trace .reading ∧
        (receiveRequest cfg bytes f).conn.Idle := by
    intro bytes hstate
    obtain ⟨phase, hleads, hagrees⟩ := h
    rw [Agrees, hstate] at hagrees
    obtain ⟨rfl, hidle⟩ := hagrees
    rw [receiveRequest, refreshDeadline_conn, refreshDeadline_trace]
    exact ⟨hleads, hidle⟩
  apply handleClientReadable_post
  case ignored => exact fun _ => h
  case blocked => exact fun _ _ => h
  case gone => exact fun _ _ => hstops.setDone
  case raises => exact fun _ _ => hstops
  case tooLarge =>
    intro bytes hstate _ _ _
    obtain ⟨hleads, hidle⟩ := hgrown bytes hstate
    exact sendError_follows hleads .tooLarge hidle.backendAddr
  case incomplete =>
    intro bytes _ _ _ _
    refine Follows.refreshDeadline ?_
    exact h
  case complete =>
    intro bytes req hstate _ _ _
    obtain ⟨hleads, hidle⟩ := hgrown bytes hstate
    exact routeRequest_follows req hleads hidle

/-- A `send` to the backend goes on with the request. -/
theorem forwardRequest_follows (h : Follows cfg f) (hstate : f.conn.state = .forwardingRequest) :
    (forwardRequest cfg f).Post (Follows cfg) (Stops cfg) := by
  obtain ⟨phase, hleads, hagrees⟩ := h
  have hstage := hagrees
  rw [Agrees, hstate] at hstage
  obtain ⟨req, tried, b, rfl, hbusy, hbuf, hstatus⟩ := hstage
  have hsent : ∀ n, let accepted := (f.conn.forwardBuf.drop f.conn.forwardOffset).take n
      Leads cfg f.conn.clientAddr (f.trace ++ [.backendSent accepted])
        (.sending req tried b (f.conn.forwardBuf.take (f.conn.forwardOffset + accepted.length))) := by
    intro n accepted
    have htake : f.conn.forwardBuf.take (f.conn.forwardOffset + accepted.length) =
        f.conn.forwardBuf.take f.conn.forwardOffset ++ accepted := by
      rw [List.take_add, ← List.prefix_iff_eq_take.mp (List.take_prefix n _)]
    have hnext : f.conn.forwardBuf.take f.conn.forwardOffset ++ accepted <+: serialiseRequest req := by
      rw [← htake, ← hbusy.forwardBuf]
      exact List.take_prefix _ _
    rw [htake]
    exact hleads.snoc (.send hnext)
  apply forwardRequest_post
  case blocked => exact fun _ => ⟨_, hleads, hagrees⟩
  case broken => exact fun _ => failover_follows.2 f ⟨_, req, tried, b, hleads, .sending, hbusy⟩
  case raises => exact fun _ => ⟨_, hleads, trivial⟩
  case sentAll =>
    rintro n accepted _ rfl hall
    refine Follows.refreshDeadline ?_
    rw [Follows, setState_trace, recordForwarded_trace, setState_conn, recordForwarded_conn]
    refine ⟨_, hsent n, req, tried, b, Or.inl ⟨?_, hbuf⟩, hbusy, ?_⟩
    · rw [List.take_of_length_le hall, hbusy.forwardBuf]
    · show f.conn.responseStatus = (parseResponseStatus f.conn.responseBuf).map Prod.fst
      rw [hstatus, hbuf]
      rfl
  case sentSome =>
    rintro n accepted _ rfl _
    rw [Follows, recordForwarded_trace, recordForwarded_conn]
    refine ⟨_, hsent n, ?_⟩
    rw [Agrees, hstate]
    exact ⟨req, tried, b, rfl, hbusy, hbuf, hstatus⟩

theorem handleBackendWritable_follows (h : Follows cfg f) :
    (handleBackendWritable cfg f).Post (Follows cfg) (Stops cfg) := by
  apply handleBackendWritable_post
  case ignored => exact fun _ _ => h
  case raises => exact fun _ _ => h.stops
  case refused =>
    intro err hstate _ _
    obtain ⟨phase, hleads, hagrees⟩ := h
    rw [Agrees, hstate] at hagrees
    obtain ⟨req, tried, b, rfl, hbusy, -⟩ := hagrees
    exact failover_follows.2 f ⟨_, req, tried, b, hleads, .sending, hbusy⟩
  case connected =>
    intro hstate _
    refine forwardRequest_follows (Follows.refreshDeadline ?_) ?_
    · obtain ⟨phase, hleads, hagrees⟩ := h
      rw [Agrees, hstate] at hagrees
      exact ⟨phase, hleads, hagrees⟩
    · rw [refreshDeadline_conn]
      rfl
  case forwarding => exact forwardRequest_follows h

/-- Relaying starts with a first part of what has been received. -/
theorem prepareRelay_follows {req : HttpRequest} {tried : Finset Backend} {b : Backend} {received : Bytes}
    (hleads : Leads cfg f.conn.clientAddr f.trace (.receiving req tried b received))
    (hbusy : f.conn.Busy req tried b) (hcut : f.conn.responseBuf <+: received)
    (hstatus : f.conn.responseStatus = (parseResponseStatus f.conn.responseBuf).map Prod.fst) :
    Follows cfg (prepareRelay cfg f) := by
  refine Follows.refreshDeadline ?_
  exact ⟨_, hleads, req, b, hbusy.parsedRequest, hbusy.backendAddr, hbusy.held, hstatus,
    Or.inl ⟨rfl, hbusy.unsent, tried, received, rfl, hcut⟩⟩

theorem handleBackendReadable_follows (h : Follows cfg f) :
    (handleBackendReadable cfg f).Post (Follows cfg) (Stops cfg) := by
  have hstage : f.conn.state = .readingResponse → ∃ phase req tried b,
      Leads cfg f.conn.clientAddr f.trace phase ∧ Attempts phase req tried b ∧ f.conn.Busy req tried b ∧
        f.conn.responseStatus = (parseResponseStatus f.conn.responseBuf).map Prod.fst ∧
        ∀ bytes, Leads cfg f.conn.clientAddr (f.trace ++ [.backendReceived bytes])
          (.receiving req tried b (f.conn.responseBuf ++ bytes)) := by
    intro hstate
    obtain ⟨phase, hleads, hagrees⟩ := h
    rw [Agrees, hstate] at hagrees
    obtain ⟨req, tried, b, ⟨rfl, hnone⟩ | rfl, hbusy, hstatus⟩ := hagrees
    · refine ⟨_, req, tried, b, hleads, .sending, hbusy, hstatus, fun bytes => ?_⟩
      rw [hnone]
      exact hleads.snoc .receive
    · exact ⟨_, req, tried, b, hleads, .receiving, hbusy, hstatus, fun bytes => hleads.snoc .receiveMore⟩
  apply handleBackendReadable_post
  case ignored => exact fun _ => h
  case blocked => exact fun _ _ => h
  case broken =>
    intro hstate _
    obtain ⟨phase, req, tried, b, hleads, hattempts, hbusy, -⟩ := hstage hstate
    exact failover_follows.2 f ⟨phase, req, tried, b, hleads, hattempts, hbusy⟩
  case raises => exact fun _ _ => h.stops
  case closed =>
    intro hstate _
    obtain ⟨phase, req, tried, b, -, -, hbusy, hstatus, hreceived⟩ := hstage hstate
    have hclosed := hreceived []
    rw [List.append_nil] at hclosed
    apply backendClosed_post
    case cutOff => exact fun _ _ => failover_follows.2 _ ⟨_, req, tried, b, hclosed, .receiving, hbusy⟩
    case relay => exact prepareRelay_follows hclosed hbusy List.prefix_rfl hstatus
  case received =>
    intro bytes hstate _ _
    obtain ⟨phase, req, tried, b, -, -, hbusy, hstatus, hreceived⟩ := hstage hstate
    have hconn := receiveResponse_conn cfg (f.log (.backendReceived bytes)) bytes
    have hbuf : (receiveResponse cfg bytes (f.log (.backendReceived bytes))).conn.responseBuf =
        f.conn.responseBuf ++ bytes := (receiveResponse_log cfg f bytes).2
    have htrace : (receiveResponse cfg bytes (f.log (.backendReceived bytes))).trace =
        f.trace ++ [.backendReceived bytes] := by
      rw [receiveResponse, update_trace, refreshDeadline_trace]
      rfl
    have hleads : Leads cfg (receiveResponse cfg bytes (f.log (.backendReceived bytes))).conn.clientAddr
        (receiveResponse cfg bytes (f.log (.backendReceived bytes))).trace
        (.receiving req tried b (f.conn.responseBuf ++ bytes)) := by
      rw [hconn, htrace]
      exact hreceived bytes
    have hbusy' : (receiveResponse cfg bytes (f.log (.backendReceived bytes))).conn.Busy req tried b := by
      rw [hconn]
      exact hbusy
    have hstatus' : (receiveResponse cfg bytes (f.log (.backendReceived bytes))).conn.responseStatus =
        (parseResponseStatus (f.conn.responseBuf ++ bytes)).map Prod.fst := by
      rw [responseStatus_receiveResponse, log_conn, hstatus]
      exact laterStatus_append none f.conn.responseBuf bytes
    apply checkComplete_status
    case stay =>
      intro count
      have hstate' : (receiveResponse cfg bytes (f.log (.backendReceived bytes))).conn.state =
          .readingResponse := (receiveResponse_log cfg f bytes).1.trans hstate
      refine ⟨_, hleads, ?_⟩
      rw [Agrees, update_conn, hstate']
      exact ⟨req, tried, b, Or.inr (congrArg _ hbuf.symm), hbusy',
        hstatus'.trans (congrArg (fun buf => (parseResponseStatus buf).map Prod.fst) hbuf.symm)⟩
    case relay =>
      intro count buf hcut hsame
      refine prepareRelay_follows hleads hbusy' (hbuf ▸ hcut) ?_
      show (receiveResponse cfg bytes (f.log (.backendReceived bytes))).conn.responseStatus =
        (parseResponseStatus buf).map Prod.fst
      rw [hstatus', hsame, hbuf]

/-- A `send` to the client goes on with the response. -/
theorem relay_follows {req : HttpRequest} {b : Backend} (hleads : Leads cfg f.conn.clientAddr f.trace phase)
    (hserves : f.conn.Serves phase req b) {n : Nat} {accepted : Bytes}
    (haccepted : accepted = (f.conn.relayBuf.drop f.conn.relayOffset).take n) :
    Leads cfg f.conn.clientAddr (f.trace ++ [.clientSent accepted])
      (.relaying req b f.conn.relayBuf (f.conn.relayBuf.take (f.conn.relayOffset + accepted.length))) := by
  have htake : f.conn.relayBuf.take (f.conn.relayOffset + accepted.length) =
      f.conn.relayBuf.take f.conn.relayOffset ++ accepted := by
    rw [List.take_add, haccepted, ← List.prefix_iff_eq_take.mp (List.take_prefix n _)]
  have hnext : f.conn.relayBuf.take f.conn.relayOffset ++ accepted <+: f.conn.relayBuf := by
    rw [← htake]
    exact List.take_prefix _ _
  rw [htake]
  rcases hserves.begun with ⟨hoffset, -, tried, received, rfl, hcut⟩ | ⟨rfl, -⟩
  · rw [hoffset, List.take_zero, List.nil_append] at hnext ⊢
    exact hleads.snoc (.relay hcut hnext)
  · exact hleads.snoc (.relayMore hnext)

theorem ProxyConnection.Serves.flag {c : ProxyConnection} {req : HttpRequest} {b : Backend}
    (h : c.Serves phase req b) : c.clientBytesSent = decide (c.relayOffset ≠ 0) := by
  rcases h.begun with ⟨hoffset, hunsent, -⟩ | ⟨-, -, hbegun⟩
  · rw [hoffset, hunsent]
    rfl
  · exact hbegun

theorem handleClientWritable_follows (h : Follows cfg f) :
    (handleClientWritable cfg f).Post (Follows cfg) (Stops cfg) := by
  have hstage : f.conn.state = .forwardingResponse → ∃ phase req b,
      Leads cfg f.conn.clientAddr f.trace phase ∧ f.conn.Serves phase req b := by
    intro hstate
    obtain ⟨phase, hleads, hagrees⟩ := h
    rw [Agrees, hstate] at hagrees
    obtain ⟨req, b, hserves⟩ := hagrees
    exact ⟨phase, req, b, hleads, hserves⟩
  apply handleClientWritable_post
  case ignored => exact fun _ => h
  case blocked => exact fun _ _ => h
  case gone => exact fun _ _ => h.stops.setDone
  case raises => exact fun _ _ => h.stops
  case sentAll =>
    intro n accepted hstate _ haccepted hall
    obtain ⟨phase, req, b, hleads, hserves⟩ := hstage hstate
    have hrelayed := relay_follows hleads hserves haccepted
    rw [List.take_of_length_le hall] at hrelayed
    have hconn := recordRelayed_conn cfg f accepted
    have hend : Leads cfg (recordRelayed cfg accepted f).conn.clientAddr
        (recordRelayed cfg accepted f).trace
        (.relaying req b (recordRelayed cfg accepted f).conn.relayBuf
          (recordRelayed cfg accepted f).conn.relayBuf) := by
      rw [recordRelayed_trace, hconn]
      exact hrelayed
    refine finish_response hend ?_ ?_ ?_ ?_
    · rw [hconn]
      exact hserves.parsedRequest
    · rw [hconn]
      exact hserves.backendAddr
    · rw [hconn]
      exact hserves.held
    · rw [hconn]
      exact hserves.status
  case sentSome =>
    intro n accepted hstate _ haccepted hpart
    obtain ⟨phase, req, b, hleads, hserves⟩ := hstage hstate
    rw [Follows, recordRelayed_trace, recordRelayed_conn]
    refine ⟨_, relay_follows hleads hserves haccepted, ?_⟩
    rw [Agrees, hstate]
    refine ⟨req, b, hserves.parsedRequest, hserves.backendAddr, hserves.held, hserves.status,
      Or.inr ⟨rfl, hpart, ?_⟩⟩
    show (f.conn.clientBytesSent || decide (accepted ≠ [])) =
      decide (f.conn.relayOffset + accepted.length ≠ 0)
    rw [hserves.flag, Bool.eq_iff_iff]
    simp only [Bool.or_eq_true, decide_eq_true_eq, ← List.length_pos_iff]
    omega

/-- The call that sends the last of a response, of an empty one nothing at all, writes the line. -/
theorem handleClientWritable_logs (cfg : Config) {f : Frame} (hstate : f.conn.state = .forwardingResponse)
    {n : Nat} (hsend : f.io.send = .sent n) (hall : f.conn.relayBuf.length ≤ f.conn.relayOffset + n)
    {req : HttpRequest} {b : Backend} (hreq : f.conn.parsedRequest = some req)
    (haddr : f.conn.backendAddr = some b) :
    ∃ f', handleClientWritable cfg f = .returned f' ∧ f'.conn.state = .done ∧
      f'.conn.relayBuf = f.conn.relayBuf ∧ accessLog f'.trace ≠ [] := by
  let f₁ := recordRelayed cfg ((f.conn.relayBuf.drop f.conn.relayOffset).take n) f
  have hconn := recordRelayed_conn cfg f ((f.conn.relayBuf.drop f.conn.relayOffset).take n)
  have hend : f₁.conn.relayBuf.length ≤ f₁.conn.relayOffset := by
    rw [hconn]
    dsimp only
    rw [List.length_take, List.length_drop]
    omega
  refine ⟨finish f₁, ?_, ?_, ?_, ?_⟩
  · rw [handleClientWritable, if_neg (not_not.mpr hstate), hsend]
    exact if_pos hend
  · rw [finish_conn]
  · rw [finish_conn, hconn]
  · have hreq₁ : f₁.readClock.conn.parsedRequest = some req := by
      rw [readClock_conn, hconn]
      exact hreq
    have haddr₁ : f₁.readClock.conn.backendAddr = some b := by
      rw [readClock_conn, hconn]
      exact haddr
    obtain ⟨latency, hlogged⟩ := logAccess_trace hreq₁ haddr₁
    rw [finish_trace, accessLog_releaseSlot, hlogged, accessLog_concat]
    exact List.append_ne_nil_of_right_ne_nil _ (List.cons_ne_nil _ _)

/-- Every call keeps to the protocol. -/
theorem handle_follows (c : Call) (h : Follows cfg f) : (handle cfg c f).Post (Follows cfg) (Stops cfg) := by
  cases c with
  | timeout => exact handleTimeout_follows h
  | clientReadable => exact handleClientReadable_follows h
  | clientWritable => exact handleClientWritable_follows h
  | backendReadable => exact handleBackendReadable_follows h
  | backendWritable => exact handleBackendWritable_follows h

end Handlers

/-! ### Runs -/

/-- The line names the request, the backend and the answer of the connection. -/
structure Protocol.LogLine.Reports (line : LogLine) (c : ProxyConnection) (x : Exchange) : Prop where
  clientAddr : line.clientAddr = c.clientAddr
  backend : c.backendAddr = some line.backend
  request : ∃ req, c.parsedRequest = some req ∧ line.method = req.method ∧ line.path = req.path ∧
    line.version = req.version
  answer : (line.status = statusOf c.relayBuf ∧ x.relayed = c.relayBuf ∧ x.errors = []) ∨
    ∃ code : Nat, line.status = code ∧ x.relayed = [] ∧ x.errors.map Prod.fst = [code]

namespace Fleet

variable {cfg : Config} {w : Fleet} {router : Router} {events : List Event}

theorem follows_of_run (hrun : Machine.run (step cfg) (init router) events = some w) :
    ∀ s ∈ w.sessions, ∃ phase, Leads cfg s.conn.clientAddr s.trace phase ∧ Agrees s.conn phase := by
  apply session_invariant
    (fun s => ∃ phase, Leads cfg s.conn.clientAddr s.trace phase ∧ Agrees s.conn phase) ?_ ?_ ?_ ?_ ?_ hrun
  · exact fun _ _ _ _ => ⟨.reading, .nil, rfl, rfl, rfl, rfl, rfl, rfl, rfl⟩
  · intro c f h
    exact handle_follows c h
  · rintro s ⟨phase, hleads, hagrees⟩
    exact ⟨phase, hleads, hagrees.named⟩
  · exact fun s h => h
  · exact fun s hs => absurd hs List.not_mem_nil

/-- **The protocol.** In every run, with any answers of the operating system and any marks of the health
checker, what a connection has done is a path of the protocol; its state, buffers and flags are those of
the phase reached, and the phase says what the client and the access log have got. -/
theorem protocol_of_run (hrun : Machine.run (step cfg) (init router) events = some w) :
    ∀ s ∈ w.sessions, ∃ phase, Leads cfg s.conn.clientAddr s.trace phase ∧ Agrees s.conn phase ∧
      (LoadBalancer.exchange s.trace).relayed = phase.relayed ∧
      (LoadBalancer.exchange s.trace).errors.map Prod.fst = phase.errors ∧
      phase.Logs s.conn.clientAddr (accessLog s.trace) := by
  intro s hs
  obtain ⟨phase, hleads, hagrees⟩ := follows_of_run hrun s hs
  exact ⟨phase, hleads, hagrees, hleads.client.1, hleads.client.2, hleads.logs⟩

theorem protocol_of_run_oneRequest : ∃ w,
    Machine.run (step .default) (init twoBackends) (oneRequest (.sent 20)) = some w ∧
    ∀ s ∈ w.sessions, ∃ phase, Leads .default s.conn.clientAddr s.trace phase ∧ Agrees s.conn phase ∧
      (LoadBalancer.exchange s.trace).relayed = phase.relayed ∧
      (LoadBalancer.exchange s.trace).errors.map Prod.fst = phase.errors ∧
      phase.Logs s.conn.clientAddr (accessLog s.trace) := by
  obtain ⟨w, hrun⟩ : ∃ w, Machine.run (step .default) (init twoBackends) (oneRequest (.sent 20)) = some w :=
    Option.isSome_iff_exists.mp (by decide +kernel)
  exact ⟨w, hrun, protocol_of_run hrun⟩

/-- **The access log.** A connection that is served has logged nothing. A connection logs at most one line;
it names the client, the request and the backend, and its status is that of the whole response, which the
client has got, or that of the error answered in its place. A response that has been relayed to its end is
logged, an empty one when the client is first sent what there is of it. -/
theorem access_log_of_run (hrun : Machine.run (step cfg) (init router) events = some w) :
    (∀ s ∈ w.sessions,
      (s.conn.state ≠ .done → accessLog s.trace = []) ∧
      (∀ line ∈ accessLog s.trace,
        accessLog s.trace = [line] ∧ line.Reports s.conn (LoadBalancer.exchange s.trace)) ∧
      (s.conn.relayBuf ≠ [] → (LoadBalancer.exchange s.trace).relayed = s.conn.relayBuf →
        accessLog s.trace ≠ [])) ∧
    ∀ i s io n, w.sessions[i]? = some s → s.conn.state = .forwardingResponse → io.send = .sent n →
      s.conn.relayBuf.length ≤ s.conn.relayOffset + n →
      ∃ w' s', w.call cfg i .clientWritable io = .returned w' ∧ w'.sessions[i]? = some s' ∧
        s'.conn.state = .done ∧ s'.conn.relayBuf = s.conn.relayBuf ∧ accessLog s'.trace ≠ [] := by
  refine ⟨?_, fun i s io n hs hstate hsend hall => ?_⟩
  · intro s hs
    obtain ⟨phase, hleads, hagrees⟩ := follows_of_run hrun s hs
    obtain ⟨hrelayed, herrors⟩ := hleads.client
    have hlogs := hleads.logs
    have hnamed := hagrees.named
    refine ⟨fun hdone => ?_, fun line hline => ?_, fun hsome hwhole => ?_⟩
    · unfold Agrees at hagrees
      split at hagrees
      · rw [hagrees.1] at hlogs
        exact hlogs
      · obtain ⟨req, tried, b, rfl, -⟩ := hagrees
        exact hlogs
      · obtain ⟨req, tried, b, rfl, -⟩ := hagrees
        exact hlogs
      · obtain ⟨req, tried, b, ⟨rfl, -⟩ | rfl, -⟩ := hagrees <;> exact hlogs
      · obtain ⟨req, b, hserves⟩ := hagrees
        rcases hserves.begun with ⟨-, -, tried, received, rfl, -⟩ | ⟨rfl, -⟩ <;> exact hlogs
      · next hstate => exact absurd hstate hdone
    · cases phase with
      | logged req b verdict slot =>
          obtain ⟨latency, hlog⟩ := hlogs
          obtain ⟨hreq, haddr, hverdict⟩ := hnamed
          rw [hlog, List.mem_singleton] at hline
          subst hline
          refine ⟨hlog, rfl, haddr, ⟨req, hreq, rfl, rfl, rfl⟩, ?_⟩
          cases verdict with
          | response bytes =>
              have hbytes := hverdict bytes rfl
              refine Or.inl ⟨congrArg statusOf hbytes.symm, hrelayed.trans hbytes.symm, ?_⟩
              exact List.map_eq_nil_iff.mp herrors
          | error code => exact Or.inr ⟨code, rfl, hrelayed, herrors⟩
      | _ =>
          rw [show accessLog s.trace = [] from hlogs] at hline
          cases hline
    · rw [hrelayed] at hwhole
      cases phase with
      | logged req b verdict slot =>
          obtain ⟨latency, hlog⟩ := hlogs
          rw [hlog]
          exact List.cons_ne_nil _ _
      | relaying req b response relayed => exact absurd (hwhole.trans hnamed.1) hnamed.2
      | dropped req b response relayed => exact absurd (hwhole.trans hnamed.1) hnamed.2
      | _ => exact absurd hwhole.symm hsome
  · obtain ⟨phase, -, hagrees⟩ := follows_of_run hrun s (List.mem_of_getElem? hs)
    rw [Agrees, hstate] at hagrees
    obtain ⟨req, b, hserves⟩ := hagrees
    obtain ⟨f', hreturns, hdone, hbuf, hlogged⟩ := handleClientWritable_logs cfg (f := w.frame s io) hstate
      hsend hall hserves.parsedRequest hserves.backendAddr
    refine ⟨w.put i f', _, ?_, getElem?_put_self hs f', hdone, hbuf, hlogged⟩
    rw [call_eq_of_getElem? hs, handle, hreturns]
    rfl

theorem access_log_of_run_oneRequest : ∃ w,
    Machine.run (step .default) (init twoBackends) (oneRequest (.sent 4096)) = some w ∧
    w.sessions.map (fun s => (accessLog s.trace).length) = [1] ∧
    (∀ s ∈ w.sessions,
      (s.conn.state ≠ .done → accessLog s.trace = []) ∧
      (∀ line ∈ accessLog s.trace,
        accessLog s.trace = [line] ∧ line.Reports s.conn (LoadBalancer.exchange s.trace)) ∧
      (s.conn.relayBuf ≠ [] → (LoadBalancer.exchange s.trace).relayed = s.conn.relayBuf →
        accessLog s.trace ≠ [])) ∧
    ∀ i s io n, w.sessions[i]? = some s → s.conn.state = .forwardingResponse → io.send = .sent n →
      s.conn.relayBuf.length ≤ s.conn.relayOffset + n →
      ∃ w' s', w.call .default i .clientWritable io = .returned w' ∧ w'.sessions[i]? = some s' ∧
        s'.conn.state = .done ∧ s'.conn.relayBuf = s.conn.relayBuf ∧ accessLog s'.trace ≠ [] := by
  obtain ⟨w, hrun, hlines⟩ := Option.map_eq_some_iff.mp (show
    (Machine.run (step .default) (init twoBackends) (oneRequest (.sent 4096))).map
      (fun w => w.sessions.map fun s => (accessLog s.trace).length) = some [1] by decide +kernel)
  exact ⟨w, hrun, hlines, access_log_of_run hrun⟩

end Fleet

end LoadBalancer
