import LoadBalancer.Config
import LoadBalancer.HttpParser
import LoadBalancer.Outcome
import LoadBalancer.Router
import LoadBalancer.Sockets

/-! The per-connection state machine. A handler runs on a `Frame`: the connection, what it shares with
the rest of the process, and the answers the operating system gives during the call. Every way the call
can end is an `Outcome`; a handler that raises leaves the connection as it was at that point. -/

namespace LoadBalancer

open PyText ListSearch

inductive State where
  | readingRequest
  | connectingToBackend
  | forwardingRequest
  | readingResponse
  | forwardingResponse
  | done
  deriving DecidableEq

structure ProxyConnection where
  clientSock : Sock
  clientAddr : Bytes × Nat
  backendSock : Option Sock
  backendAddr : Option Backend
  state : State
  requestBuf : Bytes
  parsedRequest : Option HttpRequest
  forwardBuf : Bytes
  forwardOffset : Nat
  responseBuf : Bytes
  relayBuf : Bytes
  relayOffset : Nat
  startTime : Time
  responseStatus : Option Int
  responseHeadersDone : Bool
  responseContentLength : Int
  responseBodyReceived : Int
  responseIsChunked : Bool
  triedBackends : Finset Backend
  backendAttempts : Nat
  clientBytesSent : Bool
  disconnectNotified : Bool
  pendingBackendUnregister : Option Sock
  deadline : Time
  deadlineGen : Nat

/-! ### The answers of the operating system -/

/-- `recv`; no data is the end of the stream. `raises` is an exception the handlers do not catch. -/
inductive RecvResult where
  | data (bytes : Bytes)
  | blocked
  | osError
  | raises

/-- `send`; `sent n` accepts the first `n` bytes. -/
inductive SendResult where
  | sent (n : Nat)
  | blocked
  | osError
  | raises

/-- `sendall`; when it raises, the first `n` bytes may have been sent. -/
inductive SendallResult where
  | sent
  | osError (n : Nat)
  | raises (n : Nat)

/-- `getsockopt(SOL_SOCKET, SO_ERROR)` -/
inductive SockoptResult where
  | errno (err : Nat)
  | raises
  deriving DecidableEq

/-- `socket.socket()` and the `connect_ex` on it: no socket, or a socket with some descriptor number
whose `connect_ex` raises or returns an errno. -/
inductive ConnectResult where
  | noSocket
  | raises (fd : Nat)
  | errno (fd err : Nat)
  deriving DecidableEq

/-- The answers during one handler call. A handler receives and sends at most once; `connect` answers
by attempt number. `clock` has the readings of `time.monotonic()` and `marks` the calls of the
health-checker thread before each call of the router, both in order. -/
structure Io where
  recv : RecvResult
  send : SendResult
  sendall : SendallResult
  soError : SockoptResult
  connect : Nat → ConnectResult
  clock : List Time
  marks : List (List Mark)

/-- What a connection did, in order. Nothing in the program reads it. -/
inductive Action where
  | nextBackend (given : Option Backend)
  | onDisconnect (backend : Backend) (count : Int)
  | connect (backend : Backend) (sock : Sock)
  | backendSent (bytes : Bytes)
  | backendReceived (bytes : Bytes)
  | clientSent (bytes : Bytes)
  | errorSent (code : Nat) (reason : String) (bytes : Bytes)
  | accessLog (clientAddr : Bytes × Nat) (backend : Backend) (method path version : Bytes)
      (status : Int) (latencyMs : Time)

structure Frame where
  conn : ProxyConnection
  trace : List Action
  router : Router
  os : Os
  now : Time
  io : Io

namespace Frame

def update (change : ProxyConnection → ProxyConnection) (f : Frame) : Frame :=
  { f with conn := change f.conn }

def setState (state : State) (f : Frame) : Frame := f.update fun c => { c with state := state }

def log (action : Action) (f : Frame) : Frame := { f with trace := f.trace ++ [action] }

/-- Read `time.monotonic()`, which never goes back: the reading is `now` afterwards. -/
def readClock (f : Frame) : Frame :=
  { f with
    now := max f.now (f.io.clock.headD f.now)
    io := { f.io with clock := f.io.clock.tail } }

/-- The health-checker thread gets the router's lock before this thread does. -/
def awaitLock (f : Frame) : Frame :=
  { f with
    router := (f.io.marks.headD []).foldl (fun router mark => router.mark mark) f.router
    io := { f.io with marks := f.io.marks.tail } }

def nextBackend (exclude : Option (Finset Backend)) (f : Frame) : Option Backend × Frame :=
  let f := f.awaitLock
  let picked := f.router.nextBackend exclude
  (picked.1, { f with router := picked.2 }.log (.nextBackend picked.1))

/-- `if backend_addr and not _disconnect_notified: on_disconnect(backend_addr); ... = True` -/
def releaseSlot (f : Frame) : Frame :=
  match f.conn.backendAddr with
  | none => f
  | some backend =>
      if f.conn.disconnectNotified then f
      else
        let f := f.awaitLock
        let count := f.router.count backend
        let f := { f with router := f.router.onDisconnect backend }.update fun c =>
          { c with disconnectNotified := true }
        f.log (.onDisconnect backend count)

end Frame

/-! ### Deadlines -/

section Deadlines

variable (cfg : Config)

def timeoutForState : State → Option Time
  | .readingRequest => some cfg.clientIdleTimeout
  | .connectingToBackend => some cfg.connectTimeout
  | .forwardingRequest | .readingResponse => some cfg.backendTimeout
  | .forwardingResponse => some cfg.clientSendTimeout
  | .done => none

def refreshDeadline (f : Frame) : Frame :=
  match timeoutForState cfg f.conn.state with
  | none => f
  | some timeout =>
      let f := f.readClock
      f.update fun c => { c with deadlineGen := c.deadlineGen + 1, deadline := f.now + timeout }

end Deadlines

/-! ### Error responses and cleanup -/

/-- The response text of `_send_error`. -/
def errorResponse (code : Nat) (reason : String) : Bytes :=
  let body := ascii "<h1>" ++ decimal code ++ ascii " " ++ ascii reason ++ ascii "</h1>"
  ascii "HTTP/1.1 " ++ decimal code ++ ascii " " ++ ascii reason ++ lineDelim ++
    ascii "Content-Length: " ++ decimal body.length ++ lineDelim ++
    ascii "Content-Type: text/html" ++ lineDelim ++
    ascii "Connection: close" ++ lineDelim ++ lineDelim ++ body

/-- The access-log line of `_finish`, if there is a request and a backend to name. -/
def logAccess (f : Frame) : Frame :=
  match f.conn.parsedRequest, f.conn.backendAddr with
  | some req, some backend =>
      f.log (.accessLog f.conn.clientAddr backend req.method req.path req.version
        (f.conn.responseStatus.getD 0) ((f.now - f.conn.startTime) * 1000))
  | _, _ => f

/-- `_finish` -/
def finish (f : Frame) : Frame := (logAccess f.readClock).releaseSlot.setState .done

/-- `_send_error` -/
def sendError (code : Nat) (reason : String) (f : Frame) : Outcome Frame :=
  let response := errorResponse code reason
  let giveUp (f : Frame) : Outcome Frame :=
    .returned (finish (f.update fun c => { c with responseStatus := some code }))
  match f.io.sendall with
  | .sent =>
      giveUp ((f.update fun c => { c with clientBytesSent := true }).log
        (.errorSent code reason response))
  | .osError n => giveUp (f.log (.errorSent code reason (response.take n)))
  | .raises n => .raised (f.log (.errorSent code reason (response.take n)))

/-! ### Backend connects, failures and retries -/

/-- The `errno` values of a connect in progress: `EINPROGRESS`, `EWOULDBLOCK`, `EAGAIN` and 115, with
their numbers on Linux. -/
def connectInProgress : List Nat := [115, 11, 11, 115]

/-- The socket that an attempt creates and calls `connect_ex` on. -/
def openBackendSock (backend : Backend) (fd : Nat) (f : Frame) : Frame :=
  let sock := f.os.newSock fd
  let f := { f with os := f.os.openSock fd }.update fun c => { c with backendSock := some sock }
  f.log (.connect backend sock)

/-- Close the backend socket and leave it to the reactor to unregister. -/
def closeBackend (f : Frame) : Frame :=
  match f.conn.backendSock with
  | none => f
  | some old =>
      { f with os := f.os.close old }.update fun c =>
        { c with pendingBackendUnregister := some old, backendSock := none }

def noteTried (f : Frame) : Frame :=
  match f.conn.backendAddr with
  | none => f
  | some failed => f.update fun c => { c with triedBackends := insert failed c.triedBackends }

/-- The part of `_fail_backend` before the decision to retry. -/
def abandonBackend (f : Frame) : Frame := noteTried (closeBackend f.releaseSlot)

/-- What `_fail_backend` resets for a retry on `backend`. -/
def resetForRetry (backend : Backend) (f : Frame) : Frame :=
  f.update fun c =>
    { c with
      backendAddr := some backend
      backendAttempts := c.backendAttempts + 1
      disconnectNotified := false
      forwardOffset := 0
      responseBuf := []
      responseStatus := none
      responseHeadersDone := false
      responseContentLength := -1
      responseBodyReceived := 0
      responseIsChunked := false }

section Handlers

variable (cfg : Config)

def canRetry (conn : ProxyConnection) : Bool :=
  if conn.clientBytesSent then false
  else
    match conn.parsedRequest with
    | none => false
    | some req =>
        if upper req.method ∉ cfg.idempotentMethods then false
        else conn.backendAttempts ≤ cfg.maxBackendRetries

@[simp] theorem backendAttempts_refreshDeadline (f : Frame) :
    (refreshDeadline cfg f).conn.backendAttempts = f.conn.backendAttempts := by
  unfold refreshDeadline
  split <;> rfl

theorem attempts_le_of_canRetry {conn : ProxyConnection} (h : canRetry cfg conn = true) :
    conn.backendAttempts ≤ cfg.maxBackendRetries := by
  unfold canRetry at h
  split at h
  · cases h
  · split at h
    · cases h
    · split at h
      · cases h
      · exact of_decide_eq_true h

@[simp] theorem backendAttempts_releaseSlot (f : Frame) :
    f.releaseSlot.conn.backendAttempts = f.conn.backendAttempts := by
  unfold Frame.releaseSlot
  split
  · rfl
  · split <;> rfl

@[simp] theorem backendAttempts_abandonBackend (f : Frame) :
    (abandonBackend f).conn.backendAttempts = f.conn.backendAttempts := by
  unfold abandonBackend noteTried closeBackend
  split <;> split <;> simp [Frame.update]

mutual

/-- `_initiate_backend_connect` -/
def initiateBackendConnect (backend : Backend) (f : Frame) : Outcome Frame :=
  let f := refreshDeadline cfg (f.setState .connectingToBackend)
  match f.io.connect f.conn.backendAttempts with
  | .noSocket => .raised f
  | .raises fd => .raised (openBackendSock backend fd f)
  | .errno fd err =>
      let f := openBackendSock backend fd f
      if err = 0 then .returned (refreshDeadline cfg (f.setState .forwardingRequest))
      else if err ∈ connectInProgress then .returned f
      else failBackend f
termination_by 2 * (cfg.maxBackendRetries + 1 - f.conn.backendAttempts) + 1
decreasing_by
  simp only [openBackendSock, Frame.log, Frame.update, backendAttempts_refreshDeadline,
    Frame.setState]
  omega

/-- `_fail_backend`. Each retry raises the attempt number, which is what ends the recursion. -/
def failBackend (f : Frame) : Outcome Frame :=
  let f := abandonBackend f
  if _hretry : canRetry cfg f.conn then
    let picked := f.nextBackend (some f.conn.triedBackends)
    match picked.1 with
    | some backend => initiateBackendConnect backend (resetForRetry backend picked.2)
    | none => sendError 502 "Bad Gateway" picked.2
  else sendError 502 "Bad Gateway" f
termination_by 2 * (cfg.maxBackendRetries + 1 - f.conn.backendAttempts)
decreasing_by
  have hle := attempts_le_of_canRetry cfg _hretry
  simp only [f, backendAttempts_abandonBackend] at hle
  simp only [resetForRetry, Frame.update, Frame.nextBackend, Frame.log, Frame.awaitLock,
    backendAttempts_abandonBackend]
  omega

end

/-! ### Handlers -/

def handleTimeout (f : Frame) : Outcome Frame :=
  if f.conn.state = .done then .returned f
  else if f.conn.state = .readingRequest then sendError 408 "Request Timeout" f
  else if f.conn.clientBytesSent then .returned (f.releaseSlot.setState .done)
  else sendError 504 "Gateway Timeout" f

/-- `handle_client_readable` once a complete request has been parsed. -/
def routeRequest (req : HttpRequest) (f : Frame) : Outcome Frame :=
  let injected := injectForwardedFor req f.conn.clientAddr.1
  let f := f.update fun c =>
    { c with
      parsedRequest := some injected
      forwardBuf := serialiseRequest injected
      forwardOffset := 0 }
  let picked := f.nextBackend none
  match picked.1 with
  | none => sendError 503 "Service Unavailable" picked.2
  | some backend =>
      initiateBackendConnect cfg backend (picked.2.update fun c =>
        { c with
          backendAddr := some backend
          backendAttempts := 1
          disconnectNotified := false })

/-- `request_buf.extend(data)` -/
def receiveRequest (bytes : Bytes) (f : Frame) : Frame :=
  refreshDeadline cfg (f.update fun c => { c with requestBuf := c.requestBuf ++ bytes })

def handleClientReadable (f : Frame) : Outcome Frame :=
  if f.conn.state ≠ .readingRequest then .returned f
  else
    match f.io.recv with
    | .blocked => .returned f
    | .osError => .returned (f.setState .done)
    | .raises => .raised f
    | .data bytes =>
        if bytes = [] then .returned (f.setState .done)
        else
          let f := receiveRequest cfg bytes f
          if cfg.maxRequestSize < f.conn.requestBuf.length then
            sendError 413 "Request Entity Too Large" f
          else
            match tryParseRequest f.conn.requestBuf with
            | none => .returned f
            | some req => routeRequest cfg req f

/-- What a `send` to the backend that accepted some bytes, or none, records. -/
def recordForwarded (accepted : Bytes) (f : Frame) : Frame :=
  let f := f.log (.backendSent accepted)
  let f := if accepted = [] then f else refreshDeadline cfg f
  f.update fun c => { c with forwardOffset := c.forwardOffset + accepted.length }

/-- The second half of `handle_backend_writable`: send as much of the request as the socket takes. -/
def forwardRequest (f : Frame) : Outcome Frame :=
  match f.io.send with
  | .blocked => .returned f
  | .osError => failBackend cfg f
  | .raises => .raised f
  | .sent n =>
      let f := recordForwarded cfg ((f.conn.forwardBuf.drop f.conn.forwardOffset).take n) f
      if f.conn.forwardBuf.length ≤ f.conn.forwardOffset then
        .returned (refreshDeadline cfg (f.setState .readingResponse))
      else .returned f

def handleBackendWritable (f : Frame) : Outcome Frame :=
  match f.conn.state with
  | .connectingToBackend =>
      match f.io.soError with
      | .raises => .raised f
      | .errno err =>
          if err ≠ 0 then failBackend cfg f
          else forwardRequest cfg (refreshDeadline cfg (f.setState .forwardingRequest))
  | .forwardingRequest => forwardRequest cfg f
  | _ => .returned f

/-- `_prepare_relay` -/
def prepareRelay (f : Frame) : Frame :=
  refreshDeadline cfg (f.update fun c =>
    { c with
      relayBuf := c.responseBuf
      relayOffset := 0
      state := .forwardingResponse })

/-- `self.response_buf[hdr_end + len(HEADER_DELIM):]`, empty where there is no header end. -/
def responseBody (buf : Bytes) : Bytes :=
  match find headerDelim buf with
  | none => []
  | some hdrEnd => buf.drop (hdrEnd + headerDelim.length)

/-- `handle_backend_readable` at the end of the stream. -/
def backendClosed (f : Frame) : Outcome Frame :=
  if f.conn.responseIsChunked && f.conn.responseHeadersDone then
    match tryConsumeChunkedBody (responseBody f.conn.responseBuf) with
    | none => .hung
    | some none => failBackend cfg f
    | some (some _) => .returned (prepareRelay cfg f)
  else .returned (prepareRelay cfg f)

/-- The status is parsed from the first chunk that has it. -/
def recordStatus (conn : ProxyConnection) : ProxyConnection :=
  match conn.responseStatus with
  | some _ => conn
  | none => { conn with responseStatus := (parseResponseStatus conn.responseBuf).map Prod.fst }

/-- The framing fields are computed once, when the header block is complete. -/
def recordFraming (conn : ProxyConnection) : ProxyConnection :=
  if conn.responseHeadersDone then conn
  else
    match find headerDelim conn.responseBuf with
    | none => conn
    | some hdrEnd =>
        let chunked := (isChunkedResponse conn.responseBuf).getD false
        { conn with
          responseHeadersDone := true
          responseIsChunked := chunked
          responseContentLength :=
            if chunked then -1 else getResponseContentLength conn.responseBuf
          responseBodyReceived :=
            (conn.responseBuf.length : Int) - (hdrEnd + headerDelim.length : Nat) }

/-- `handle_backend_readable` on the framing fields of a response that has grown. -/
def checkComplete (f : Frame) : Outcome Frame :=
  if ¬ f.conn.responseHeadersDone then .returned f
  else
    let body := responseBody f.conn.responseBuf
    let headerLen := f.conn.responseBuf.length - body.length
    if f.conn.responseIsChunked then
      match tryConsumeChunkedBody body with
      | none => .hung
      | some none => .returned f
      | some (some framed) =>
          .returned (prepareRelay cfg (f.update fun c =>
            { c with responseBuf := c.responseBuf.take (headerLen + framed) }))
    else
      let f := f.update fun c => { c with responseBodyReceived := body.length }
      if 0 ≤ f.conn.responseContentLength ∧
          f.conn.responseContentLength ≤ f.conn.responseBodyReceived then
        .returned (prepareRelay cfg f)
      else .returned f

/-- `response_buf.extend(data)` and the bookkeeping on the grown buffer. -/
def receiveResponse (bytes : Bytes) (f : Frame) : Frame :=
  (refreshDeadline cfg (f.update fun c => { c with responseBuf := c.responseBuf ++ bytes })).update
    fun c => recordFraming (recordStatus c)

def handleBackendReadable (f : Frame) : Outcome Frame :=
  if f.conn.state ≠ .readingResponse then .returned f
  else
    match f.io.recv with
    | .blocked => .returned f
    | .osError => failBackend cfg f
    | .raises => .raised f
    | .data bytes =>
        let f := f.log (.backendReceived bytes)
        if bytes = [] then backendClosed cfg f
        else checkComplete cfg (receiveResponse cfg bytes f)

/-- What a `send` to the client that accepted some bytes, or none, records. -/
def recordRelayed (accepted : Bytes) (f : Frame) : Frame :=
  let f := f.log (.clientSent accepted)
  let f :=
    if accepted = [] then f
    else refreshDeadline cfg (f.update fun c => { c with clientBytesSent := true })
  f.update fun c => { c with relayOffset := c.relayOffset + accepted.length }

def handleClientWritable (f : Frame) : Outcome Frame :=
  if f.conn.state ≠ .forwardingResponse then .returned f
  else
    match f.io.send with
    | .blocked => .returned f
    | .osError => .returned (f.setState .done)
    | .raises => .raised f
    | .sent n =>
        let f := recordRelayed cfg ((f.conn.relayBuf.drop f.conn.relayOffset).take n) f
        if f.conn.relayBuf.length ≤ f.conn.relayOffset then .returned (finish f)
        else .returned f

/-- The calls that the reactor makes on a connection. -/
inductive Call where
  | timeout
  | clientReadable
  | clientWritable
  | backendReadable
  | backendWritable
  deriving DecidableEq

def handle : Call → Frame → Outcome Frame
  | .timeout => handleTimeout
  | .clientReadable => handleClientReadable cfg
  | .clientWritable => handleClientWritable cfg
  | .backendReadable => handleBackendReadable cfg
  | .backendWritable => handleBackendWritable cfg

/-- `ProxyConnection(client_sock, client_addr, router)` -/
def ProxyConnection.init (clientSock : Sock) (clientAddr : Bytes × Nat) (startTime readAt : Time) :
    ProxyConnection where
  clientSock := clientSock
  clientAddr := clientAddr
  backendSock := none
  backendAddr := none
  state := .readingRequest
  requestBuf := []
  parsedRequest := none
  forwardBuf := []
  forwardOffset := 0
  responseBuf := []
  relayBuf := []
  relayOffset := 0
  startTime := startTime
  responseStatus := none
  responseHeadersDone := false
  responseContentLength := -1
  responseBodyReceived := 0
  responseIsChunked := false
  triedBackends := ∅
  backendAttempts := 0
  clientBytesSent := false
  disconnectNotified := false
  pendingBackendUnregister := none
  deadline := readAt + cfg.clientIdleTimeout
  deadlineGen := 1

end Handlers

end LoadBalancer
