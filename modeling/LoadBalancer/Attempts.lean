import LoadBalancer.Availability
import LoadBalancer.Fleet
import LoadBalancer.HandlerRules

/-! What a connection does with its backends over its whole life: which it contacts and when, and what it
sends to the last of them. -/

namespace LoadBalancer

open PyText Outcome

/-- A router gives no backend that it was asked to leave out. -/
theorem Router.not_mem_of_nextBackend {router : Router} {exclude : Finset Backend} {b : Backend}
    (h : (router.nextBackend (some exclude)).1 = some b) : b ∉ exclude := by
  cases router with
  | roundRobin r => exact (RoundRobinRouter.pick_some h).2
  | leastConnections r =>
      obtain ⟨e, hfound, rfl⟩ := LeastConnectionsRouter.nextBackend_some h
      exact (LeastConnectionsRouter.verdict_eq_take.mp (HeapQueue.search_some hfound).2.1).2.2

/-! ### The dealings that a trace describes -/

/-- The last connect and what its socket has accepted since. -/
structure BackendAttempt where
  backend : Backend
  sock : Sock
  accepted : Bytes

/-- The backends contacted, what the client has been sent, what it had been sent at each connect, and the
last connect. -/
structure Dealings where
  contacted : List Backend
  clientBytes : Bytes
  sentBefore : Bytes
  attempt : Option BackendAttempt

namespace Dealings

def start : Dealings := ⟨[], [], [], none⟩

def record (d : Dealings) : Action → Dealings
  | .connect backend sock =>
      { d with
        contacted := d.contacted ++ [backend]
        sentBefore := d.sentBefore ++ d.clientBytes
        attempt := some ⟨backend, sock, []⟩ }
  | .backendSent bytes =>
      { d with attempt := d.attempt.map fun a => { a with accepted := a.accepted ++ bytes } }
  | .clientSent bytes | .errorSent _ _ bytes => { d with clientBytes := d.clientBytes ++ bytes }
  | _ => d

theorem sentBefore_prefix_record (d : Dealings) (a : Action) : d.sentBefore <+: (d.record a).sentBefore := by
  cases a with
  | connect backend sock => exact List.prefix_append _ _
  | _ => exact List.prefix_rfl

end Dealings

def dealings (trace : List Action) : Dealings := trace.foldl Dealings.record .start

@[simp] theorem dealings_concat (trace : List Action) (a : Action) :
    dealings (trace ++ [a]) = (dealings trace).record a := by
  rw [dealings, List.foldl_append]
  rfl

/-- If nothing had been sent at any connect, nothing had been sent at each. -/
theorem clientBytes_eq_nil_of_connect {pre post : List Action} {b : Backend} {sock : Sock}
    (h : (dealings (pre ++ .connect b sock :: post)).sentBefore = []) :
    (dealings pre).clientBytes = [] := by
  have hgrows : ∀ (actions : List Action) (d : Dealings),
      d.sentBefore <+: (actions.foldl Dealings.record d).sentBefore := by
    intro actions
    induction actions with
    | nil => exact fun d => List.prefix_rfl
    | cons a actions ih => exact fun d => (d.sentBefore_prefix_record a).trans (ih _)
  have hconnect := hgrows post ((dealings pre).record (.connect b sock))
  have hall : post.foldl Dealings.record ((dealings pre).record (.connect b sock)) =
      dealings (pre ++ .connect b sock :: post) := by
    rw [dealings, dealings, List.foldl_append, List.foldl_cons]
  rw [hall, h, List.prefix_nil] at hconnect
  exact (List.append_eq_nil_iff.mp hconnect).2

section Operations

variable (f : Frame)

@[simp] theorem dealings_nextBackend (exclude : Option (Finset Backend)) :
    dealings (f.nextBackend exclude).2.trace = dealings f.trace := by
  rw [Frame.nextBackend, log_trace, dealings_concat]
  rfl

@[simp] theorem dealings_releaseSlot : dealings f.releaseSlot.trace = dealings f.trace := by
  unfold Frame.releaseSlot
  split
  · rfl
  · split
    · rfl
    · rw [log_trace, dealings_concat]
      rfl

@[simp] theorem dealings_logAccess : dealings (logAccess f).trace = dealings f.trace := by
  unfold logAccess
  split
  · rw [log_trace, dealings_concat]
    rfl
  · rfl

@[simp] theorem dealings_finish : dealings (finish f).trace = dealings f.trace := by
  have h := dealings_releaseSlot (logAccess f.readClock)
  rw [dealings_logAccess] at h
  exact h

@[simp] theorem dealings_abandonBackend : dealings (abandonBackend f).trace = dealings f.trace := by
  rw [abandonBackend, noteTried_trace, closeBackend_trace, dealings_releaseSlot]

theorem dealings_openBackendSock (backend : Backend) (fd : Nat) :
    dealings (openBackendSock backend fd f).trace =
      (dealings f.trace).record (.connect backend (f.os.newSock fd)) := by
  rw [openBackendSock, log_trace, dealings_concat]
  rfl

end Operations

/-! ### Stages -/

/-- What holds of the contacts of every connection. -/
structure Contacts (cfg : Config) (parsedRequest : Option HttpRequest) (d : Dealings) : Prop where
  distinct : d.contacted.Nodup
  limit : d.contacted.length ≤ 1 + cfg.maxBackendRetries
  single : d.contacted.length ≤ 1 ∨
    ∃ req, parsedRequest = some req ∧ upper req.method ∈ cfg.idempotentMethods
  early : d.sentBefore = []

/-- A backend is still being tried. Every contact is remembered in `tried_backends` or is the backend
assigned now, and `_backend_attempts` counts them. -/
structure Trying (cfg : Config) (parsedRequest : Option HttpRequest) (triedBackends : Finset Backend)
    (backendAddr : Option Backend) (backendAttempts : Nat) (forwardBuf : Bytes) (clientBytesSent : Bool)
    (d : Dealings) : Prop extends Contacts cfg parsedRequest d where
  known : ∀ b ∈ d.contacted, b ∈ triedBackends ∨ backendAddr = some b
  counted : d.contacted.length ≤ backendAttempts
  allowed : backendAttempts ≤ 1 + cfg.maxBackendRetries
  silent : d.clientBytes = []
  unsent : clientBytesSent = false
  written : ∃ req, parsedRequest = some req ∧ forwardBuf = serialiseRequest req

/-- The socket of the current attempt has accepted what lies before `forward_offset`. -/
structure Sending (backendAddr : Option Backend) (backendSock : Option Sock) (forwardBuf : Bytes)
    (forwardOffset : Nat) (d : Dealings) : Prop where
  accepted : ∃ b sock, backendAddr = some b ∧ backendSock = some sock ∧
    d.attempt = some ⟨b, sock, forwardBuf.take forwardOffset⟩
  bounded : forwardOffset ≤ forwardBuf.length

/-- No response has been read in the current attempt. -/
structure FreshResponse (responseBuf : Bytes) (responseStatus : Option Int) (responseHeadersDone : Bool)
    (responseContentLength responseBodyReceived : Int) (responseIsChunked : Bool) : Prop where
  responseBuf : responseBuf = []
  responseStatus : responseStatus = none
  responseHeadersDone : responseHeadersDone = false
  responseContentLength : responseContentLength = -1
  responseBodyReceived : responseBodyReceived = 0
  responseIsChunked : responseIsChunked = false

def ProxyConnection.Trying (cfg : Config) (c : ProxyConnection) (d : Dealings) : Prop :=
  LoadBalancer.Trying cfg c.parsedRequest c.triedBackends c.backendAddr c.backendAttempts c.forwardBuf
    c.clientBytesSent d

def ProxyConnection.Sending (c : ProxyConnection) (d : Dealings) : Prop :=
  LoadBalancer.Sending c.backendAddr c.backendSock c.forwardBuf c.forwardOffset d

def ProxyConnection.FreshResponse (c : ProxyConnection) : Prop :=
  LoadBalancer.FreshResponse c.responseBuf c.responseStatus c.responseHeadersDone
    c.responseContentLength c.responseBodyReceived c.responseIsChunked

/-- No request has been read. -/
structure Unrouted (parsedRequest : Option HttpRequest) (backendSock : Option Sock)
    (clientBytesSent : Bool) (d : Dealings) : Prop where
  dealings : d = .start
  backendSock : backendSock = none
  parsedRequest : parsedRequest = none
  clientBytesSent : clientBytesSent = false

def ProxyConnection.Unrouted (c : ProxyConnection) (d : Dealings) : Prop :=
  LoadBalancer.Unrouted c.parsedRequest c.backendSock c.clientBytesSent d

/-- What a connection that is given up leaves behind. -/
structure Over (cfg : Config) (parsedRequest : Option HttpRequest) (backendSock : Option Sock)
    (forwardBuf : Bytes) (forwardOffset : Nat) (d : Dealings) : Prop where
  contacts : Contacts cfg parsedRequest d
  accepted : ∀ sock, backendSock = some sock →
    ∃ b, d.attempt = some ⟨b, sock, forwardBuf.take forwardOffset⟩

def Dealt (cfg : Config) (c : ProxyConnection) (d : Dealings) : Prop :=
  match c.state with
  | .readingRequest => c.Unrouted d ∧ c.FreshResponse
  | .connectingToBackend | .forwardingRequest => c.Trying cfg d ∧ c.Sending d ∧ c.FreshResponse
  | .readingResponse => c.Trying cfg d ∧ c.Sending d ∧ c.forwardBuf.length ≤ c.forwardOffset
  | .forwardingResponse =>
      Contacts cfg c.parsedRequest d ∧ c.Sending d ∧ c.forwardBuf.length ≤ c.forwardOffset
  | .done => Over cfg c.parsedRequest c.backendSock c.forwardBuf c.forwardOffset d

section Stages

variable {cfg : Config} {c : ProxyConnection} {d : Dealings}

theorem contacts_start (parsedRequest : Option HttpRequest) : Contacts cfg parsedRequest .start where
  distinct := List.nodup_nil
  limit := Nat.zero_le _
  single := Or.inl (Nat.zero_le _)
  early := rfl

theorem Sending.over {backendAddr : Option Backend} {backendSock : Option Sock} {forwardBuf : Bytes}
    {forwardOffset : Nat} {parsedRequest : Option HttpRequest}
    (h : Sending backendAddr backendSock forwardBuf forwardOffset d)
    (hcontacts : Contacts cfg parsedRequest d) :
    Over cfg parsedRequest backendSock forwardBuf forwardOffset d where
  contacts := hcontacts
  accepted := by
    obtain ⟨b, sock, -, rfl, hattempt⟩ := h.accepted
    rintro _ ⟨rfl⟩
    exact ⟨b, hattempt⟩

theorem unrouted_over (h : c.Unrouted d) :
    Over cfg c.parsedRequest c.backendSock c.forwardBuf c.forwardOffset d where
  contacts := h.dealings ▸ contacts_start _
  accepted := by
    intro sock hsock
    rw [h.backendSock] at hsock
    cases hsock

theorem Dealt.over (h : Dealt cfg c d) :
    Over cfg c.parsedRequest c.backendSock c.forwardBuf c.forwardOffset d := by
  unfold Dealt at h
  split at h
  · exact unrouted_over h.1
  · exact h.2.1.over h.1.toContacts
  · exact h.2.1.over h.1.toContacts
  · exact h.2.1.over h.1.toContacts
  · exact h.2.1.over h.1
  · exact h

/-- Sending to the client leaves everything about the backends as it is. -/
theorem Contacts.record_client {parsedRequest : Option HttpRequest} (h : Contacts cfg parsedRequest d)
    (bytes : Bytes) : Contacts cfg parsedRequest { d with clientBytes := d.clientBytes ++ bytes } :=
  ⟨h.distinct, h.limit, h.single, h.early⟩

theorem Over.errorSent {parsedRequest : Option HttpRequest} {backendSock : Option Sock}
    {forwardBuf : Bytes} {forwardOffset : Nat}
    (h : Over cfg parsedRequest backendSock forwardBuf forwardOffset d) (code : Nat) (reason : String)
    (bytes : Bytes) :
    Over cfg parsedRequest backendSock forwardBuf forwardOffset (d.record (.errorSent code reason bytes)) :=
  ⟨h.contacts.record_client bytes, h.accepted⟩

/-- The first connect of a request. -/
theorem trying_first {req : HttpRequest} {backend : Backend} {sock : Sock} {triedBackends : Finset Backend} :
    Trying cfg (some req) triedBackends (some backend) 1 (serialiseRequest req) false
      (Dealings.start.record (.connect backend sock)) where
  distinct := List.nodup_singleton backend
  limit := Nat.le_add_right 1 _
  single := Or.inl (Nat.le_refl 1)
  early := rfl
  known _ hb := Or.inr (congrArg some (List.mem_singleton.mp hb).symm)
  counted := Nat.le_refl 1
  allowed := Nat.le_add_right 1 _
  silent := rfl
  unsent := rfl
  written := ⟨req, rfl, rfl⟩

theorem Trying.of_unsent {parsedRequest : Option HttpRequest} {tried : Finset Backend}
    {backendAddr : Option Backend} {attempts : Nat} {forwardBuf : Bytes} {sent : Bool}
    (h : Trying cfg parsedRequest tried backendAddr attempts forwardBuf false d) (hsent : sent = false) :
    Trying cfg parsedRequest tried backendAddr attempts forwardBuf sent d := hsent ▸ h

theorem Trying.backendSent {parsedRequest : Option HttpRequest} {tried : Finset Backend}
    {backendAddr : Option Backend} {attempts : Nat} {forwardBuf : Bytes} {sent : Bool}
    (h : Trying cfg parsedRequest tried backendAddr attempts forwardBuf sent d) (bytes : Bytes) :
    Trying cfg parsedRequest tried backendAddr attempts forwardBuf sent (d.record (.backendSent bytes)) :=
  ⟨⟨h.distinct, h.limit, h.single, h.early⟩, h.known, h.counted, h.allowed, h.silent, h.unsent, h.written⟩

/-- The connect of a retry on a backend that has not been tried. -/
theorem Trying.connect {parsedRequest : Option HttpRequest} {tried : Finset Backend}
    {failed backendAddr : Option Backend} {attempts : Nat} {forwardBuf : Bytes} {sent : Bool}
    (h : Trying cfg parsedRequest tried failed attempts forwardBuf sent d)
    (hattempts : attempts ≤ cfg.maxBackendRetries)
    (hmethod : ∃ req, parsedRequest = some req ∧ upper req.method ∈ cfg.idempotentMethods)
    {tried' : Finset Backend} (htried : ∀ b ∈ d.contacted, b ∈ tried') {backend : Backend}
    (hfresh : backend ∉ tried') (haddr : backendAddr = some backend) (sock : Sock) :
    Trying cfg parsedRequest tried' backendAddr (attempts + 1) forwardBuf sent
      (d.record (.connect backend sock)) where
  distinct := by
    refine List.nodup_append.mpr ⟨h.distinct, List.nodup_singleton backend, ?_⟩
    rintro b hb b' hb' rfl
    rw [List.mem_singleton.mp hb'] at hb
    exact hfresh (htried backend hb)
  limit := by
    have hcounted := h.counted
    rw [Dealings.record, List.length_append, List.length_singleton]
    omega
  single := Or.inr hmethod
  early := by
    rw [Dealings.record, h.early, h.silent]
    rfl
  known b hb := by
    rcases List.mem_append.mp hb with hb | hb
    · exact Or.inl (htried b hb)
    · exact Or.inr (List.mem_singleton.mp hb ▸ haddr)
  counted := by
    have hcounted := h.counted
    rw [Dealings.record, List.length_append, List.length_singleton]
    omega
  allowed := by omega
  silent := h.silent
  unsent := h.unsent
  written := h.written

theorem sending_connect (d : Dealings) (forwardBuf : Bytes) (backend : Backend) (sock : Sock) :
    Sending (some backend) (some sock) forwardBuf 0 (d.record (.connect backend sock)) where
  accepted := ⟨backend, sock, rfl, rfl, by rw [List.take_zero]; rfl⟩
  bounded := Nat.zero_le _

/-- A `send` to the backend moves on by what it accepted. -/
theorem Sending.record {backendAddr : Option Backend} {backendSock : Option Sock} {forwardBuf : Bytes}
    {forwardOffset : Nat} (h : Sending backendAddr backendSock forwardBuf forwardOffset d) (n : Nat) :
    let accepted := (forwardBuf.drop forwardOffset).take n
    Sending backendAddr backendSock forwardBuf (forwardOffset + accepted.length)
      (d.record (.backendSent accepted)) where
  accepted := by
    obtain ⟨b, sock, haddr, hsock, hattempt⟩ := h.accepted
    refine ⟨b, sock, haddr, hsock, ?_⟩
    rw [Dealings.record, hattempt, List.take_add,
      ← List.prefix_iff_eq_take.mp (List.take_prefix n _)]
    rfl
  bounded := by
    have hbounded := h.bounded
    simp only [List.length_take, List.length_drop]
    omega

end Stages

/-! ### Handlers -/

section Handlers

variable {cfg : Config} {f : Frame}

/-- The connection is at one of the stages. -/
def InStage (cfg : Config) (f : Frame) : Prop := Dealt cfg f.conn (dealings f.trace)

/-- The connection can be given up. -/
def IsOver (cfg : Config) (f : Frame) : Prop :=
  Over cfg f.conn.parsedRequest f.conn.backendSock f.conn.forwardBuf f.conn.forwardOffset
    (dealings f.trace)

theorem IsOver.setDone (h : IsOver cfg f) : InStage cfg (f.setState .done) := h

theorem InStage.refreshDeadline (h : InStage cfg f) : InStage cfg (refreshDeadline cfg f) := by
  rw [InStage, refreshDeadline_conn, refreshDeadline_trace]
  exact h

theorem IsOver.finish (h : IsOver cfg f) : InStage cfg (finish f) := by
  rw [InStage, finish_conn, dealings_finish]
  exact h

theorem sendError_dealt (code : Nat) (reason : String) (h : IsOver cfg f) :
    (sendError code reason f).Post (InStage cfg) (IsOver cfg) := by
  have hlogged : ∀ bytes, Over cfg f.conn.parsedRequest f.conn.backendSock f.conn.forwardBuf
      f.conn.forwardOffset (dealings (f.trace ++ [.errorSent code reason bytes])) := by
    intro bytes
    rw [dealings_concat]
    exact h.errorSent code reason bytes
  unfold sendError
  split
  · exact IsOver.finish (hlogged _)
  · exact IsOver.finish (hlogged _)
  · exact hlogged _

/-- What holds before the connect of an attempt: nothing is in the way of the connect. -/
structure Starting (cfg : Config) (backend : Backend) (f : Frame) : Prop where
  contacts : Contacts cfg f.conn.parsedRequest (dealings f.trace)
  trying : ∀ sock, f.conn.Trying cfg ((dealings f.trace).record (.connect backend sock))
  backendAddr : f.conn.backendAddr = some backend
  backendSock : f.conn.backendSock = none
  forwardOffset : f.conn.forwardOffset = 0
  response : f.conn.FreshResponse

theorem Starting.begin {backend : Backend} (h : Starting cfg backend f) :
    IsOver cfg (beginConnect cfg f) := by
  rw [IsOver, beginConnect_conn, beginConnect, refreshDeadline_trace]
  refine ⟨h.contacts, ?_⟩
  intro sock hsock
  cases h.backendSock.symm.trans hsock

theorem Starting.opened {backend : Backend} (h : Starting cfg backend f) (fd : Nat) :
    let c := (openBackendSock backend fd (beginConnect cfg f)).conn
    let d := dealings (openBackendSock backend fd (beginConnect cfg f)).trace
    c.Trying cfg d ∧ c.Sending d ∧ c.FreshResponse := by
  intro c d
  have htrace : (beginConnect cfg f).trace = f.trace := refreshDeadline_trace _ _
  have hd : d = (dealings f.trace).record (.connect backend ((beginConnect cfg f).os.newSock fd)) := by
    rw [← htrace]
    exact dealings_openBackendSock _ backend fd
  have hconn : c = { (beginConnect cfg f).conn with
      backendSock := some ((beginConnect cfg f).os.newSock fd) } := openBackendSock_conn _ _ _
  rw [hd, hconn, beginConnect_conn]
  refine ⟨h.trying _, ?_, h.response⟩
  have hsending := sending_connect (dealings f.trace) f.conn.forwardBuf backend
    ((beginConnect cfg f).os.newSock fd)
  rw [← h.backendAddr, ← h.forwardOffset] at hsending
  exact hsending

/-- A retry starts as the first attempt did, on a backend that has not been contacted. -/
theorem Starting.retry (h : f.conn.Trying cfg (dealings f.trace))
    (hretry : canRetry cfg (abandonBackend f).conn = true) {b : Backend} :
    let picked := (abandonBackend f).nextBackend (some (abandonBackend f).conn.triedBackends)
    picked.1 = some b → Starting cfg b (resetForRetry b picked.2) := by
  intro picked hpicked
  have hfresh : b ∉ (abandonBackend f).conn.triedBackends := Router.not_mem_of_nextBackend hpicked
  have htried : ∀ b' ∈ (dealings f.trace).contacted, b' ∈ (abandonBackend f).conn.triedBackends := by
    intro b' hb'
    rw [abandonBackend_conn]
    rcases h.known b' hb' with hknown | hassigned
    · cases haddr : f.conn.backendAddr with
      | none => exact hknown
      | some failed => exact Finset.mem_insert_of_mem hknown
    · dsimp only
      rw [hassigned]
      exact Finset.mem_insert_self _ _
  have hattempts := attempts_le_of_canRetry cfg hretry
  rw [backendAttempts_abandonBackend] at hattempts
  have hmethod : ∃ req, f.conn.parsedRequest = some req ∧ upper req.method ∈ cfg.idempotentMethods := by
    obtain ⟨req, hreq, -⟩ := h.written
    have hparsed : (abandonBackend f).conn.parsedRequest = some req := by
      rw [abandonBackend_conn]
      exact hreq
    exact ⟨req, hreq, idempotent_of_canRetry cfg hretry hparsed⟩
  have hconn : picked.2.conn = (abandonBackend f).conn := nextBackend_conn _ _
  have htrace : dealings picked.2.trace = dealings f.trace := by
    rw [dealings_nextBackend, dealings_abandonBackend]
  refine ⟨?_, fun sock => ?_, rfl, ?_, rfl, ⟨rfl, rfl, rfl, rfl, rfl, rfl⟩⟩
  · rw [resetForRetry, update_conn, update_trace, htrace, hconn, abandonBackend_conn]
    exact h.toContacts
  · rw [resetForRetry, update_conn, update_trace, htrace, hconn]
    have hconnect := h.connect hattempts hmethod htried hfresh (rfl : some b = some b) sock
    rw [abandonBackend_conn] at hconnect ⊢
    exact hconnect
  · rw [resetForRetry, update_conn, hconn, abandonBackend_conn]

theorem failover_dealt :
    (∀ b f, Starting cfg b f → (initiateBackendConnect cfg b f).Post (InStage cfg) (IsOver cfg)) ∧
    ∀ f, f.conn.Trying cfg (dealings f.trace) → (failBackend cfg f).Post (InStage cfg) (IsOver cfg) := by
  have habandoned : ∀ {f : Frame}, f.conn.Trying cfg (dealings f.trace) →
      IsOver cfg (abandonBackend f) := by
    intro f h
    rw [IsOver, abandonBackend_conn, dealings_abandonBackend]
    exact ⟨h.toContacts, by rintro sock ⟨⟩⟩
  apply failover_post
  case noSocket => exact fun b f h _ => h.begin
  case raises =>
    intro b f fd h _
    obtain ⟨htrying, hsending, -⟩ := h.opened fd
    exact hsending.over htrying.toContacts
  case connected =>
    intro b f fd h _
    exact InStage.refreshDeadline (f := (openBackendSock b fd (beginConnect cfg f)).setState .forwardingRequest)
      (h.opened fd)
  case inProgress =>
    intro b f fd err h _ _
    have hstate : (openBackendSock b fd (beginConnect cfg f)).conn.state = .connectingToBackend := by
      rw [openBackendSock_conn, beginConnect_conn]
    rw [InStage, Dealt, hstate]
    exact h.opened fd
  case refused => exact fun b f fd err h _ _ _ => (h.opened fd).1
  case retry => exact fun b f h hretry => Starting.retry h hretry
  case giveUp =>
    rintro f f' h (rfl | ⟨-, rfl⟩)
    · exact sendError_dealt 502 _ (habandoned h)
    · refine sendError_dealt 502 _ ?_
      rw [IsOver, dealings_nextBackend, nextBackend_conn]
      exact habandoned h

theorem handleTimeout_dealt (h : InStage cfg f) : (handleTimeout f).Post (InStage cfg) (IsOver cfg) := by
  have hover : IsOver cfg f := Dealt.over h
  apply handleTimeout_post
  case ended => exact fun _ => h
  case idle => exact fun _ => sendError_dealt 408 _ hover
  case relaying =>
    intro _ _
    refine IsOver.setDone ?_
    rw [IsOver, releaseSlot_conn, dealings_releaseSlot]
    exact hover
  case unanswered => exact fun _ _ => sendError_dealt 504 _ hover

theorem routeRequest_dealt (req : HttpRequest) (h : f.conn.Unrouted (dealings f.trace))
    (hresponse : f.conn.FreshResponse) :
    (routeRequest cfg req f).Post (InStage cfg) (IsOver cfg) := by
  have hstart : dealings ((storeRequest req f).nextBackend none).2.trace = .start := by
    rw [dealings_nextBackend]
    exact h.dealings
  apply routeRequest_post
  case unavailable =>
    refine fun _ => sendError_dealt 503 _ ⟨?_, ?_⟩
    · rw [hstart]
      exact contacts_start _
    · intro sock hsock
      cases h.backendSock.symm.trans hsock
  case routed =>
    refine fun backend _ => failover_dealt.1 _ _ ⟨?_, ?_, rfl, h.backendSock, rfl, hresponse⟩
    · rw [assignFirst, update_trace, hstart]
      exact contacts_start _
    · intro sock
      rw [assignFirst, update_trace, hstart]
      refine Trying.of_unsent ?_ h.clientBytesSent
      exact trying_first

theorem handleClientReadable_dealt (h : InStage cfg f) :
    (handleClientReadable cfg f).Post (InStage cfg) (IsOver cfg) := by
  have hover : IsOver cfg f := Dealt.over h
  have hgrown : ∀ bytes, InStage cfg (receiveRequest cfg bytes f) := by
    intro bytes
    refine InStage.refreshDeadline ?_
    exact h
  apply handleClientReadable_post
  case ignored => exact fun _ => h
  case blocked => exact fun _ _ => h
  case gone => exact fun _ _ => hover.setDone
  case raises => exact fun _ _ => hover
  case tooLarge => exact fun bytes _ _ _ _ => sendError_dealt 413 _ (Dealt.over (hgrown bytes))
  case incomplete => exact fun bytes _ _ _ _ => hgrown bytes
  case complete =>
    intro bytes req hstate _ _ _
    have hunrouted : (receiveRequest cfg bytes f).conn.Unrouted
        (dealings (receiveRequest cfg bytes f).trace) ∧
        (receiveRequest cfg bytes f).conn.FreshResponse := by
      rw [InStage, Dealt, hstate] at h
      rw [receiveRequest, refreshDeadline_conn, refreshDeadline_trace]
      exact h
    exact routeRequest_dealt _ hunrouted.1 hunrouted.2

theorem forwardRequest_dealt (h : InStage cfg f) (hstate : f.conn.state = .forwardingRequest) :
    (forwardRequest cfg f).Post (InStage cfg) (IsOver cfg) := by
  have hstage : f.conn.Trying cfg (dealings f.trace) ∧ f.conn.Sending (dealings f.trace) ∧
      f.conn.FreshResponse := by
    rw [InStage, Dealt, hstate] at h
    exact h
  obtain ⟨htrying, hsending, hresponse⟩ := hstage
  have htrace : ∀ accepted, dealings (recordForwarded cfg accepted f).trace =
      (dealings f.trace).record (.backendSent accepted) := by
    intro accepted
    rw [recordForwarded_trace, dealings_concat]
  apply forwardRequest_post
  case blocked => exact fun _ => h
  case broken => exact fun _ => failover_dealt.2 f htrying
  case raises => exact fun _ => Dealt.over h
  case sentAll =>
    rintro n accepted _ rfl hall
    refine InStage.refreshDeadline ?_
    rw [InStage, setState_trace, htrace, setState_conn, recordForwarded_conn]
    exact ⟨htrying.backendSent _, hsending.record n, hall⟩
  case sentSome =>
    rintro n accepted _ rfl _
    rw [InStage, htrace, recordForwarded_conn, Dealt, hstate]
    exact ⟨htrying.backendSent _, hsending.record n, hresponse⟩

theorem handleBackendWritable_dealt (h : InStage cfg f) :
    (handleBackendWritable cfg f).Post (InStage cfg) (IsOver cfg) := by
  have hstage : f.conn.state = .connectingToBackend →
      f.conn.Trying cfg (dealings f.trace) ∧ f.conn.Sending (dealings f.trace) ∧ f.conn.FreshResponse := by
    intro hstate
    rw [InStage, Dealt, hstate] at h
    exact h
  apply handleBackendWritable_post
  case ignored => exact fun _ _ => h
  case raises => exact fun _ _ => Dealt.over h
  case refused => exact fun _ hstate _ _ => failover_dealt.2 f (hstage hstate).1
  case connected =>
    intro hstate _
    refine forwardRequest_dealt (InStage.refreshDeadline ?_) ?_
    · exact hstage hstate
    · rw [refreshDeadline_conn]
      rfl
  case forwarding => exact forwardRequest_dealt h

/-- What is read from the backend changes no dealings. -/
theorem inStage_prepareRelay (hcontacts : Contacts cfg f.conn.parsedRequest (dealings f.trace))
    (hsending : f.conn.Sending (dealings f.trace))
    (hall : f.conn.forwardBuf.length ≤ f.conn.forwardOffset) : InStage cfg (prepareRelay cfg f) := by
  refine InStage.refreshDeadline ?_
  exact ⟨hcontacts, hsending, hall⟩

theorem handleBackendReadable_dealt (h : InStage cfg f) :
    (handleBackendReadable cfg f).Post (InStage cfg) (IsOver cfg) := by
  have hstage : f.conn.state = .readingResponse → f.conn.Trying cfg (dealings f.trace) ∧
      f.conn.Sending (dealings f.trace) ∧ f.conn.forwardBuf.length ≤ f.conn.forwardOffset := by
    intro hstate
    rw [InStage, Dealt, hstate] at h
    exact h
  have hlogged : ∀ bytes, dealings (f.log (.backendReceived bytes)).trace = dealings f.trace := fun _ =>
    dealings_concat _ _
  apply handleBackendReadable_post
  case ignored => exact fun _ => h
  case blocked => exact fun _ _ => h
  case broken => exact fun hstate _ => failover_dealt.2 f (hstage hstate).1
  case raises => exact fun _ _ => Dealt.over h
  case closed =>
    intro hstate _
    obtain ⟨htrying, hsending, hall⟩ := hstage hstate
    rw [← hlogged []] at htrying hsending
    apply backendClosed_post
    case cutOff => exact fun _ _ => failover_dealt.2 _ htrying
    case relay => exact inStage_prepareRelay htrying.toContacts hsending hall
  case received =>
    intro bytes hstate _ _
    obtain ⟨htrying, hsending, hall⟩ := hstage hstate
    have hgrown := receiveResponse_conn cfg (f.log (.backendReceived bytes)) bytes
    have htrace : dealings (receiveResponse cfg bytes (f.log (.backendReceived bytes))).trace =
        dealings f.trace := by
      rw [receiveResponse, update_trace, refreshDeadline_trace, update_trace, hlogged]
    apply checkComplete_post
    case stay =>
      intro received
      rw [InStage, update_trace, htrace, update_conn, hgrown, Dealt]
      rw [log_conn, hstate]
      exact ⟨htrying, hsending, hall⟩
    case relay =>
      intro received buf _
      refine inStage_prepareRelay ?_ ?_ ?_
      · rw [update_trace, htrace, update_conn, hgrown]
        exact htrying.toContacts
      · rw [update_trace, htrace, update_conn, hgrown]
        exact hsending
      · rw [update_conn, hgrown]
        exact hall

theorem handleClientWritable_dealt (h : InStage cfg f) :
    (handleClientWritable cfg f).Post (InStage cfg) (IsOver cfg) := by
  have hover : IsOver cfg f := Dealt.over h
  have hsent : f.conn.state = .forwardingResponse → ∀ accepted,
      InStage cfg (recordRelayed cfg accepted f) := by
    intro hstate accepted
    rw [InStage, Dealt, hstate] at h
    obtain ⟨hcontacts, hsending, hall⟩ := h
    rw [InStage, recordRelayed_trace, dealings_concat, recordRelayed_conn, Dealt, hstate]
    exact ⟨hcontacts.record_client _, ⟨hsending.accepted, hsending.bounded⟩, hall⟩
  apply handleClientWritable_post
  case ignored => exact fun _ => h
  case blocked => exact fun _ _ => h
  case gone => exact fun _ _ => hover.setDone
  case raises => exact fun _ _ => hover
  case sentAll => exact fun _ accepted hstate _ _ _ => IsOver.finish (Dealt.over (hsent hstate accepted))
  case sentSome => exact fun _ accepted hstate _ _ _ => hsent hstate accepted

theorem handle_dealt (c : Call) (h : InStage cfg f) :
    (handle cfg c f).Post (InStage cfg) (IsOver cfg) := by
  cases c with
  | timeout => exact handleTimeout_dealt h
  | clientReadable => exact handleClientReadable_dealt h
  | clientWritable => exact handleClientWritable_dealt h
  | backendReadable => exact handleBackendReadable_dealt h
  | backendWritable => exact handleBackendWritable_dealt h

/-! ### A request once parsed -/

/-- The request has been parsed and is what it was. -/
def Parsed (parsedRequest : Option HttpRequest) (forwardBuf : Bytes) (f : Frame) : Prop :=
  f.conn.parsedRequest = parsedRequest ∧ f.conn.forwardBuf = forwardBuf ∧ f.conn.state ≠ .readingRequest

section Parsed

variable {parsedRequest : Option HttpRequest} {forwardBuf : Bytes}

theorem Parsed.refreshDeadline (h : Parsed parsedRequest forwardBuf f) (cfg : Config) :
    Parsed parsedRequest forwardBuf (refreshDeadline cfg f) := by
  rw [Parsed, refreshDeadline_conn]
  exact h

theorem Parsed.enter (h : Parsed parsedRequest forwardBuf f) {state : State}
    (hstate : state ≠ .readingRequest) : Parsed parsedRequest forwardBuf (f.setState state) :=
  ⟨h.1, h.2.1, hstate⟩

theorem Parsed.finish (h : Parsed parsedRequest forwardBuf f) :
    Parsed parsedRequest forwardBuf (finish f) := by
  rw [Parsed, finish_conn]
  exact ⟨h.1, h.2.1, State.noConfusion⟩

theorem sendError_parsed (code : Nat) (reason : String) (h : Parsed parsedRequest forwardBuf f) :
    (sendError code reason f).Post (Parsed parsedRequest forwardBuf) (Parsed parsedRequest forwardBuf) := by
  unfold sendError
  split
  · exact Parsed.finish h
  · exact Parsed.finish h
  · exact h

theorem failover_parsed :
    (∀ b f, Parsed parsedRequest forwardBuf f →
      (initiateBackendConnect cfg b f).Post (Parsed parsedRequest forwardBuf)
        (Parsed parsedRequest forwardBuf)) ∧
    ∀ f, Parsed parsedRequest forwardBuf f →
      (failBackend cfg f).Post (Parsed parsedRequest forwardBuf) (Parsed parsedRequest forwardBuf) := by
  have hbegin : ∀ {f : Frame}, Parsed parsedRequest forwardBuf f →
      Parsed parsedRequest forwardBuf (beginConnect cfg f) := by
    intro f h
    exact (h.enter State.noConfusion).refreshDeadline cfg
  have hopen : ∀ {f : Frame} (b : Backend) (fd : Nat), Parsed parsedRequest forwardBuf f →
      Parsed parsedRequest forwardBuf (openBackendSock b fd (beginConnect cfg f)) := by
    intro f b fd h
    have hbegun : Parsed parsedRequest forwardBuf (beginConnect cfg f) := hbegin h
    exact hbegun
  have habandoned : ∀ {f : Frame}, Parsed parsedRequest forwardBuf f →
      Parsed parsedRequest forwardBuf (abandonBackend f) := by
    intro f h
    rw [Parsed, abandonBackend_conn]
    exact h
  apply failover_post
  case noSocket => exact fun b f h _ => hbegin h
  case raises => exact fun b f fd h _ => hopen b fd h
  case connected => exact fun b f fd h _ => ((hopen b fd h).enter State.noConfusion).refreshDeadline cfg
  case inProgress => exact fun b f fd err h _ _ => hopen b fd h
  case refused => exact fun b f fd err h _ _ _ => hopen b fd h
  case retry =>
    intro b f h _ picked _
    exact habandoned h
  case giveUp =>
    rintro f f' h (rfl | ⟨-, rfl⟩)
    · exact sendError_parsed 502 _ (habandoned h)
    · exact sendError_parsed 502 _ (habandoned h)

theorem handleTimeout_parsed (h : Parsed parsedRequest forwardBuf f) :
    (handleTimeout f).Post (Parsed parsedRequest forwardBuf) (Parsed parsedRequest forwardBuf) := by
  apply handleTimeout_post
  case ended => exact fun _ => h
  case idle => exact fun _ => sendError_parsed 408 _ h
  case relaying =>
    refine fun _ _ => Parsed.enter ?_ State.noConfusion
    rw [Parsed, releaseSlot_conn]
    exact h
  case unanswered => exact fun _ _ => sendError_parsed 504 _ h

theorem forwardRequest_parsed (h : Parsed parsedRequest forwardBuf f) :
    (forwardRequest cfg f).Post (Parsed parsedRequest forwardBuf) (Parsed parsedRequest forwardBuf) := by
  have hsent : ∀ accepted, Parsed parsedRequest forwardBuf (recordForwarded cfg accepted f) := by
    intro accepted
    rw [Parsed, recordForwarded_conn]
    exact h
  apply forwardRequest_post
  case blocked => exact fun _ => h
  case broken => exact fun _ => failover_parsed.2 f h
  case raises => exact fun _ => h
  case sentAll =>
    exact fun _ accepted _ _ _ => ((hsent accepted).enter State.noConfusion).refreshDeadline cfg
  case sentSome => exact fun _ accepted _ _ _ => hsent accepted

theorem handleBackendWritable_parsed (h : Parsed parsedRequest forwardBuf f) :
    (handleBackendWritable cfg f).Post (Parsed parsedRequest forwardBuf)
      (Parsed parsedRequest forwardBuf) := by
  apply handleBackendWritable_post
  case ignored => exact fun _ _ => h
  case raises => exact fun _ _ => h
  case refused => exact fun _ _ _ _ => failover_parsed.2 f h
  case connected =>
    exact fun _ _ => forwardRequest_parsed ((h.enter State.noConfusion).refreshDeadline cfg)
  case forwarding => exact fun _ => forwardRequest_parsed h

theorem parsed_prepareRelay (h : Parsed parsedRequest forwardBuf f) :
    Parsed parsedRequest forwardBuf (prepareRelay cfg f) := by
  rw [Parsed, prepareRelay_conn]
  exact ⟨h.1, h.2.1, State.noConfusion⟩

theorem handleBackendReadable_parsed (h : Parsed parsedRequest forwardBuf f) :
    (handleBackendReadable cfg f).Post (Parsed parsedRequest forwardBuf)
      (Parsed parsedRequest forwardBuf) := by
  have hlogged : ∀ bytes, Parsed parsedRequest forwardBuf (f.log (.backendReceived bytes)) := fun _ => h
  apply handleBackendReadable_post
  case ignored => exact fun _ => h
  case blocked => exact fun _ _ => h
  case broken => exact fun _ _ => failover_parsed.2 f h
  case raises => exact fun _ _ => h
  case closed =>
    intro _ _
    apply backendClosed_post
    case cutOff => exact fun _ _ => failover_parsed.2 _ (hlogged [])
    case relay => exact parsed_prepareRelay (hlogged [])
  case received =>
    intro bytes _ _ _
    have hreceived : Parsed parsedRequest forwardBuf
        (receiveResponse cfg bytes (f.log (.backendReceived bytes))) := by
      rw [Parsed, receiveResponse_conn]
      exact h
    apply checkComplete_post
    case stay => exact fun _ => hreceived
    case relay => exact fun _ _ _ => parsed_prepareRelay hreceived

theorem handleClientWritable_parsed (h : Parsed parsedRequest forwardBuf f) :
    (handleClientWritable cfg f).Post (Parsed parsedRequest forwardBuf)
      (Parsed parsedRequest forwardBuf) := by
  have hsent : ∀ accepted, Parsed parsedRequest forwardBuf (recordRelayed cfg accepted f) := by
    intro accepted
    rw [Parsed, recordRelayed_conn]
    exact h
  apply handleClientWritable_post
  case ignored => exact fun _ => h
  case blocked => exact fun _ _ => h
  case gone => exact fun _ _ => h.enter State.noConfusion
  case raises => exact fun _ _ => h
  case sentAll => exact fun _ accepted _ _ _ _ => Parsed.finish (hsent accepted)
  case sentSome => exact fun _ accepted _ _ _ _ => hsent accepted

/-- No call changes a request that has been parsed, or what is forwarded of it. -/
theorem handle_parsed (c : Call) (h : Parsed parsedRequest forwardBuf f) :
    (handle cfg c f).Post (Parsed parsedRequest forwardBuf) (Parsed parsedRequest forwardBuf) := by
  cases c with
  | timeout => exact handleTimeout_parsed h
  | clientReadable =>
      rw [handle, handleClientReadable, if_pos h.2.2]
      exact h
  | clientWritable => exact handleClientWritable_parsed h
  | backendReadable => exact handleBackendReadable_parsed h
  | backendWritable => exact handleBackendWritable_parsed h

end Parsed

end Handlers

/-! ### Runs -/

namespace Fleet

variable {cfg : Config}

/-- Every connection is at one of the stages after every run. -/
theorem dealt_of_run {router : Router} {events : List Event} {w : Fleet}
    (hrun : Machine.run (step cfg) (init router) events = some w) :
    ∀ s ∈ w.sessions, Dealt cfg s.conn (dealings s.trace) := by
  refine session_invariant (fun s => Dealt cfg s.conn (dealings s.trace)) ?_ ?_ ?_ (fun _ h => h)
    (by rintro s ⟨⟩) hrun
  · exact fun _ _ _ _ => ⟨⟨rfl, rfl, rfl, rfl⟩, rfl, rfl, rfl, rfl, rfl, rfl⟩
  · exact fun c f h => (handle_dealt c h).mono (fun _ hret => hret) fun _ hexc => hexc
  · exact fun s h => h.over

/-- A request that has been parsed stays as it is, and so does what is forwarded of it. -/
theorem parsed_of_run {w w' : Fleet} {i : Nat} {s : Session} {later : List Event}
    (hs : w.sessions[i]? = some s) (hrouted : s.conn.state ≠ .readingRequest)
    (hrun : Machine.run (step cfg) w later = some w') :
    ∃ s', w'.sessions[i]? = some s' ∧ s'.conn.parsedRequest = s.conn.parsedRequest ∧
      s'.conn.forwardBuf = s.conn.forwardBuf := by
  obtain ⟨s', hs', hparsed, hbuf, -⟩ := session_keeps
    (fun s' => s'.conn.parsedRequest = s.conn.parsedRequest ∧ s'.conn.forwardBuf = s.conn.forwardBuf ∧
      s'.conn.state ≠ .readingRequest)
    (fun c f h => (handle_parsed c h).mono (fun _ hret => hret)
      fun _ hexc => ⟨hexc.1, hexc.2.1, State.noConfusion⟩)
    (fun _ h => ⟨h.1, h.2.1, State.noConfusion⟩) (fun _ h => h) hs ⟨rfl, rfl, hrouted⟩ hrun
  exact ⟨s', hs', hparsed, hbuf⟩

/-- Two backends, of which the first refuses. -/
def refusedOnce : List Event :=
  [.accept 7 (ascii "10.0.0.1", 50000) [],
    .call 0 .clientReadable
      { quiet with
        recv := .data (ascii "GET / HTTP/1.1\r\n\r\n")
        connect := fun n => .errno (8 + n) (if n = 1 then 111 else 0) },
    .call 0 .backendWritable { quiet with send := .sent 4096 }]

/-- **Failover is bounded and does not repeat.** The mutual recursion of a connect and a failure ends.
In every run, with either router, the backends that a connection starts connects to are distinct, at most
one more than the limit on retries, and at most one if the method is not idempotent; and no connect is
started once a byte has been sent to the client. -/
theorem failover_bounded (cfg : Config) :
    ((∀ b f, initiateBackendConnect cfg b f ≠ .hung) ∧ ∀ f, failBackend cfg f ≠ .hung) ∧
    ∀ router events w, Machine.run (step cfg) (init router) events = some w → ∀ s ∈ w.sessions,
      (dealings s.trace).contacted.Nodup ∧
      (dealings s.trace).contacted.length ≤ 1 + cfg.maxBackendRetries ∧
      ((dealings s.trace).contacted.length ≤ 1 ∨
        ∃ req, s.conn.parsedRequest = some req ∧ upper req.method ∈ cfg.idempotentMethods) ∧
      ∀ pre b sock post, s.trace = pre ++ .connect b sock :: post → (dealings pre).clientBytes = [] := by
  refine ⟨failover_ends cfg, fun router events w hrun s hs => ?_⟩
  have hcontacts : Contacts cfg s.conn.parsedRequest (dealings s.trace) := (dealt_of_run hrun s hs).over.contacts
  refine ⟨hcontacts.distinct, hcontacts.limit, hcontacts.single, fun pre b sock post htrace => ?_⟩
  have hearly := hcontacts.early
  rw [htrace] at hearly
  exact clientBytes_eq_nil_of_connect hearly

theorem failover_bounded_refusedOnce : ∃ w,
    Machine.run (step .default) (init twoBackends) refusedOnce = some w ∧
    ∀ s ∈ w.sessions,
      (dealings s.trace).contacted.Nodup ∧
      (dealings s.trace).contacted.length ≤ 1 + Config.default.maxBackendRetries ∧
      ((dealings s.trace).contacted.length ≤ 1 ∨
        ∃ req, s.conn.parsedRequest = some req ∧ upper req.method ∈ Config.default.idempotentMethods) ∧
      ∀ pre b sock post, s.trace = pre ++ .connect b sock :: post → (dealings pre).clientBytes = [] := by
  obtain ⟨w, hrun⟩ : ∃ w, Machine.run (step .default) (init twoBackends) refusedOnce = some w :=
    Option.isSome_iff_exists.mp (by decide +kernel)
  exact ⟨w, hrun, (failover_bounded .default).2 _ _ _ hrun⟩

/-- **Each backend receives the request exactly.** In every run, what the socket of the current attempt
has accepted is `forward_buf[:forward_offset]`; all of `forward_buf` was accepted by the backend whose
response is read or relayed; and once the request is parsed, `forward_buf` does not change. -/
theorem request_forwarded_exactly (cfg : Config) (router : Router) {events : List Event} {w : Fleet}
    (hrun : Machine.run (step cfg) (init router) events = some w) :
    (∀ s ∈ w.sessions,
      (∀ sock, s.conn.backendSock = some sock →
        ∃ b, (dealings s.trace).attempt =
          some ⟨b, sock, s.conn.forwardBuf.take s.conn.forwardOffset⟩) ∧
      (s.conn.state = .readingResponse ∨ s.conn.state = .forwardingResponse →
        ∃ b sock, s.conn.backendAddr = some b ∧ s.conn.backendSock = some sock ∧
          (dealings s.trace).attempt = some ⟨b, sock, s.conn.forwardBuf⟩)) ∧
    ∀ (i : Nat) (s : Session) req later (w' : Fleet), w.sessions[i]? = some s →
      s.conn.parsedRequest = some req → Machine.run (step cfg) w later = some w' →
      ∃ s', w'.sessions[i]? = some s' ∧ s'.conn.parsedRequest = some req ∧
        s'.conn.forwardBuf = s.conn.forwardBuf := by
  have hdealt := dealt_of_run hrun
  refine ⟨fun s hs => ⟨(hdealt s hs).over.accepted, fun hstate => ?_⟩, ?_⟩
  · have hwhole : s.conn.Sending (dealings s.trace) ∧ s.conn.forwardBuf.length ≤ s.conn.forwardOffset := by
      have hstage := hdealt s hs
      rcases hstate with hstate | hstate
      · rw [Dealt, hstate] at hstage
        exact hstage.2
      · rw [Dealt, hstate] at hstage
        exact hstage.2
    obtain ⟨b, sock, haddr, hsock, hattempt⟩ := hwhole.1.accepted
    rw [List.take_of_length_le hwhole.2] at hattempt
    exact ⟨b, sock, haddr, hsock, hattempt⟩
  · intro i s req later w' hs hreq hlater
    have hrouted : s.conn.state ≠ .readingRequest := by
      intro hstate
      have hstage := hdealt s (List.mem_of_getElem? hs)
      rw [Dealt, hstate] at hstage
      cases hreq.symm.trans hstage.1.parsedRequest
    obtain ⟨s', hs', hparsed, hbuf⟩ := parsed_of_run hs hrouted hlater
    exact ⟨s', hs', hparsed.trans hreq, hbuf⟩

theorem request_forwarded_exactly_refusedOnce : ∃ w,
    Machine.run (step .default) (init twoBackends) refusedOnce = some w ∧
    (∀ s ∈ w.sessions,
      (∀ sock, s.conn.backendSock = some sock →
        ∃ b, (dealings s.trace).attempt =
          some ⟨b, sock, s.conn.forwardBuf.take s.conn.forwardOffset⟩) ∧
      (s.conn.state = .readingResponse ∨ s.conn.state = .forwardingResponse →
        ∃ b sock, s.conn.backendAddr = some b ∧ s.conn.backendSock = some sock ∧
          (dealings s.trace).attempt = some ⟨b, sock, s.conn.forwardBuf⟩)) ∧
    ∀ (i : Nat) (s : Session) req later (w' : Fleet), w.sessions[i]? = some s →
      s.conn.parsedRequest = some req → Machine.run (step .default) w later = some w' →
      ∃ s', w'.sessions[i]? = some s' ∧ s'.conn.parsedRequest = some req ∧
        s'.conn.forwardBuf = s.conn.forwardBuf := by
  obtain ⟨w, hrun⟩ : ∃ w, Machine.run (step .default) (init twoBackends) refusedOnce = some w :=
    Option.isSome_iff_exists.mp (by decide +kernel)
  exact ⟨w, hrun, request_forwarded_exactly .default _ hrun⟩

end Fleet

end LoadBalancer
