import Mathlib.Data.List.Count
import LoadBalancer.Fleet
import LoadBalancer.HandlerRules
import LoadBalancer.LeastConnections

/-! Backend slots. `next_backend` gives a connection a slot and `on_disconnect` takes it back; the count
of a backend lives in the router, the duty to release in a flag of each connection. The accounting is
kept by every handler; that a connection in state `DONE` holds no slot is kept exactly by the handler
calls that meet `ReleasesSlot`. -/

namespace LoadBalancer

open Outcome

/-! ### Counts of a router -/

/-- The router is a least-connections router whose counts are `n`. -/
def Router.Counts (router : Router) (n : Backend → Int) : Prop :=
  ∃ r, router = .leastConnections r ∧ ∀ b, r.count b = n b

namespace Router.Counts

variable {router : Router} {n : Backend → Int}

theorem count_eq (h : router.Counts n) (b : Backend) : router.count b = n b := by
  obtain ⟨r, rfl, hcount⟩ := h
  exact hcount b

theorem congr {n' : Backend → Int} (h : router.Counts n) (hn : ∀ b, n b = n' b) :
    router.Counts n' := by
  obtain ⟨r, hr, hcount⟩ := h
  exact ⟨r, hr, fun b => (hcount b).trans (hn b)⟩

theorem mark (h : router.Counts n) (m : Mark) : (router.mark m).Counts n := by
  obtain ⟨r, rfl, hcount⟩ := h
  cases m with
  | healthy backend => exact ⟨_, rfl, fun b => (r.count_markHealthy backend b).trans (hcount b)⟩
  | unhealthy backend => exact ⟨_, rfl, hcount⟩

theorem marks (h : router.Counts n) (ms : List Mark) :
    (ms.foldl (fun router m => router.mark m) router).Counts n := by
  induction ms generalizing router with
  | nil => exact h
  | cons m ms ih => exact ih (h.mark m)

/-- `next_backend` adds one to the count of the backend it returns. -/
theorem nextBackend (h : router.Counts n) (exclude : Option (Finset Backend)) :
    (router.nextBackend exclude).2.Counts fun b =>
      n b + if (router.nextBackend exclude).1 = some b then 1 else 0 := by
  obtain ⟨r, rfl, hcount⟩ := h
  refine ⟨_, rfl, fun b => ?_⟩
  change (r.nextBackend exclude).2.count b = n b + if (r.nextBackend exclude).1 = some b then 1 else 0
  cases hpick : (r.nextBackend exclude).1 with
  | none => simp [LeastConnectionsRouter.count_nextBackend_none hpick, hcount]
  | some b' => simp [LeastConnectionsRouter.count_nextBackend_some hpick, hcount]

/-- `on_disconnect` of a backend with a positive count takes one off it. -/
theorem onDisconnect (h : router.Counts n) {backend : Backend} (hpos : 1 ≤ n backend) :
    (router.onDisconnect backend).Counts fun b => n b - if backend = b then 1 else 0 := by
  obtain ⟨r, rfl, hcount⟩ := h
  refine ⟨_, rfl, fun b => ?_⟩
  simp only [LeastConnectionsRouter.count_onDisconnect, hcount]
  by_cases hb : backend = b
  · rw [if_pos hb, if_pos hb, ← hb]
    omega
  · rw [if_neg hb, if_neg hb, Int.sub_zero]

end Router.Counts

/-! ### Slots of a connection -/

/-- The backend whose slot the connection holds. -/
def ProxyConnection.held (c : ProxyConnection) : Option Backend :=
  if c.disconnectNotified then none else c.backendAddr

/-- The backends that `next_backend` returned, in order. -/
def acquired (trace : List Action) : List Backend :=
  trace.filterMap fun
    | .nextBackend given => given
    | _ => none

/-- The backends that `on_disconnect` was called for, in order. -/
def released (trace : List Action) : List Backend :=
  trace.filterMap fun
    | .onDisconnect backend _ => some backend
    | _ => none

theorem acquired_append (t t' : List Action) : acquired (t ++ t') = acquired t ++ acquired t' :=
  List.filterMap_append

theorem released_append (t t' : List Action) : released (t ++ t') = released t ++ released t' :=
  List.filterMap_append

/-- The accounting of one connection, the other ones holding `others b` slots of `b`. -/
structure Accounted (others : Backend → Nat) (f : Frame) : Prop where
  counts : f.router.Counts fun b => others b + if f.conn.held = some b then 1 else 0
  ledger : acquired f.trace = released f.trace ++ f.conn.held.toList
  positive : ∀ b n, Action.onDisconnect b n ∈ f.trace → 1 ≤ n

/-- The assignment of a connection between two handler calls. -/
structure Assigned (c : ProxyConnection) : Prop where
  idle : c.state = .readingRequest → c.backendAddr = none
  active : c.state ≠ .done → c.disconnectNotified = false

theorem Assigned.held_eq {c : ProxyConnection} (h : Assigned c) (hstate : c.state ≠ .done) :
    c.held = c.backendAddr := by
  rw [ProxyConnection.held, h.active hstate]
  rfl

theorem held_of_backendAddr {c : ProxyConnection} (h : c.backendAddr = none) : c.held = none := by
  rw [ProxyConnection.held, h]
  split <;> rfl

section Operations

variable {others : Backend → Nat} {f : Frame}

/-- An operation that leaves the router, the slot and the trace alone keeps the accounting. -/
theorem Accounted.congr (h : Accounted others f) {f' : Frame} (hrouter : f'.router = f.router)
    (hheld : f'.conn.held = f.conn.held) (htrace : f'.trace = f.trace) : Accounted others f' where
  counts := by rw [hrouter, hheld]; exact h.counts
  ledger := by rw [htrace, hheld]; exact h.ledger
  positive := by rw [htrace]; exact h.positive

/-- Actions other than router calls do not matter. -/
theorem Accounted.log (h : Accounted others f) {a : Action} (hacquired : acquired [a] = [])
    (hreleased : released [a] = []) : Accounted others (f.log a) where
  counts := h.counts
  ledger := by
    rw [log_trace, acquired_append, released_append, hacquired, hreleased, List.append_nil,
      List.append_nil]
    exact h.ledger
  positive := by
    intro b n hmem
    rcases List.mem_append.mp hmem with hmem | hmem
    · exact h.positive b n hmem
    · rw [← List.mem_singleton.mp hmem] at hreleased
      cases hreleased

theorem Accounted.setState (h : Accounted others f) (state : State) :
    Accounted others (f.setState state) := h.congr rfl rfl rfl

theorem Accounted.errorSent (h : Accounted others f) (code : Nat) (reason : String) (bytes : Bytes) :
    Accounted others (f.log (.errorSent code reason bytes)) := h.log rfl rfl

theorem Accounted.refreshDeadline (h : Accounted others f) (cfg : Config) :
    Accounted others (refreshDeadline cfg f) :=
  h.congr (refreshDeadline_router cfg f) (by rw [refreshDeadline_conn]; rfl) (refreshDeadline_trace cfg f)

theorem Accounted.openBackendSock (h : Accounted others f) (backend : Backend) (fd : Nat) :
    Accounted others (openBackendSock backend fd f) := by
  have hopened : Accounted others ({ f with os := f.os.openSock fd }.update fun c =>
      { c with backendSock := some (f.os.newSock fd) }) := h.congr rfl rfl rfl
  exact hopened.log (a := .connect backend (f.os.newSock fd)) rfl rfl

/-- A connection without a slot takes the one that `next_backend` gives. -/
theorem Accounted.nextBackend (h : Accounted others f) (hheld : f.conn.held = none)
    (exclude : Option (Finset Backend)) {f' : Frame} (hrouter : f'.router = (f.nextBackend exclude).2.router)
    (htrace : f'.trace = (f.nextBackend exclude).2.trace)
    (hgiven : f'.conn.held = (f.nextBackend exclude).1) : Accounted others f' where
  counts := by
    have hcounts := h.counts
    rw [hheld] at hcounts
    rw [hrouter, hgiven]
    exact ((hcounts.marks (f.io.marks.headD [])).nextBackend exclude).congr fun b => by
      simp [Frame.nextBackend, Frame.awaitLock]
  ledger := by
    have hledger := h.ledger
    rw [hheld, Option.toList_none, List.append_nil] at hledger
    have hacq : acquired f'.trace = acquired f.trace ++ ((f.nextBackend exclude).1).toList := by
      rw [htrace]
      simp only [Frame.nextBackend, log_trace, acquired_append]
      cases ((f.awaitLock.router.nextBackend exclude).1) <;> rfl
    have hrel : released f'.trace = released f.trace := by
      rw [htrace]
      simp only [Frame.nextBackend, log_trace, released_append]
      exact List.append_nil _
    rw [hacq, hrel, hledger, hgiven]
  positive := by
    intro b n hmem
    rw [htrace, Frame.nextBackend, log_trace] at hmem
    rcases List.mem_append.mp hmem with hmem | hmem
    · exact h.positive b n hmem
    · cases List.mem_singleton.mp hmem

theorem held_releaseSlot : f.releaseSlot.conn.held = none := by
  rw [releaseSlot_conn, ProxyConnection.held]
  cases hnotified : f.conn.disconnectNotified <;> cases haddr : f.conn.backendAddr <;> rfl

/-- Releasing gives back the slot that is held, whose count is then at least one. -/
theorem Accounted.releaseSlot (h : Accounted others f) : Accounted others f.releaseSlot := by
  unfold Frame.releaseSlot
  split
  · exact h
  · next backend haddr =>
    split
    · exact h
    · next hnotified =>
      have hheld : f.conn.held = some backend := by
        rw [ProxyConnection.held, if_neg hnotified, haddr]
      have hcounts : f.awaitLock.router.Counts fun b => others b + if backend = b then 1 else 0 :=
        (h.counts.marks (f.io.marks.headD [])).congr fun b => by simp [hheld]
      have hone : 1 ≤ (others backend : Int) + if backend = backend then 1 else 0 := by
        rw [if_pos rfl]
        omega
      have hcount : f.awaitLock.router.count backend = others backend + 1 := by
        rw [hcounts.count_eq, if_pos rfl]
      refine ⟨(hcounts.onDisconnect hone).congr fun b => ?_, ?_, ?_⟩
      · simp [ProxyConnection.held, Frame.log]
      · have hledger := h.ledger
        rw [hheld] at hledger
        rw [log_trace, acquired_append, released_append]
        exact (List.append_nil _).trans (hledger.trans (List.append_nil _).symm)
      · intro b n hmem
        rcases List.mem_append.mp hmem with hmem | hmem
        · exact h.positive b n hmem
        · obtain ⟨rfl, rfl⟩ := Action.onDisconnect.inj (List.mem_singleton.mp hmem)
          rw [hcount]
          omega

theorem Accounted.finish (h : Accounted others f) : Accounted others (finish f) := by
  have hlogged : Accounted others (logAccess f.readClock) := by
    unfold logAccess
    split
    · exact Accounted.log (f := f.readClock) (h.congr rfl rfl rfl) rfl rfl
    · exact h.congr rfl rfl rfl
  exact hlogged.releaseSlot.congr rfl rfl rfl

theorem held_finish : (LoadBalancer.finish f).conn.held = none := by
  have h := held_releaseSlot (f := logAccess f.readClock)
  exact h

theorem Accounted.abandonBackend (h : Accounted others f) : Accounted others (abandonBackend f) := by
  refine h.releaseSlot.congr ?_ ?_ ?_
  · simp [LoadBalancer.abandonBackend]
  · simp only [LoadBalancer.abandonBackend, noteTried_conn, closeBackend_conn]
    rfl
  · simp [LoadBalancer.abandonBackend]

theorem held_abandonBackend : (LoadBalancer.abandonBackend f).conn.held = none := by
  have h := held_releaseSlot (f := f)
  rw [LoadBalancer.abandonBackend, noteTried_conn, closeBackend_conn]
  exact h

end Operations

/-! ### Handlers -/

/-- `socket.socket()` and `connect_ex` raise no exception. -/
def ConnectResult.isErrno : ConnectResult → Bool
  | .errno _ _ => true
  | _ => false

def SendResult.isRaises : SendResult → Bool
  | .raises => true
  | _ => false

def SendResult.isOsError : SendResult → Bool
  | .osError => true
  | _ => false

def SendallResult.isRaises : SendallResult → Bool
  | .raises _ => true
  | _ => false

def RecvResult.isRaises : RecvResult → Bool
  | .raises => true
  | _ => false

/-- The handler calls that cannot lose a slot: no send to the client fails while a response is relayed,
and nothing that a handler calls lets an exception escape it while the connection holds a slot. -/
def ReleasesSlot (c : ProxyConnection) (call : Call) (io : Io) : Prop :=
  match call with
  | .timeout => c.held ≠ none → c.clientBytesSent = false → io.sendall.isRaises = false
  | .clientReadable => c.state = .readingRequest → ∀ n, (io.connect n).isErrno
  | .clientWritable =>
      c.state = .forwardingResponse → io.send.isOsError = false ∧ io.send.isRaises = false
  | .backendReadable =>
      c.state = .readingResponse → io.recv.isRaises = false ∧ ∀ n, (io.connect n).isErrno
  | .backendWritable =>
      (c.state = .connectingToBackend → io.soError ≠ .raises) ∧
      (c.state = .connectingToBackend ∨ c.state = .forwardingRequest →
        io.send.isRaises = false ∧ ∀ n, (io.connect n).isErrno)

section Handlers

variable {cfg : Config} {clean : Prop} {others : Backend → Nat} {f : Frame}

/-- The slots after a handler returns; if `clean`, a connection that is `DONE` holds none. -/
structure SlotsKept (clean : Prop) (others : Backend → Nat) (f : Frame) : Prop where
  accounted : Accounted others f
  assigned : Assigned f.conn
  settled : clean → f.conn.state = .done → f.conn.held = none

/-- The slots after a handler raises. -/
structure SlotsLeft (clean : Prop) (others : Backend → Nat) (f : Frame) : Prop where
  accounted : Accounted others f
  settled : clean → f.conn.held = none

theorem SlotsLeft.setDone (h : SlotsLeft clean others f) : SlotsKept clean others (f.setState .done) where
  accounted := h.accounted.congr rfl rfl rfl
  assigned := ⟨by rintro ⟨⟩, fun hstate => absurd rfl hstate⟩
  settled := fun hclean _ => h.settled hclean

/-- A connection that goes on in a later state with its slot. -/
theorem SlotsKept.of_active (h : Accounted others f) (hnotified : f.conn.disconnectNotified = false)
    (hreading : f.conn.state ≠ .readingRequest) (hdone : f.conn.state ≠ .done) :
    SlotsKept clean others f :=
  ⟨h, ⟨fun hstate => absurd hstate hreading, fun _ => hnotified⟩, fun _ hstate => absurd hstate hdone⟩

theorem slotsKept_finish (h : Accounted others f) : SlotsKept clean others (finish f) :=
  ⟨h.finish, ⟨by rw [finish_conn]; rintro ⟨⟩, fun hstate => absurd (by rw [finish_conn]) hstate⟩,
    fun _ _ => held_finish⟩

theorem sendError_slots (code : Nat) (reason : String) (h : Accounted others f)
    (hraises : clean → f.io.sendall.isRaises = true → f.conn.held = none) :
    (sendError code reason f).Post (SlotsKept clean others) (SlotsLeft clean others) := by
  unfold sendError
  split
  · exact slotsKept_finish ((h.errorSent code reason _).congr rfl rfl rfl)
  · exact slotsKept_finish ((h.errorSent code reason _).congr rfl rfl rfl)
  · next n hsendall =>
    exact ⟨h.errorSent code reason _, fun hclean => hraises hclean (by rw [hsendall]; rfl)⟩

/-- Connects and failures hand slots on: the failed attempt gives its slot back before the next attempt
takes one. -/
theorem failover_slots :
    (∀ b f, (Accounted others f ∧ f.conn.disconnectNotified = false) ∧
        (clean → ∀ n, (f.io.connect n).isErrno) →
      (initiateBackendConnect cfg b f).Post (SlotsKept clean others) (SlotsLeft clean others)) ∧
    ∀ f, Accounted others f ∧ (clean → ∀ n, (f.io.connect n).isErrno) →
      (failBackend cfg f).Post (SlotsKept clean others) (SlotsLeft clean others) := by
  have hbegin : ∀ {f : Frame}, Accounted others f → Accounted others (beginConnect cfg f) := fun h =>
    (h.setState .connectingToBackend).refreshDeadline cfg
  have hnotified : ∀ {f : Frame}, f.conn.disconnectNotified = false →
      (beginConnect cfg f).conn.disconnectNotified = false := by
    intro f h
    rw [beginConnect_conn]
    exact h
  have hstate : ∀ f, (beginConnect cfg f).conn.state = .connectingToBackend := by
    intro f
    rw [beginConnect_conn]
  apply failover_post
  case noSocket =>
    rintro b f ⟨⟨h, -⟩, hconnect⟩ hanswer
    refine ⟨hbegin h, fun hclean => ?_⟩
    have := hconnect hclean f.conn.backendAttempts
    rw [hanswer] at this
    cases this
  case raises =>
    rintro b f fd ⟨⟨h, -⟩, hconnect⟩ hanswer
    refine ⟨(hbegin h).openBackendSock b fd, fun hclean => ?_⟩
    have := hconnect hclean f.conn.backendAttempts
    rw [hanswer] at this
    cases this
  case connected =>
    rintro b f fd ⟨⟨h, hn⟩, -⟩ -
    refine SlotsKept.of_active
      ((((hbegin h).openBackendSock b fd).setState .forwardingRequest).refreshDeadline cfg) ?_ ?_ ?_
    · rw [refreshDeadline_conn]
      exact hnotified hn
    · rw [refreshDeadline_conn]
      rintro ⟨⟩
    · rw [refreshDeadline_conn]
      rintro ⟨⟩
  case inProgress =>
    rintro b f fd err ⟨⟨h, hn⟩, -⟩ - -
    refine SlotsKept.of_active ((hbegin h).openBackendSock b fd) (hnotified hn) ?_ ?_
    · exact fun h => State.noConfusion ((hstate f).symm.trans h)
    · exact fun h => State.noConfusion ((hstate f).symm.trans h)
  case refused =>
    rintro b f fd err ⟨⟨h, -⟩, hconnect⟩ - - -
    refine ⟨(hbegin h).openBackendSock b fd, fun hclean n => ?_⟩
    have := hconnect hclean n
    rwa [← beginConnect_connect cfg f] at this
  case retry =>
    rintro b f ⟨h, hconnect⟩ - picked hpick
    refine ⟨⟨h.abandonBackend.nextBackend held_abandonBackend _ rfl rfl hpick.symm, rfl⟩,
      fun hclean n => ?_⟩
    have := hconnect hclean n
    rwa [← abandonBackend_connect f] at this
  case giveUp =>
    rintro f f' ⟨h, -⟩ (rfl | ⟨hnone, rfl⟩)
    · exact sendError_slots 502 _ h.abandonBackend fun _ _ => held_abandonBackend
    · refine sendError_slots 502 _ ?_ fun _ _ => held_abandonBackend
      exact h.abandonBackend.nextBackend held_abandonBackend _ rfl rfl (held_abandonBackend.trans hnone.symm)

theorem SlotsKept.congr (h : SlotsKept clean others f) {f' : Frame} (hrouter : f'.router = f.router)
    (htrace : f'.trace = f.trace) (hstate : f'.conn.state = f.conn.state)
    (haddr : f'.conn.backendAddr = f.conn.backendAddr)
    (hnotified : f'.conn.disconnectNotified = f.conn.disconnectNotified) :
    SlotsKept clean others f' := by
  have hheld : f'.conn.held = f.conn.held := by
    rw [ProxyConnection.held, ProxyConnection.held, haddr, hnotified]
  refine ⟨h.accounted.congr hrouter hheld htrace, ⟨?_, ?_⟩, ?_⟩
  · rw [hstate, haddr]
    exact h.assigned.idle
  · rw [hstate, hnotified]
    exact h.assigned.active
  · rw [hstate, hheld]
    exact h.settled

theorem SlotsKept.refreshDeadline (h : SlotsKept clean others f) (cfg : Config) :
    SlotsKept clean others (refreshDeadline cfg f) :=
  h.congr (refreshDeadline_router cfg f) (refreshDeadline_trace cfg f) (by rw [refreshDeadline_conn])
    (by rw [refreshDeadline_conn]) (by rw [refreshDeadline_conn])

theorem SlotsKept.log (h : SlotsKept clean others f) {a : Action} (hacquired : acquired [a] = [])
    (hreleased : released [a] = []) : SlotsKept clean others (f.log a) :=
  ⟨h.accounted.log hacquired hreleased, h.assigned, h.settled⟩

/-- A connection at work that goes on in another state of its work. -/
theorem SlotsKept.setState (h : SlotsKept clean others f) (hstate : f.conn.state ≠ .done) {state : State}
    (hreading : state ≠ .readingRequest) (hdone : state ≠ .done) :
    SlotsKept clean others (f.setState state) :=
  SlotsKept.of_active (h.accounted.setState state) (h.assigned.active hstate) hreading hdone

theorem SlotsKept.held_of_reading (h : SlotsKept clean others f)
    (hstate : f.conn.state = .readingRequest) : f.conn.held = none :=
  held_of_backendAddr (h.assigned.idle hstate)

theorem handleTimeout_slots (h : SlotsKept clean others f)
    (hguard : clean → ReleasesSlot f.conn .timeout f.io) :
    (handleTimeout f).Post (SlotsKept clean others) (SlotsLeft clean others) := by
  apply handleTimeout_post
  case ended => exact fun _ => h
  case idle =>
    exact fun hreading => sendError_slots 408 _ h.accounted fun _ _ => h.held_of_reading hreading
  case relaying =>
    exact fun _ _ => SlotsLeft.setDone ⟨h.accounted.releaseSlot, fun _ => held_releaseSlot⟩
  case unanswered =>
    intro _ hunsent
    refine sendError_slots 504 _ h.accounted fun hclean hraises => ?_
    by_contra hheld
    have := hguard hclean hheld hunsent
    rw [hraises] at this
    cases this

theorem routeRequest_slots (req : HttpRequest) (h : SlotsKept clean others f)
    (hreading : f.conn.state = .readingRequest)
    (hconnect : clean → ∀ n, (f.io.connect n).isErrno) :
    (routeRequest cfg req f).Post (SlotsKept clean others) (SlotsLeft clean others) := by
  have hheld := h.held_of_reading hreading
  have hstored : Accounted others (storeRequest req f) := h.accounted.congr rfl rfl rfl
  apply routeRequest_post
  case unavailable =>
    intro hpick
    refine sendError_slots 503 _ ?_ fun _ _ => hheld
    exact hstored.nextBackend hheld none rfl rfl (hheld.trans hpick.symm)
  case routed =>
    intro backend hpick
    refine failover_slots.1 _ _ ⟨⟨?_, rfl⟩, hconnect⟩
    exact hstored.nextBackend hheld none rfl rfl hpick.symm

theorem handleClientReadable_slots (h : SlotsKept clean others f)
    (hguard : clean → ReleasesSlot f.conn .clientReadable f.io) :
    (handleClientReadable cfg f).Post (SlotsKept clean others) (SlotsLeft clean others) := by
  have hleft : f.conn.state = .readingRequest → SlotsLeft clean others f := fun hreading =>
    ⟨h.accounted, fun _ => h.held_of_reading hreading⟩
  have hgrown : ∀ bytes, SlotsKept clean others (receiveRequest cfg bytes f) := by
    intro bytes
    refine SlotsKept.refreshDeadline ?_ cfg
    exact h.congr rfl rfl rfl rfl rfl
  have hreading' : f.conn.state = .readingRequest →
      ∀ bytes, (receiveRequest cfg bytes f).conn.state = .readingRequest := by
    intro hreading bytes
    rw [receiveRequest, refreshDeadline_conn]
    exact hreading
  apply handleClientReadable_post
  case ignored => exact fun _ => h
  case blocked => exact fun _ _ => h
  case gone => exact fun hreading _ => (hleft hreading).setDone
  case raises => exact fun hreading _ => hleft hreading
  case tooLarge =>
    intro bytes hreading _ _ _
    exact sendError_slots 413 _ (hgrown bytes).accounted fun _ _ =>
      (hgrown bytes).held_of_reading (hreading' hreading bytes)
  case incomplete => exact fun bytes _ _ _ _ => hgrown bytes
  case complete =>
    intro bytes req hreading _ _ _
    refine routeRequest_slots req (hgrown bytes) (hreading' hreading bytes) fun hclean n => ?_
    rw [receiveRequest, refreshDeadline_connect]
    exact hguard hclean hreading n

theorem SlotsKept.recordForwarded (h : SlotsKept clean others f) (cfg : Config) (accepted : Bytes) :
    SlotsKept clean others (recordForwarded cfg accepted f) := by
  have hlogged : SlotsKept clean others (f.log (.backendSent accepted)) := h.log rfl rfl
  unfold LoadBalancer.recordForwarded
  dsimp only
  split
  · exact hlogged.congr rfl rfl rfl rfl rfl
  · exact (hlogged.refreshDeadline cfg).congr rfl rfl rfl rfl rfl

theorem SlotsKept.recordRelayed (h : SlotsKept clean others f) (cfg : Config) (accepted : Bytes) :
    SlotsKept clean others (recordRelayed cfg accepted f) := by
  have hlogged : SlotsKept clean others (f.log (.clientSent accepted)) := h.log rfl rfl
  unfold LoadBalancer.recordRelayed
  dsimp only
  split
  · exact hlogged.congr rfl rfl rfl rfl rfl
  · refine SlotsKept.congr (SlotsKept.refreshDeadline ?_ cfg) rfl rfl rfl rfl rfl
    exact hlogged.congr rfl rfl rfl rfl rfl

theorem forwardRequest_slots (h : SlotsKept clean others f) (hstate : f.conn.state = .forwardingRequest)
    (hguard : clean → f.io.send.isRaises = false ∧ ∀ n, (f.io.connect n).isErrno) :
    (forwardRequest cfg f).Post (SlotsKept clean others) (SlotsLeft clean others) := by
  apply forwardRequest_post
  case blocked => exact fun _ => h
  case broken => exact fun _ => failover_slots.2 f ⟨h.accounted, fun hclean => (hguard hclean).2⟩
  case raises =>
    intro hsend
    refine ⟨h.accounted, fun hclean => ?_⟩
    have := (hguard hclean).1
    rw [hsend] at this
    cases this
  case sentAll =>
    intro n accepted _ _ _
    refine SlotsKept.refreshDeadline
      ((h.recordForwarded cfg accepted).setState ?_ (by rintro ⟨⟩) (by rintro ⟨⟩)) cfg
    rw [recordForwarded_conn]
    rw [hstate]
    rintro ⟨⟩
  case sentSome => exact fun n accepted _ _ _ => h.recordForwarded cfg accepted

theorem handleBackendWritable_slots (h : SlotsKept clean others f)
    (hguard : clean → ReleasesSlot f.conn .backendWritable f.io) :
    (handleBackendWritable cfg f).Post (SlotsKept clean others) (SlotsLeft clean others) := by
  apply handleBackendWritable_post
  case ignored => exact fun _ _ => h
  case raises =>
    exact fun hstate hraises => ⟨h.accounted, fun hclean => absurd hraises ((hguard hclean).1 hstate)⟩
  case refused =>
    intro err hstate _ _
    exact failover_slots.2 f ⟨h.accounted, fun hclean => ((hguard hclean).2 (Or.inl hstate)).2⟩
  case connected =>
    intro hstate _
    have hactive : f.conn.state ≠ .done := by rw [hstate]; rintro ⟨⟩
    refine forwardRequest_slots (SlotsKept.refreshDeadline
      (h.setState hactive (by rintro ⟨⟩) (by rintro ⟨⟩)) cfg) ?_ fun hclean => ?_
    · rw [refreshDeadline_conn]
      rfl
    · rw [refreshDeadline_send, refreshDeadline_connect]
      exact (hguard hclean).2 (Or.inl hstate)
  case forwarding =>
    exact fun hstate => forwardRequest_slots h hstate fun hclean => (hguard hclean).2 (Or.inr hstate)

theorem SlotsKept.prepareRelay (h : SlotsKept clean others f) (hstate : f.conn.state ≠ .done)
    (cfg : Config) : SlotsKept clean others (prepareRelay cfg f) := by
  refine SlotsKept.refreshDeadline ?_ cfg
  have hrelaying : SlotsKept clean others (f.setState .forwardingResponse) :=
    h.setState hstate (by rintro ⟨⟩) (by rintro ⟨⟩)
  exact hrelaying.congr rfl rfl rfl rfl rfl

theorem handleBackendReadable_slots (h : SlotsKept clean others f)
    (hguard : clean → ReleasesSlot f.conn .backendReadable f.io) :
    (handleBackendReadable cfg f).Post (SlotsKept clean others) (SlotsLeft clean others) := by
  have hactive : f.conn.state = .readingResponse → f.conn.state ≠ .done := by
    intro hstate
    rw [hstate]
    rintro ⟨⟩
  have hlogged : ∀ bytes, SlotsKept clean others (f.log (.backendReceived bytes)) := fun _ => h.log rfl rfl
  apply handleBackendReadable_post
  case ignored => exact fun _ => h
  case blocked => exact fun _ _ => h
  case broken =>
    exact fun hstate _ => failover_slots.2 f ⟨h.accounted, fun hclean => (hguard hclean hstate).2⟩
  case raises =>
    intro hstate hrecv
    refine ⟨h.accounted, fun hclean => ?_⟩
    have := (hguard hclean hstate).1
    rw [hrecv] at this
    cases this
  case closed =>
    intro hstate _
    apply backendClosed_post
    case cutOff =>
      exact fun _ _ => failover_slots.2 _ ⟨(hlogged []).accounted, fun hclean => (hguard hclean hstate).2⟩
    case relay => exact (hlogged []).prepareRelay (hactive hstate) cfg
  case received =>
    intro bytes hstate _ _
    have hgrown : SlotsKept clean others
        (receiveResponse cfg bytes (f.log (.backendReceived bytes))) := by
      refine (hlogged bytes).congr (refreshDeadline_router _ _) (refreshDeadline_trace _ _) ?_ ?_ ?_
      all_goals rw [receiveResponse_conn]
    apply checkComplete_post
    case stay => exact fun received => hgrown.congr rfl rfl rfl rfl rfl
    case relay =>
      intro received buf _
      refine SlotsKept.prepareRelay ?_ ?_ cfg
      · exact hgrown.congr rfl rfl rfl rfl rfl
      · rw [update_conn, receiveResponse_conn]
        exact hactive hstate

theorem handleClientWritable_slots (h : SlotsKept clean others f)
    (hguard : clean → ReleasesSlot f.conn .clientWritable f.io) :
    (handleClientWritable cfg f).Post (SlotsKept clean others) (SlotsLeft clean others) := by
  apply handleClientWritable_post
  case ignored => exact fun _ => h
  case blocked => exact fun _ _ => h
  case gone =>
    intro hstate hsend
    refine SlotsLeft.setDone ⟨h.accounted, fun hclean => ?_⟩
    have := (hguard hclean hstate).1
    rw [hsend] at this
    cases this
  case raises =>
    intro hstate hsend
    refine ⟨h.accounted, fun hclean => ?_⟩
    have := (hguard hclean hstate).2
    rw [hsend] at this
    cases this
  case sentAll => exact fun _ accepted _ _ _ _ => slotsKept_finish (h.recordRelayed cfg accepted).accounted
  case sentSome => exact fun _ accepted _ _ _ _ => h.recordRelayed cfg accepted

/-- **Slots of one call.** Every handler keeps the accounting, and one that meets `ReleasesSlot` leaves
no slot with a connection that is `DONE`. -/
theorem handle_slots (cfg : Config) (c : Call) (h : SlotsKept clean others f)
    (hguard : clean → ReleasesSlot f.conn c f.io) :
    (handle cfg c f).Post (SlotsKept clean others) (SlotsLeft clean others) := by
  cases c with
  | timeout => exact handleTimeout_slots h hguard
  | clientReadable => exact handleClientReadable_slots h hguard
  | clientWritable => exact handleClientWritable_slots h hguard
  | backendReadable => exact handleBackendReadable_slots h hguard
  | backendWritable => exact handleBackendWritable_slots h hguard

end Handlers

end LoadBalancer
