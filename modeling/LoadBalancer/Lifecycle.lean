import LoadBalancer.Attempts
import LoadBalancer.Registrations

/-! The life of a connection. Its state goes forward in the documented order, and back only to connect
again with one more attempt; while it waits for a backend it has an open socket for it; once `DONE` it does
nothing more. -/

namespace LoadBalancer

open Outcome

/-- The place of a state in the documented order. -/
def State.position : State → Nat
  | .readingRequest => 0
  | .connectingToBackend => 1
  | .forwardingRequest => 2
  | .readingResponse => 3
  | .forwardingResponse => 4
  | .done => 5

/-- `(_backend_attempts, state)`, ordered lexicographically. -/
def ProxyConnection.progress (c : ProxyConnection) : Nat ×ₗ Nat := toLex (c.backendAttempts, c.state.position)

/-- A connection that reads its request has made no attempt, and has no complete request yet. -/
def ProxyConnection.Waits (c : ProxyConnection) : Prop :=
  c.state = .readingRequest → c.backendAttempts = 0 ∧ tryParseRequest c.requestBuf = none

/-- A backend is connected to, sent the request, or read from. -/
def ProxyConnection.AwaitsBackend (c : ProxyConnection) : Prop :=
  c.state = .connectingToBackend ∨ c.state = .forwardingRequest ∨ c.state = .readingResponse

theorem ProxyConnection.AwaitsBackend.not_done {c : ProxyConnection} (h : c.AwaitsBackend) : c.state ≠ .done := by
  rcases h with h | h | h <;> rw [h] <;> rintro ⟨⟩

theorem Dealt.assigned {cfg : Config} {c : ProxyConnection} {d : Dealings} (h : Dealt cfg c d)
    (hawaits : c.AwaitsBackend) :
    ∃ b req sock, c.backendAddr = some b ∧ c.parsedRequest = some req ∧ c.backendSock = some sock := by
  have hassigned : c.Trying cfg d ∧ c.Sending d := by
    rcases hawaits with hstate | hstate | hstate <;> rw [Dealt, hstate] at h
    · exact ⟨h.1, h.2.1⟩
    · exact ⟨h.1, h.2.1⟩
    · exact ⟨h.1, h.2.1⟩
  obtain ⟨b, sock, haddr, hsock, -⟩ := hassigned.2.accepted
  obtain ⟨req, hreq, -⟩ := hassigned.1.written
  exact ⟨b, req, sock, haddr, hreq, hsock⟩

/-- The connection has gone on, or is where it was. -/
structure Onward (c₀ c : ProxyConnection) : Prop where
  progress : c₀.progress ≤ c.progress
  waits : c.Waits

section Progress

variable {c₀ c : ProxyConnection}

theorem State.position_le_done (s : State) : s.position ≤ State.done.position := by
  cases s <;> decide

theorem progress_le_iff :
    c₀.progress ≤ c.progress ↔ c₀.backendAttempts < c.backendAttempts ∨
      c₀.backendAttempts = c.backendAttempts ∧ c₀.state.position ≤ c.state.position :=
  Prod.Lex.toLex_le_toLex

theorem Onward.refl (h : c.Waits) : Onward c c := ⟨le_rfl, h⟩

theorem onward_of_state (hattempts : c.backendAttempts = c₀.backendAttempts)
    (hposition : c₀.state.position ≤ c.state.position) (hstate : c.state ≠ .readingRequest) : Onward c₀ c :=
  ⟨progress_le_iff.mpr (.inr ⟨hattempts.symm, hposition⟩), fun h => absurd h hstate⟩

theorem onward_of_attempt (hattempts : c₀.backendAttempts < c.backendAttempts)
    (hstate : c.state ≠ .readingRequest) : Onward c₀ c :=
  ⟨progress_le_iff.mpr (.inl hattempts), fun h => absurd h hstate⟩

theorem onward_of_done (hattempts : c₀.backendAttempts ≤ c.backendAttempts) (hdone : c.state = .done) :
    Onward c₀ c := by
  refine ⟨progress_le_iff.mpr ?_, fun h => State.noConfusion (hdone.symm.trans h)⟩
  rw [hdone]
  exact (Nat.lt_or_eq_of_le hattempts).imp_right fun heq => ⟨heq, State.position_le_done _⟩

end Progress

/-! ### Handlers -/

section Handlers

variable {cfg : Config} {c₀ : ProxyConnection} {f : Frame}

theorem sendError_onward (hattempts : c₀.backendAttempts ≤ f.conn.backendAttempts) (code : Nat)
    (reason : String) :
    (sendError code reason f).Post (fun f' => Onward c₀ f'.conn)
      fun f' => c₀.backendAttempts ≤ f'.conn.backendAttempts := by
  have hfinished : ∀ g : Frame, g.conn.backendAttempts = f.conn.backendAttempts →
      Onward c₀ (finish g).conn := by
    intro g hg
    refine onward_of_done ?_ (by rw [finish_conn])
    rw [finish_conn]
    exact hg.symm ▸ hattempts
  unfold sendError
  split
  · exact hfinished _ rfl
  · exact hfinished _ rfl
  · exact hattempts

/-- A connect starts with an attempt more than before, and a failure keeps the attempts. -/
theorem failover_onward (cfg : Config) (c₀ : ProxyConnection) :
    (∀ b f, c₀.backendAttempts < f.conn.backendAttempts →
      (initiateBackendConnect cfg b f).Post (fun f' => Onward c₀ f'.conn)
        fun f' => c₀.backendAttempts ≤ f'.conn.backendAttempts) ∧
    ∀ f, c₀.backendAttempts ≤ f.conn.backendAttempts →
      (failBackend cfg f).Post (fun f' => Onward c₀ f'.conn)
        fun f' => c₀.backendAttempts ≤ f'.conn.backendAttempts := by
  apply failover_post
  case noSocket =>
    intro b f h _
    rw [beginConnect_conn]
    exact h.le
  case raises =>
    intro b f fd h _
    rw [openBackendSock_conn, beginConnect_conn]
    exact h.le
  case connected =>
    intro b f fd h _
    rw [refreshDeadline_conn, setState_conn, openBackendSock_conn, beginConnect_conn]
    exact onward_of_attempt h State.noConfusion
  case inProgress =>
    intro b f fd err h _ _
    rw [openBackendSock_conn, beginConnect_conn]
    exact onward_of_attempt h State.noConfusion
  case refused =>
    intro b f fd err h _ _ _
    rw [openBackendSock_conn, beginConnect_conn]
    exact h.le
  case retry =>
    intro b f h _ picked _
    rw [resetForRetry, update_conn, nextBackend_conn, abandonBackend_conn]
    exact Nat.lt_succ_of_le h
  case giveUp =>
    rintro f f' h (rfl | ⟨-, rfl⟩)
    · refine sendError_onward ?_ 502 _
      rw [abandonBackend_conn]
      exact h
    · refine sendError_onward ?_ 502 _
      rw [nextBackend_conn, abandonBackend_conn]
      exact h

theorem handleTimeout_onward (f : Frame) :
    (handleTimeout f).Post (fun f' => Onward f.conn f'.conn)
      fun f' => f.conn.backendAttempts ≤ f'.conn.backendAttempts := by
  apply handleTimeout_post
  case ended => exact fun hdone => onward_of_done le_rfl hdone
  case idle => exact fun _ => sendError_onward le_rfl 408 _
  case relaying =>
    intro _ _
    rw [setState_conn, releaseSlot_conn]
    exact onward_of_done le_rfl rfl
  case unanswered => exact fun _ _ => sendError_onward le_rfl 504 _

theorem routeRequest_onward (req : HttpRequest) (hnone : c₀.backendAttempts = 0)
    (hattempts : f.conn.backendAttempts = 0) :
    (routeRequest cfg req f).Post (fun f' => Onward c₀ f'.conn)
      fun f' => c₀.backendAttempts ≤ f'.conn.backendAttempts := by
  apply routeRequest_post
  case unavailable =>
    refine fun _ => sendError_onward ?_ 503 _
    rw [nextBackend_conn, storeRequest, update_conn]
    exact (hnone.trans hattempts.symm).le
  case routed =>
    refine fun backend _ => (failover_onward cfg c₀).1 backend _ ?_
    rw [hnone]
    exact Nat.one_pos

theorem handleClientReadable_onward (h : f.conn.Waits) :
    (handleClientReadable cfg f).Post (fun f' => Onward f.conn f'.conn)
      fun f' => f.conn.backendAttempts ≤ f'.conn.backendAttempts := by
  have hsame : ∀ bytes, (receiveRequest cfg bytes f).conn.backendAttempts = f.conn.backendAttempts := by
    intro bytes
    rw [receiveRequest_conn]
  apply handleClientReadable_post
  case ignored => exact fun _ => .refl h
  case blocked => exact fun _ _ => .refl h
  case gone => exact fun _ _ => onward_of_done le_rfl rfl
  case raises => exact fun _ _ => le_rfl
  case tooLarge => exact fun bytes _ _ _ _ => sendError_onward (hsame bytes).ge 413 _
  case incomplete =>
    intro bytes hreading _ _ hparse
    refine ⟨progress_le_iff.mpr (.inr ⟨(hsame bytes).symm, ?_⟩), fun _ => ⟨?_, hparse⟩⟩
    · rw [receiveRequest_conn]
    · rw [hsame bytes]
      exact (h hreading).1
  case complete =>
    intro bytes req hreading _ _ _
    exact routeRequest_onward req (h hreading).1 ((hsame bytes).trans (h hreading).1)

theorem forwardRequest_onward (hattempts : f.conn.backendAttempts = c₀.backendAttempts)
    (hposition : c₀.state.position ≤ f.conn.state.position) (hstate : f.conn.state = .forwardingRequest) :
    (forwardRequest cfg f).Post (fun f' => Onward c₀ f'.conn)
      fun f' => c₀.backendAttempts ≤ f'.conn.backendAttempts := by
  have hnot : f.conn.state ≠ .readingRequest := by
    rw [hstate]
    rintro ⟨⟩
  apply forwardRequest_post
  case blocked => exact fun _ => onward_of_state hattempts hposition hnot
  case broken => exact fun _ => (failover_onward cfg c₀).2 f hattempts.ge
  case raises => exact fun _ => hattempts.ge
  case sentAll =>
    intro _ accepted _ _ _
    rw [refreshDeadline_conn, setState_conn, recordForwarded_conn]
    rw [hstate] at hposition
    have hnext : State.forwardingRequest.position ≤ State.readingResponse.position := by decide
    exact onward_of_state hattempts (hposition.trans hnext) State.noConfusion
  case sentSome =>
    intro _ accepted _ _ _
    rw [recordForwarded_conn]
    exact onward_of_state hattempts hposition hnot

theorem handleBackendWritable_onward (h : f.conn.Waits) :
    (handleBackendWritable cfg f).Post (fun f' => Onward f.conn f'.conn)
      fun f' => f.conn.backendAttempts ≤ f'.conn.backendAttempts := by
  apply handleBackendWritable_post
  case ignored => exact fun _ _ => .refl h
  case raises => exact fun _ _ => le_rfl
  case refused => exact fun _ _ _ _ => (failover_onward cfg f.conn).2 f le_rfl
  case connected =>
    intro hconnecting _
    refine forwardRequest_onward ?_ ?_ ?_
    · rw [refreshDeadline_conn]
      rfl
    · rw [refreshDeadline_conn, hconnecting]
      exact Nat.le_succ 1
    · rw [refreshDeadline_conn]
      rfl
  case forwarding => exact fun hforwarding => forwardRequest_onward rfl le_rfl hforwarding

theorem prepareRelay_onward (hattempts : f.conn.backendAttempts = c₀.backendAttempts)
    (hreading : c₀.state = .readingResponse) : Onward c₀ (prepareRelay cfg f).conn := by
  rw [prepareRelay_conn]
  refine onward_of_state hattempts ?_ State.noConfusion
  rw [hreading]
  exact Nat.le_succ 3

theorem handleBackendReadable_onward (h : f.conn.Waits) :
    (handleBackendReadable cfg f).Post (fun f' => Onward f.conn f'.conn)
      fun f' => f.conn.backendAttempts ≤ f'.conn.backendAttempts := by
  apply handleBackendReadable_post
  case ignored => exact fun _ => .refl h
  case blocked => exact fun _ _ => .refl h
  case broken => exact fun _ _ => (failover_onward cfg f.conn).2 f le_rfl
  case raises => exact fun _ _ => le_rfl
  case closed =>
    intro hreading _
    apply backendClosed_post
    case cutOff => exact fun _ _ => (failover_onward cfg f.conn).2 _ le_rfl
    case relay => exact prepareRelay_onward rfl hreading
  case received =>
    intro bytes hreading _ _
    have hattempts : (receiveResponse cfg bytes (f.log (.backendReceived bytes))).conn.backendAttempts =
        f.conn.backendAttempts := by
      rw [receiveResponse_conn]
      rfl
    have hstate : (receiveResponse cfg bytes (f.log (.backendReceived bytes))).conn.state =
        f.conn.state := by
      rw [receiveResponse_conn]
      rfl
    apply checkComplete_post
    case stay =>
      refine fun received => onward_of_state hattempts (hstate ▸ le_rfl) ?_
      rw [update_conn, hstate, hreading]
      rintro ⟨⟩
    case relay => exact fun received buf _ => prepareRelay_onward hattempts hreading

theorem handleClientWritable_onward (h : f.conn.Waits) :
    (handleClientWritable cfg f).Post (fun f' => Onward f.conn f'.conn)
      fun f' => f.conn.backendAttempts ≤ f'.conn.backendAttempts := by
  have hsame : ∀ accepted, (recordRelayed cfg accepted f).conn.backendAttempts = f.conn.backendAttempts := by
    intro accepted
    rw [recordRelayed_conn]
  apply handleClientWritable_post
  case ignored => exact fun _ => .refl h
  case blocked => exact fun _ _ => .refl h
  case gone => exact fun _ _ => onward_of_done le_rfl rfl
  case raises => exact fun _ _ => le_rfl
  case sentAll =>
    intro _ accepted _ _ _ _
    rw [finish_conn]
    exact onward_of_done (hsame accepted).ge rfl
  case sentSome =>
    intro _ accepted hrelaying _ _ _
    have hstate : (recordRelayed cfg accepted f).conn.state = f.conn.state := by
      rw [recordRelayed_conn]
    refine onward_of_state (hsame accepted) (hstate ▸ le_rfl) ?_
    rw [hstate, hrelaying]
    rintro ⟨⟩

/-- **No handler call turns a connection back**, except to connect again with one more attempt. -/
theorem handle_onward (c : Call) (h : f.conn.Waits) :
    (handle cfg c f).Post (fun f' => Onward f.conn f'.conn)
      fun f' => Onward f.conn (f'.setState .done).conn := by
  have hpost : (handle cfg c f).Post (fun f' => Onward f.conn f'.conn)
      fun f' => f.conn.backendAttempts ≤ f'.conn.backendAttempts := by
    cases c with
    | timeout => exact handleTimeout_onward f
    | clientReadable => exact handleClientReadable_onward h
    | clientWritable => exact handleClientWritable_onward h
    | backendReadable => exact handleBackendReadable_onward h
    | backendWritable => exact handleBackendWritable_onward h
  exact hpost.mono (fun _ hret => hret) fun _ hexc => onward_of_done hexc rfl

end Handlers

/-! ### Runs -/

namespace Fleet

variable {cfg : Config} {router : Router} {w w' : Fleet} {events : List Event}

theorem waits_of_run (hrun : Machine.run (step cfg) (init router) events = some w) :
    ∀ s ∈ w.sessions, s.conn.Waits := by
  refine session_invariant (fun s => s.conn.Waits) ?_ ?_ ?_ (fun _ h => h) (by rintro s ⟨⟩) hrun
  · exact fun _ _ _ _ _ => ⟨rfl, rfl⟩
  · exact fun c f h => (handle_onward c (f := f) h).mono (fun _ hret => hret.waits) fun _ hexc => hexc.waits
  · exact fun s _ => State.noConfusion

theorem progress_of_run {i : Nat} {s : Session} {later : List Event} (hs : w.sessions[i]? = some s)
    (hwaits : s.conn.Waits) (hlater : Machine.run (step cfg) w later = some w') :
    ∃ s', w'.sessions[i]? = some s' ∧ s.conn.progress ≤ s'.conn.progress := by
  have hkeeps : ∃ s', w'.sessions[i]? = some s' ∧ Onward s.conn s'.conn := by
    refine session_keeps (fun t => Onward s.conn t.conn) ?_ ?_ ?_ hs (.refl hwaits) hlater
    · exact fun c f h => (handle_onward c (f := f) h.waits).mono
        (fun _ hret => ⟨h.progress.trans hret.progress, hret.waits⟩)
        fun _ hexc => ⟨h.progress.trans hexc.progress, hexc.waits⟩
    · intro t h
      have hdone : Onward t.conn t.markDone.conn := onward_of_done le_rfl rfl
      exact ⟨h.progress.trans hdone.progress, hdone.waits⟩
    · exact fun t h => ⟨h.progress, h.waits⟩
  obtain ⟨s', hs', honward⟩ := hkeeps
  exact ⟨s', hs', honward.progress⟩

/-- A call on a connection that is over changes nothing at all. -/
theorem step_call_done {i : Nat} {s : Session} (hs : w.sessions[i]? = some s) (hdone : s.conn.state = .done)
    (c : Call) (io : Io) : step cfg w (.call i c io) = some w := by
  have hhandle : handle cfg c (w.frame s io) = .returned (w.frame s io) := handle_done c hdone
  rw [step_call_of_returned hs hhandle, put_frame hs]

/-! ### The backend sockets of all connections -/

/-- What the reactor does to the sockets between handler calls leaves open the backend sockets that are in
use. -/
def SparesBackends (w : Fleet) : Event → Prop
  | .sockets os =>
      w.os.nextRef ≤ os.nextRef ∧ ∀ s ∈ w.sessions, s.conn.state ≠ .done →
        ∀ sock, s.conn.backendSock = some sock → sock ∈ w.os.opened → sock ∈ os.opened
  | _ => True

/-- No two connections have the same backend socket, and those of the connections that are not over are
open. -/
structure BackendsOpen (w : Fleet) : Prop where
  bounded : ∀ (i : Nat) (t : Session) (sock : Sock), w.sessions[i]? = some t →
    t.conn.backendSock = some sock → sock.ref < w.os.nextRef
  distinct : ∀ (i j : Nat) (t u : Session) (sock : Sock), w.sessions[i]? = some t →
    w.sessions[j]? = some u → t.conn.backendSock = some sock → u.conn.backendSock = some sock → i = j
  live : ∀ (i : Nat) (t : Session) (sock : Sock), w.sessions[i]? = some t → t.conn.state ≠ .done →
    t.conn.backendSock = some sock → sock ∈ w.os.opened

theorem backendsOpen_init (router : Router) : BackendsOpen (init router) :=
  ⟨by rintro i t sock ⟨⟩, by rintro i j t u sock ⟨⟩, by rintro i t sock ⟨⟩⟩

/-- Connections that have the backend socket they had, or none. -/
theorem BackendsOpen.of_same (h : BackendsOpen w) (hnext : w.os.nextRef ≤ w'.os.nextRef)
    (hsame : ∀ (j : Nat) (u' : Session), w'.sessions[j]? = some u' → u'.conn.backendSock = none ∨
      ∃ u, w.sessions[j]? = some u ∧ u'.conn.backendSock = u.conn.backendSock ∧
        (u'.conn.state ≠ .done → u.conn.state ≠ .done))
    (hopen : ∀ u ∈ w.sessions, u.conn.state ≠ .done → ∀ sock, u.conn.backendSock = some sock →
      sock ∈ w.os.opened → sock ∈ w'.os.opened) : BackendsOpen w' := by
  have hback : ∀ (j : Nat) (u' : Session) (sock : Sock), w'.sessions[j]? = some u' →
      u'.conn.backendSock = some sock → ∃ u, w.sessions[j]? = some u ∧ u.conn.backendSock = some sock ∧
        (u'.conn.state ≠ .done → u.conn.state ≠ .done) := by
    intro j u' sock hu' hsock
    rcases hsame j u' hu' with hnone | ⟨u, hu, heq, hdone⟩
    · cases hnone.symm.trans hsock
    · exact ⟨u, hu, heq.symm.trans hsock, hdone⟩
  refine ⟨fun i t sock ht hsock => ?_, fun i j t u sock ht hu hsock hsock' => ?_,
    fun i t sock ht hdone hsock => ?_⟩
  · obtain ⟨t₀, ht₀, hsock₀, -⟩ := hback i t sock ht hsock
    exact (h.bounded i t₀ sock ht₀ hsock₀).trans_le hnext
  · obtain ⟨t₀, ht₀, hsock₀, -⟩ := hback i t sock ht hsock
    obtain ⟨u₀, hu₀, hsock₀', -⟩ := hback j u sock hu hsock'
    exact h.distinct i j t₀ u₀ sock ht₀ hu₀ hsock₀ hsock₀'
  · obtain ⟨t₀, ht₀, hsock₀, hdone₀⟩ := hback i t sock ht hsock
    exact hopen t₀ (List.mem_of_getElem? ht₀) (hdone₀ hdone) sock hsock₀
      (h.live i t₀ sock ht₀ (hdone₀ hdone) hsock₀)

/-- A handler call on a connection that is not over. -/
theorem BackendsOpen.put (h : BackendsOpen w) {i : Nat} {t : Session} (ht : w.sessions[i]? = some t)
    (hdone : t.conn.state ≠ .done) {io : Io} {f : Frame} (hwithin : Within (w.frame t io) f) :
    BackendsOpen (w.put i f) := by
  have hmine : ∀ j u, (w.put i f).sessions[j]? = some u → j = i → u.conn = f.conn := by
    rintro j u hu rfl
    exact congrArg Session.conn (eq_sessionOf_of_put ht hu)
  have hothers : ∀ j u, (w.put i f).sessions[j]? = some u → j ≠ i → w.sessions[j]? = some u := by
    intro j u hu hij
    rwa [getElem?_put_ne (Ne.symm hij)] at hu
  -- a backend socket after the call was there before, or is one that the call has opened
  have hback : ∀ j u sock, (w.put i f).sessions[j]? = some u → u.conn.backendSock = some sock →
      (∃ u₀, w.sessions[j]? = some u₀ ∧ u₀.conn.backendSock = some sock) ∨
        j = i ∧ w.os.nextRef ≤ sock.ref ∧ sock.ref < f.os.nextRef := by
    intro j u sock hu hsock
    by_cases hij : j = i
    · rw [hmine j u hu hij] at hsock
      exact (hwithin.backend sock hsock).imp (fun hold => ⟨t, hij ▸ ht, hold⟩) fun hnew => ⟨hij, hnew⟩
    · exact .inl ⟨u, hothers j u hu hij, hsock⟩
  refine ⟨fun j u sock hu hsock => ?_, fun j k u v sock hu hv hsock hsock' => ?_,
    fun j u sock hu hlive hsock => ?_⟩
  · rcases hback j u sock hu hsock with ⟨u₀, hu₀, hsock₀⟩ | ⟨-, -, hlt⟩
    · exact (h.bounded j u₀ sock hu₀ hsock₀).trans_le hwithin.evolves.next
    · exact hlt
  · rcases hback j u sock hu hsock with ⟨u₀, hu₀, hsock₀⟩ | ⟨rfl, hnew, -⟩
    · rcases hback k v sock hv hsock' with ⟨v₀, hv₀, hsock₀'⟩ | ⟨rfl, hnew, -⟩
      · exact h.distinct j k u₀ v₀ sock hu₀ hv₀ hsock₀ hsock₀'
      · exact absurd (h.bounded j u₀ sock hu₀ hsock₀) (Nat.not_lt.mpr hnew)
    · rcases hback k v sock hv hsock' with ⟨v₀, hv₀, hsock₀'⟩ | ⟨rfl, -⟩
      · exact absurd (h.bounded k v₀ sock hv₀ hsock₀') (Nat.not_lt.mpr hnew)
      · rfl
  · by_cases hij : j = i
    · rw [hmine j u hu hij] at hsock
      exact hwithin.live (fun sock₀ => h.live i t sock₀ ht hdone) sock hsock
    · have hu₀ := hothers j u hu hij
      refine hwithin.evolves.kept sock (h.live j u sock hu₀ hlive hsock) fun hsock' => hij ?_
      exact h.distinct j i u t sock hu₀ ht hsock hsock'

theorem BackendsOpen.step (h : BackendsOpen w) (hidle : ∀ s ∈ w.sessions, s.conn.state = .readingRequest →
    s.conn.backendSock = none) {e : Event} (hspares : SparesBackends w e)
    (hstep : Fleet.step cfg w e = some w') : BackendsOpen w' := by
  have hmodify : ∀ (i : Nat) (change : Session → Session),
      (∀ s, (change s).conn.backendSock = s.conn.backendSock) →
      (∀ s, (change s).conn.state ≠ .done → s.conn.state ≠ .done) →
      BackendsOpen { w with sessions := w.sessions.modify i change } := by
    intro i change hsock hstate
    refine h.of_same le_rfl (fun j u' hu' => .inr ?_) fun _ _ _ _ _ hopen => hopen
    rw [List.getElem?_modify, Option.map_eq_map, Option.map_eq_some_iff] at hu'
    obtain ⟨u, hu, rfl⟩ := hu'
    refine ⟨u, hu, ?_, ?_⟩
    · split
      · exact hsock u
      · rfl
    · split
      · exact hstate u
      · exact fun hdone => hdone
  cases e with
  | accept fd addr clock =>
      obtain rfl := Option.some.inj hstep
      refine h.of_same (Nat.le_succ _) (fun j u' hu' => ?_) fun _ _ _ _ _ hopen =>
        List.mem_cons_of_mem _ hopen
      rcases Nat.lt_or_ge j w.sessions.length with hj | hj
      · rw [accept, List.getElem?_append_left hj] at hu'
        exact .inr ⟨u', hu', rfl, fun hdone => hdone⟩
      · refine .inl ?_
        rw [accept, List.getElem?_append_right hj] at hu'
        rw [List.mem_singleton.mp (List.mem_of_getElem? hu')]
        rfl
  | call i c io =>
      obtain ⟨t, f, ht, hends, rfl⟩ := step_call_cases hstep
      by_cases hdone : t.conn.state = .done
      · rw [step_call_done ht hdone] at hstep
        exact Option.some.inj hstep ▸ h
      · have hmoved : (handle cfg c (w.frame t io)).Post _ _ :=
          handle_moved c (hidle t (List.mem_of_getElem? ht))
        have hwithin : Within (w.frame t io) f := hends.of_post
          (hmoved.mono (fun _ hret => hret.within) fun _ hexc => hexc.of_same ⟨rfl, rfl, rfl⟩)
        exact h.put ht hdone hwithin
  | abort i =>
      obtain rfl := Option.some.inj hstep
      exact hmodify i Session.markDone (fun _ => rfl) fun s hdone => absurd rfl hdone
  | mark m =>
      obtain rfl := Option.some.inj hstep
      exact ⟨h.bounded, h.distinct, h.live⟩
  | tick reading =>
      obtain rfl := Option.some.inj hstep
      exact ⟨h.bounded, h.distinct, h.live⟩
  | sockets os =>
      obtain rfl := Option.some.inj hstep
      exact h.of_same hspares.1 (fun j u hu => .inr ⟨u, hu, rfl, fun hdone => hdone⟩) hspares.2
  | unregistered i =>
      obtain rfl := Option.some.inj hstep
      exact hmodify i Session.clearPending (fun _ => rfl) fun s hdone => hdone

theorem backendsOpen_of_run (hguard : Machine.Guarded (step cfg) SparesBackends (init router) events)
    (hrun : Machine.run (step cfg) (init router) events = some w) : BackendsOpen w := by
  suffices h : (∃ before, Machine.run (step cfg) (init router) before = some w) ∧ BackendsOpen w from h.2
  refine Machine.run_invariant_of_guarded (fun w =>
    (∃ before, Machine.run (step cfg) (init router) before = some w) ∧ BackendsOpen w) ?_
    ⟨⟨[], rfl⟩, backendsOpen_init router⟩ hguard hrun
  rintro w e w' ⟨⟨before, hbefore⟩, hopen⟩ hspares hstep
  refine ⟨⟨before ++ [e], ?_⟩, hopen.step (fun s hs hreading => ?_) hspares hstep⟩
  · rw [Machine.run_append, hbefore, Option.bind_some]
    exact Machine.run_cons_eq_some.mpr ⟨w', hstep, rfl⟩
  · have hdealt := dealt_of_run hbefore s hs
    rw [Dealt, hreading] at hdealt
    exact hdealt.1.backendSock

/-- **The life of a connection.** In every run, whatever handlers are called and however the sockets answer,
`(_backend_attempts, state)` never decreases; a connection that waits for a backend has a backend, a request
and an open socket; and no handler call on a connection that is `DONE` changes anything. -/
theorem lifecycle (hrun : Machine.run (step cfg) (init router) events = some w) :
    (∀ (i : Nat) (s : Session) (later : List Event) (w' : Fleet), w.sessions[i]? = some s →
      Machine.run (step cfg) w later = some w' →
        ∃ s', w'.sessions[i]? = some s' ∧ s.conn.progress ≤ s'.conn.progress) ∧
    (∀ s ∈ w.sessions, s.conn.AwaitsBackend → ∃ b req sock, s.conn.backendAddr = some b ∧
      s.conn.parsedRequest = some req ∧ s.conn.backendSock = some sock ∧
      (Machine.Guarded (step cfg) SparesBackends (init router) events → sock ∈ w.os.opened)) ∧
    (∀ (i : Nat) (s : Session) (c : Call) (io : Io), w.sessions[i]? = some s → s.conn.state = .done →
      step cfg w (.call i c io) = some w) ∧
    ∀ fd loop r, Machine.run (Reactor.step cfg) (Reactor.init router fd) loop = some r →
      ∀ s ∈ r.fleet.sessions, s.conn.AwaitsBackend →
        ∃ sock, s.conn.backendSock = some sock ∧ sock ∈ r.fleet.os.opened := by
  refine ⟨fun i s later w' hs hlater => ?_, fun s hs hawaits => ?_, fun i s c io hs hdone => ?_,
    fun fd loop r hloop s hs hawaits => ?_⟩
  · exact progress_of_run hs (waits_of_run hrun s (List.mem_of_getElem? hs)) hlater
  · obtain ⟨b, req, sock, haddr, hreq, hsock⟩ := (dealt_of_run hrun s hs).assigned hawaits
    refine ⟨b, req, sock, haddr, hreq, hsock, fun hguard => ?_⟩
    obtain ⟨i, hi⟩ := List.mem_iff_getElem?.mp hs
    exact (backendsOpen_of_run hguard hrun).live i s sock hi hawaits.not_done hsock
  · exact step_call_done hs hdone c io
  · obtain ⟨before, hfleet⟩ := Reactor.fleet_of_run hloop
    obtain ⟨b, req, sock, -, -, hsock⟩ := (dealt_of_run hfleet s hs).assigned hawaits
    obtain ⟨i, hi⟩ := List.mem_iff_getElem?.mp hs
    exact ⟨sock, hsock, ((Reactor.wiring_of_run hloop).wired i s hi nofun).live hawaits.not_done sock hsock⟩

/-- A connection about to forward its request has an open socket for it. -/
theorem lifecycle_forwarding : ∃ w s sock,
    Machine.run (step .default) (init (.leastConnections (.init [localBackend])))
      ((oneRequest (.sent 4096)).take 2) = some w ∧
    w.sessions[0]? = some s ∧ s.conn.state = .forwardingRequest ∧ s.conn.backendSock = some sock ∧
    sock ∈ w.os.opened := by
  have hview : (Machine.run (step .default) (init (.leastConnections (.init [localBackend])))
      ((oneRequest (.sent 4096)).take 2)).map (fun w => w.sessions.map fun s => s.conn.state) =
      some [.forwardingRequest] := by decide +kernel
  obtain ⟨w, hrun, hstates⟩ := Option.map_eq_some_iff.mp hview
  obtain ⟨s, hs, hstate⟩ := List.map_eq_singleton_iff.mp hstates
  have hmem : s ∈ w.sessions := by
    rw [hs]
    exact List.mem_singleton_self s
  obtain ⟨b, req, sock, -, -, hsock, hopen⟩ := (lifecycle hrun).2.1 s hmem (.inr (.inl hstate))
  refine ⟨w, s, sock, hrun, by rw [hs]; rfl, hstate, hsock, hopen ?_⟩
  exact ⟨trivial, fun _ _ => ⟨trivial, fun _ _ => trivial⟩⟩

end Fleet

end LoadBalancer
