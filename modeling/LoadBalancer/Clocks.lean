import LoadBalancer.Deadlines
import LoadBalancer.ProtocolRuns

/-! Time. The clock that all connections read never goes back, so no latency is negative, and the deadline
of a connection at work is never further away than the timeout of its state. A connection that makes no
progress for that long is over after the next `_expire_timeouts`. -/

namespace LoadBalancer

open Outcome Protocol

/-! ### The rule for properties that speak of the time -/

namespace Fleet

variable {cfg : Config}

/-- A property of single connections at a time that outlasts the passing of time, holds of new connections
and is kept by every handler call holds of every connection at every moment of a run that begins at `lo` or
later. -/
theorem timed_invariant (P : Time → Session → Prop) (lo : Time)
    (hlater : ∀ n n' s, n ≤ n' → P n s → P n' s)
    (hinit : ∀ sock addr t t', lo ≤ t → t ≤ t' → P t' ⟨.init cfg sock addr t t', []⟩)
    (hcall : ∀ c f, lo ≤ f.now → P f.now (sessionOf f) →
      (handle cfg c f).Post (fun f' => f.now ≤ f'.now ∧ P f'.now (sessionOf f'))
        fun f' => f.now ≤ f'.now ∧ P f'.now (sessionOf (f'.setState .done)))
    (habort : ∀ n s, P n s → P n s.markDone) (hclear : ∀ n s, P n s → P n s.clearPending)
    {w w' : Fleet} {events : List Event} (hlo : lo ≤ w.now) (hw : ∀ s ∈ w.sessions, P w.now s)
    (hrun : Machine.run (step cfg) w events = some w') : lo ≤ w'.now ∧ ∀ s ∈ w'.sessions, P w'.now s := by
  refine Machine.run_invariant (fun w => lo ≤ w.now ∧ ∀ s ∈ w.sessions, P w.now s) ?_ ⟨hlo, hw⟩ hrun
  intro w e w' ⟨hlo, hw⟩ hstep
  cases e with
  | accept fd addr clock =>
      obtain rfl := Option.some.inj hstep
      have hstart : w.now ≤ max w.now (clock.headD w.now) := le_max_left _ _
      have hread : max w.now (clock.headD w.now) ≤ (w.accept cfg fd addr clock).now := le_max_left _ _
      refine ⟨hlo.trans (hstart.trans hread), fun s hs => ?_⟩
      rcases List.mem_append.mp hs with hs | hs
      · exact hlater _ _ s (hstart.trans hread) (hw s hs)
      · rw [List.mem_singleton.mp hs]
        exact hinit _ _ _ _ (hlo.trans hstart) hread
  | call i c io =>
      obtain ⟨s₀, f, hs₀, hends, rfl⟩ := step_call_cases hstep
      have hP : w.now ≤ f.now ∧ P f.now (sessionOf f) :=
        hends.of_post (P := fun f => w.now ≤ f.now ∧ P f.now (sessionOf f))
          (hcall c (w.frame s₀ io) hlo (hw s₀ (List.mem_of_getElem? hs₀)))
      refine ⟨hlo.trans hP.1, fun s hs => ?_⟩
      rcases List.mem_or_eq_of_mem_set hs with hs | rfl
      · exact hlater _ _ s hP.1 (hw s hs)
      · exact hP.2
  | abort i =>
      obtain rfl := Option.some.inj hstep
      refine ⟨hlo, fun s hs => ?_⟩
      rcases mem_modify hs with hs | ⟨s₀, hs₀, rfl⟩
      · exact hw s hs
      · exact habort _ s₀ (hw s₀ (List.mem_of_getElem? hs₀))
  | mark m =>
      obtain rfl := Option.some.inj hstep
      exact ⟨hlo, hw⟩
  | tick reading =>
      obtain rfl := Option.some.inj hstep
      exact ⟨hlo.trans (le_max_left _ _), fun s hs => hlater _ _ s (le_max_left _ _) (hw s hs)⟩
  | sockets os =>
      obtain rfl := Option.some.inj hstep
      exact ⟨hlo, hw⟩
  | unregistered i =>
      obtain rfl := Option.some.inj hstep
      refine ⟨hlo, fun s hs => ?_⟩
      rcases mem_modify hs with hs | ⟨s₀, hs₀, rfl⟩
      · exact hw s hs
      · exact hclear _ s₀ (hw s₀ (List.mem_of_getElem? hs₀))

end Fleet

/-! ### What the handlers do with the time -/

section Handlers

variable {cfg : Config} {f f' : Frame} {since n start : Time}

/-- It is `n` or later, which is not before `since`; the connection was accepted at `start`, before now, and no
latency logged is negative. -/
structure Ticks (since n start startTime now : Time) (log : List LogLine) : Prop where
  began : since ≤ n
  later : n ≤ now
  accepted : startTime = start
  started : startTime ≤ now
  latencies : ∀ line ∈ log, 0 ≤ line.latencyMs

def TicksAt (since n start : Time) (f : Frame) : Prop :=
  Ticks since n start f.conn.startTime f.now (accessLog f.trace)

/-- The deadline is at most the timeout of the state away, and is not before `since`. -/
def Due (cfg : Config) (since : Time) (state : State) (deadline now : Time) : Prop :=
  ∀ timeout, timeoutForState cfg state = some timeout →
    deadline ≤ now + timeout ∧ (0 ≤ timeout → since ≤ deadline)

/-- What holds after a handler call that began at `n`. -/
def Kept (cfg : Config) (since n start : Time) (f : Frame) : Prop :=
  TicksAt since n start f ∧ Due cfg since f.conn.state f.conn.deadline f.now

theorem TicksAt.mono (h : TicksAt since n start f) (hnow : f.now ≤ f'.now)
    (hstart : f'.conn.startTime = f.conn.startTime) (hlog : accessLog f'.trace = accessLog f.trace) :
    TicksAt since n start f' where
  began := h.began
  later := h.later.trans hnow
  accepted := hstart.trans h.accepted
  started := hstart.trans_le (h.started.trans hnow)
  latencies := hlog ▸ h.latencies

theorem now_le_refreshDeadline (cfg : Config) (f : Frame) : f.now ≤ (refreshDeadline cfg f).now := by
  unfold refreshDeadline
  split
  · exact le_rfl
  · exact le_max_left _ _

theorem now_releaseSlot (f : Frame) : f.releaseSlot.now = f.now := by
  unfold Frame.releaseSlot
  split
  · rfl
  · split <;> rfl

theorem now_closeBackend (f : Frame) : (closeBackend f).now = f.now := by
  unfold closeBackend
  split <;> rfl

theorem now_noteTried (f : Frame) : (noteTried f).now = f.now := by
  unfold noteTried
  split <;> rfl

theorem TicksAt.refreshDeadline (h : TicksAt since n start f) :
    TicksAt since n start (refreshDeadline cfg f) := by
  apply h.mono (now_le_refreshDeadline cfg f)
  · rw [refreshDeadline_conn]
  · rw [refreshDeadline_trace]

/-- A refreshed deadline is as far away as the timeout of the state says. -/
theorem TicksAt.due (h : TicksAt since n start f) :
    Due cfg since (LoadBalancer.refreshDeadline cfg f).conn.state
      (LoadBalancer.refreshDeadline cfg f).conn.deadline (LoadBalancer.refreshDeadline cfg f).now := by
  intro timeout htimeout
  have hstate : (LoadBalancer.refreshDeadline cfg f).conn.state = f.conn.state := by rw [refreshDeadline_conn]
  rw [hstate] at htimeout
  have hnow : since ≤ (LoadBalancer.refreshDeadline cfg f).now :=
    (h.began.trans h.later).trans (now_le_refreshDeadline cfg f)
  have hdeadline : (LoadBalancer.refreshDeadline cfg f).conn.deadline =
      (LoadBalancer.refreshDeadline cfg f).now + timeout := by
    unfold LoadBalancer.refreshDeadline
    rw [htimeout]
    rfl
  rw [hdeadline]
  exact ⟨le_rfl, fun hpos => hnow.trans (le_add_of_nonneg_right hpos)⟩

theorem TicksAt.refreshed (h : TicksAt since n start f) :
    Kept cfg since n start (LoadBalancer.refreshDeadline cfg f) :=
  ⟨h.refreshDeadline, h.due⟩

/-- A connection that is over has no deadline. -/
theorem TicksAt.kept_of_done (h : TicksAt since n start f) (hdone : f.conn.state = .done) :
    Kept cfg since n start f := by
  refine ⟨h, fun timeout htimeout => ?_⟩
  rw [hdone] at htimeout
  cases htimeout

theorem TicksAt.setDone (h : TicksAt since n start f) : Kept cfg since n start (f.setState .done) :=
  TicksAt.kept_of_done (f := f.setState .done) h rfl

theorem TicksAt.releaseSlot (h : TicksAt since n start f) : TicksAt since n start f.releaseSlot := by
  apply h.mono (now_releaseSlot f).ge
  · rw [releaseSlot_conn]
  · exact accessLog_releaseSlot f

theorem TicksAt.nextBackend (h : TicksAt since n start f) (exclude : Option (Finset Backend)) :
    TicksAt since n start (f.nextBackend exclude).2 := by
  have hnow : f.now ≤ (f.nextBackend exclude).2.now := le_rfl
  apply h.mono hnow
  · rw [nextBackend_conn]
  · exact (accessLog_concat _ _).trans (List.append_nil _)

theorem TicksAt.abandonBackend (h : TicksAt since n start f) : TicksAt since n start (abandonBackend f) := by
  apply h.mono
  · rw [LoadBalancer.abandonBackend, now_noteTried, now_closeBackend, now_releaseSlot]
  · rw [abandonBackend_conn]
  · rw [LoadBalancer.abandonBackend, noteTried_trace, closeBackend_trace, accessLog_releaseSlot]

/-- The latency is the time since the connection was accepted. -/
theorem TicksAt.finish (h : TicksAt since n start f) : Kept cfg since n start (finish f) := by
  have hread : TicksAt since n start f.readClock := h.mono (le_max_left _ _) rfl rfl
  have hlogged : TicksAt since n start (logAccess f.readClock) := by
    unfold logAccess
    split
    · refine ⟨hread.began, hread.later, hread.accepted, hread.started, fun line hline => ?_⟩
      rw [Frame.log, accessLog_concat, List.mem_append] at hline
      rcases hline with hline | hline
      · exact hread.latencies line hline
      · obtain rfl := List.mem_singleton.mp hline
        exact mul_nonneg (sub_nonneg.mpr hread.started) (by norm_num)
    · exact hread
  exact hlogged.releaseSlot.setDone

theorem TicksAt.sendError (h : TicksAt since n start f) (code : Nat) (reason : String) :
    (sendError code reason f).Post (Kept cfg since n start) fun f' =>
      Kept cfg since n start (f'.setState .done) := by
  have hsent : ∀ bytes, TicksAt since n start (f.log (.errorSent code reason bytes)) := fun bytes =>
    h.mono le_rfl rfl ((accessLog_concat _ _).trans (List.append_nil _))
  unfold LoadBalancer.sendError
  split
  · exact TicksAt.finish (hsent _)
  · exact TicksAt.finish (hsent _)
  · exact (hsent _).setDone

theorem TicksAt.begin (h : TicksAt since n start f) : TicksAt since n start (beginConnect cfg f) :=
  TicksAt.refreshDeadline (f := f.setState .connectingToBackend) h

theorem TicksAt.opened (h : TicksAt since n start f) (b : Backend) (fd : Nat) :
    TicksAt since n start (openBackendSock b fd f) :=
  h.mono le_rfl (by rw [openBackendSock_conn]) ((accessLog_concat _ _).trans (List.append_nil _))

theorem failover_kept :
    (∀ b f, TicksAt since n start f → (initiateBackendConnect cfg b f).Post (Kept cfg since n start)
      fun f' => Kept cfg since n start (f'.setState .done)) ∧
    ∀ f, TicksAt since n start f →
      (failBackend cfg f).Post (Kept cfg since n start) fun f' => Kept cfg since n start (f'.setState .done) := by
  apply failover_post
  case noSocket => exact fun b f h _ => h.begin.setDone
  case raises => exact fun b f fd h _ => (h.begin.opened b fd).setDone
  case connected =>
    intro b f fd h _
    exact TicksAt.refreshed (f := (openBackendSock b fd (beginConnect cfg f)).setState .forwardingRequest)
      (h.begin.opened b fd)
  case inProgress =>
    intro b f fd err h _ _
    refine ⟨h.begin.opened b fd, ?_⟩
    rw [openBackendSock_conn]
    exact TicksAt.due (f := f.setState .connectingToBackend) h
  case refused => exact fun b f fd err h _ _ _ => h.begin.opened b fd
  case retry => exact fun b f h _ _ => (h.abandonBackend.nextBackend _).mono le_rfl rfl rfl
  case giveUp =>
    rintro f f' h (rfl | ⟨-, rfl⟩)
    · exact h.abandonBackend.sendError 502 _
    · exact (h.abandonBackend.nextBackend _).sendError 502 _

theorem handleTimeout_kept (h : Kept cfg since n start f) :
    (handleTimeout f).Post (Kept cfg since n start) fun f' =>
      Kept cfg since n start (f'.setState .done) := by
  apply handleTimeout_post
  case ended => exact fun _ => h
  case idle => exact fun _ => h.1.sendError 408 _
  case relaying => exact fun _ _ => h.1.releaseSlot.setDone
  case unanswered => exact fun _ _ => h.1.sendError 504 _

theorem handleClientReadable_kept (h : Kept cfg since n start f) :
    (handleClientReadable cfg f).Post (Kept cfg since n start) fun f' =>
      Kept cfg since n start (f'.setState .done) := by
  have hgrown : ∀ bytes, Kept cfg since n start (receiveRequest cfg bytes f) := fun bytes =>
    TicksAt.refreshed (f := f.update fun c => { c with requestBuf := c.requestBuf ++ bytes }) h.1
  apply handleClientReadable_post
  case ignored => exact fun _ => h
  case blocked => exact fun _ _ => h
  case gone => exact fun _ _ => h.1.setDone
  case raises => exact fun _ _ => h.1.setDone
  case tooLarge => exact fun bytes _ _ _ _ => (hgrown bytes).1.sendError 413 _
  case incomplete => exact fun bytes _ _ _ _ => hgrown bytes
  case complete =>
    intro bytes req _ _ _ _
    have hstored : TicksAt since n start ((storeRequest req (receiveRequest cfg bytes f)).nextBackend none).2 :=
      TicksAt.nextBackend (f := storeRequest req (receiveRequest cfg bytes f)) (hgrown bytes).1 none
    apply routeRequest_post
    case unavailable => exact fun _ => hstored.sendError 503 _
    case routed => exact fun b _ => failover_kept.1 b _ (hstored.mono le_rfl rfl rfl)

/-- Bytes that were accepted refresh the deadline, and none leave everything as it was. -/
theorem recordForwarded_kept (h : Kept cfg since n start f) (accepted : Bytes) :
    Kept cfg since n start (recordForwarded cfg accepted f) := by
  have hlogged : TicksAt since n start (f.log (.backendSent accepted)) :=
    h.1.mono le_rfl rfl ((accessLog_concat _ _).trans (List.append_nil _))
  unfold recordForwarded
  dsimp only
  split
  · exact ⟨hlogged, h.2⟩
  · exact hlogged.refreshed

theorem recordRelayed_kept (h : Kept cfg since n start f) (accepted : Bytes) :
    Kept cfg since n start (recordRelayed cfg accepted f) := by
  have hlogged : TicksAt since n start (f.log (.clientSent accepted)) :=
    h.1.mono le_rfl rfl ((accessLog_concat _ _).trans (List.append_nil _))
  unfold recordRelayed
  dsimp only
  split
  · exact ⟨hlogged, h.2⟩
  · exact TicksAt.refreshed
      (f := (f.log (.clientSent accepted)).update fun c => { c with clientBytesSent := true }) hlogged

theorem forwardRequest_kept (h : Kept cfg since n start f) :
    (forwardRequest cfg f).Post (Kept cfg since n start) fun f' =>
      Kept cfg since n start (f'.setState .done) := by
  apply forwardRequest_post
  case blocked => exact fun _ => h
  case broken => exact fun _ => failover_kept.2 f h.1
  case raises => exact fun _ => h.1.setDone
  case sentAll =>
    intro _ accepted _ _ _
    exact TicksAt.refreshed (f := (recordForwarded cfg accepted f).setState .readingResponse)
      (recordForwarded_kept h accepted).1
  case sentSome => exact fun _ accepted _ _ _ => recordForwarded_kept h accepted

theorem handleBackendWritable_kept (h : Kept cfg since n start f) :
    (handleBackendWritable cfg f).Post (Kept cfg since n start) fun f' =>
      Kept cfg since n start (f'.setState .done) := by
  apply handleBackendWritable_post
  case ignored => exact fun _ _ => h
  case raises => exact fun _ _ => h.1.setDone
  case refused => exact fun _ _ _ _ => failover_kept.2 f h.1
  case connected =>
    intro _ _
    exact forwardRequest_kept (TicksAt.refreshed (f := f.setState .forwardingRequest) h.1)
  case forwarding => exact fun _ => forwardRequest_kept h

theorem handleBackendReadable_kept (h : Kept cfg since n start f) :
    (handleBackendReadable cfg f).Post (Kept cfg since n start) fun f' =>
      Kept cfg since n start (f'.setState .done) := by
  have hlogged : ∀ bytes, TicksAt since n start (f.log (.backendReceived bytes)) := fun bytes =>
    h.1.mono le_rfl rfl ((accessLog_concat _ _).trans (List.append_nil _))
  apply handleBackendReadable_post
  case ignored => exact fun _ => h
  case blocked => exact fun _ _ => h
  case broken => exact fun _ _ => failover_kept.2 f h.1
  case raises => exact fun _ _ => h.1.setDone
  case closed =>
    intro _ _
    apply backendClosed_post
    case cutOff => exact fun _ _ => failover_kept.2 _ (hlogged [])
    case relay => exact TicksAt.refreshed (hlogged [])
  case received =>
    intro bytes _ _ _
    have hgrown : Kept cfg since n start (receiveResponse cfg bytes (f.log (.backendReceived bytes))) := by
      have hrefreshed : Kept cfg since n start (refreshDeadline cfg ((f.log (.backendReceived bytes)).update
          fun c => { c with responseBuf := c.responseBuf ++ bytes })) := TicksAt.refreshed (hlogged bytes)
      rw [Kept, TicksAt, receiveResponse, update_conn, recordFraming_eq, recordStatus_eq]
      exact hrefreshed
    apply checkComplete_post
    case stay => exact fun _ => hgrown
    case relay => exact fun _ _ _ => TicksAt.refreshed hgrown.1

theorem handleClientWritable_kept (h : Kept cfg since n start f) :
    (handleClientWritable cfg f).Post (Kept cfg since n start) fun f' =>
      Kept cfg since n start (f'.setState .done) := by
  apply handleClientWritable_post
  case ignored => exact fun _ => h
  case blocked => exact fun _ _ => h
  case gone => exact fun _ _ => h.1.setDone
  case raises => exact fun _ _ => h.1.setDone
  case sentAll => exact fun _ accepted _ _ _ _ => (recordRelayed_kept h accepted).1.finish
  case sentSome => exact fun _ accepted _ _ _ _ => recordRelayed_kept h accepted

theorem handle_kept (c : Call) (h : Kept cfg since n start f) :
    (handle cfg c f).Post (Kept cfg since n start) fun f' =>
      Kept cfg since n start (f'.setState .done) := by
  cases c with
  | timeout => exact handleTimeout_kept h
  | clientReadable => exact handleClientReadable_kept h
  | clientWritable => exact handleClientWritable_kept h
  | backendReadable => exact handleBackendReadable_kept h
  | backendWritable => exact handleBackendWritable_kept h

end Handlers

/-! ### Runs -/

namespace Fleet

variable {cfg : Config} {w w' : Fleet} {router : Router} {events : List Event}

/-- What holds of a connection at the time `now`. -/
structure OnClock (cfg : Config) (now : Time) (s : Session) : Prop where
  started : s.conn.startTime ≤ now
  latencies : ∀ line ∈ accessLog s.trace, 0 ≤ line.latencyMs
  due : ∀ timeout, timeoutForState cfg s.conn.state = some timeout → s.conn.deadline ≤ now + timeout

theorem OnClock.later {now now' : Time} {s : Session} (h : OnClock cfg now s) (hle : now ≤ now') :
    OnClock cfg now' s where
  started := h.started.trans hle
  latencies := h.latencies
  due timeout htimeout :=
    calc s.conn.deadline ≤ now + timeout := h.due timeout htimeout
      _ ≤ now' + timeout := add_le_add_left hle timeout

/-- A run that begins at `lo` or later keeps all connections on the clock. -/
theorem onClock_of_onClock {lo : Time} (hlo : lo ≤ w.now) (hw : ∀ s ∈ w.sessions, OnClock cfg w.now s)
    (hrun : Machine.run (step cfg) w events = some w') :
    lo ≤ w'.now ∧ ∀ s ∈ w'.sessions, OnClock cfg w'.now s := by
  refine timed_invariant (OnClock cfg) lo (fun _ _ _ hle h => h.later hle) ?_ ?_ ?_
    (fun _ _ h => ⟨h.started, h.latencies, h.due⟩) hlo hw hrun
  · intro sock addr t t' _ hle
    refine ⟨hle, fun line hline => absurd hline List.not_mem_nil, fun timeout htimeout => ?_⟩
    obtain rfl := Option.some.inj htimeout
    exact le_rfl
  · intro c f _ h
    have hkept : Kept cfg (min f.now f.conn.deadline) f.now f.conn.startTime f :=
      ⟨⟨min_le_left _ _, le_rfl, rfl, h.started, h.latencies⟩, fun timeout htimeout =>
        ⟨h.due timeout htimeout, fun _ => min_le_right _ _⟩⟩
    have honClock : ∀ f', Kept cfg (min f.now f.conn.deadline) f.now f.conn.startTime f' →
        f.now ≤ f'.now ∧ OnClock cfg f'.now (sessionOf f') := fun f' hf =>
      ⟨hf.1.later, hf.1.started, hf.1.latencies, fun timeout htimeout => (hf.2 timeout htimeout).1⟩
    exact (handle_kept c hkept).mono honClock fun f' hf => honClock (f'.setState .done) hf
  · intro n s h
    refine ⟨h.started, h.latencies, fun timeout htimeout => ?_⟩
    cases htimeout

theorem onClock_of_run (hrun : Machine.run (step cfg) (init router) events = some w) :
    ∀ s ∈ w.sessions, OnClock cfg w.now s :=
  (onClock_of_onClock le_rfl (fun _ hs => absurd hs List.not_mem_nil) hrun).2

end Fleet

namespace Reactor

variable {cfg : Config} {r r' r'' : Reactor}

/-- A connection that a run of the event loop goes on with is the same or a later one. -/
theorem advances_of_run {later : List Event} (hrun : Machine.run (step cfg) r later = some r') {i : Nat}
    {s : Session} (hs : r.fleet.sessions[i]? = some s) :
    ∃ s', r'.fleet.sessions[i]? = some s' ∧ Advances s.conn s'.conn := by
  obtain ⟨events, hrun'⟩ := Machine.run_simulates Reactor.fleet
    (fun r _ _ hstep => step_reaches (Reaches.refl cfg r) hstep) hrun
  exact Fleet.session_keeps (fun s' => Advances s.conn s'.conn) (fun c f h => by
      have hadvances := handle_advances cfg c h
      exact hadvances.mono (fun _ hf => hf) fun _ hf => ⟨hf.toLater, fun _ => rfl⟩)
    (fun s' h => ⟨h.toLater, fun _ => rfl⟩) (fun s' h => ⟨h.toLater, h.done⟩) hs (Advances.refl s.conn) hrun'

/-- **The clock.** In every state of the event loop, each connection was accepted in the past, has logged no
negative latency, and has a deadline no further away than the timeout of its state. **Silence.** Whatever
happens after that, once the timeout of its state has gone by, `_expire_timeouts` leaves the connection
`DONE` or with a deadline that has been refreshed since. -/
theorem silent_connection_ends {router : Router} {fd : Nat} {events : List Event}
    (hrun : Machine.run (step cfg) (init router fd) events = some r) :
    (∀ s ∈ r.fleet.sessions, s.conn.startTime ≤ r.fleet.now ∧
      (∀ line ∈ accessLog s.trace, 0 ≤ line.latencyMs) ∧
      ∀ timeout, timeoutForState cfg s.conn.state = some timeout →
        s.conn.deadline ≤ r.fleet.now + timeout) ∧
    ∀ (i : Nat) (s : Session) (timeout : Time) later r' reading io r'', r.fleet.sessions[i]? = some s →
      timeoutForState cfg s.conn.state = some timeout → Machine.run (step cfg) r later = some r' →
      r.fleet.now + timeout ≤ max r'.fleet.now reading → r'.expireTimeouts cfg reading io = some r'' →
      ∃ s'', r''.fleet.sessions[i]? = some s'' ∧
        (s''.conn.state = .done ∨ s.conn.deadlineGen < s''.conn.deadlineGen) := by
  have honClock : ∀ s ∈ r.fleet.sessions, Fleet.OnClock cfg r.fleet.now s := by
    obtain ⟨events', hrun'⟩ := fleet_of_run hrun
    exact Fleet.onClock_of_run hrun'
  refine ⟨fun s hs => ⟨(honClock s hs).started, (honClock s hs).latencies, (honClock s hs).due⟩, ?_⟩
  intro i s timeout later r' reading io r'' hs htimeout hlater hlate hexpire
  have hswept : Machine.run (step cfg) r (later ++ [.expireTimeouts reading io]) = some r'' := by
    rw [Machine.run_append, hlater, Option.bind_some]
    exact Machine.run_cons_eq_some.mpr ⟨r'', hexpire, rfl⟩
  obtain ⟨s'', hs'', hadvances⟩ := advances_of_run hswept hs
  refine ⟨s'', hs'', or_iff_not_imp_left.mpr fun hdone => lt_of_le_of_ne hadvances.gen_le fun hgen => ?_⟩
  -- the deadline is the old one, and none that has passed is left
  have hwhole : Machine.run (step cfg) (init router fd) (events ++ later) = some r' := by
    rw [Machine.run_append, hrun, Option.bind_some, hlater]
  obtain ⟨hbook, hscheduled⟩ := scheduled_of_run hwhole
  have hbook'' : r''.Bookkept := hbook.step (e := .expireTimeouts reading io) hexpire
  obtain ⟨hscheduled'', hahead⟩ := hscheduled.expireTimeouts hexpire
  obtain ⟨cid, -, -, hentry⟩ := hscheduled''.entry_mem hbook'' hs'' hdone
  have hdeadline : max r'.fleet.now reading < s''.conn.deadline := hahead _ hentry
  rw [hadvances.deadline hgen.symm] at hdeadline
  have hdue := (honClock s (List.mem_of_getElem? hs)).due timeout htimeout
  exact absurd (hdeadline.trans_le hdue) (not_lt.mpr hlate)

/-- A client that has sent nothing for 40 seconds. -/
theorem silent_connection_ends_oneRequest : ∃ r r'' s'',
    Machine.run (step .default) (init Fleet.twoBackends 3) (oneRequest.take 2) = some r ∧
    r.expireTimeouts .default 40 (fun _ => Fleet.quiet) = some r'' ∧
    r''.fleet.sessions[0]? = some s'' ∧ (s''.conn.state = .done ∨ 1 < s''.conn.deadlineGen) := by
  obtain ⟨r, hrun, hview⟩ := Option.map_eq_some_iff.mp (show
    (Machine.run (step .default) (init Fleet.twoBackends 3) (oneRequest.take 2)).map (fun r =>
      (r.fleet.now, r.fleet.sessions[0]?.map fun s => (s.conn.state, s.conn.deadlineGen),
        (r.expireTimeouts .default 40 fun _ => Fleet.quiet).isSome)) =
          some (0, some (.readingRequest, 1), true) by decide +kernel)
  obtain ⟨hnow, hsession, hexpires⟩ : r.fleet.now = 0 ∧
      (r.fleet.sessions[0]?.map fun s => (s.conn.state, s.conn.deadlineGen)) = some (.readingRequest, 1) ∧
      (r.expireTimeouts .default 40 fun _ => Fleet.quiet).isSome = true := by
    simpa only [Prod.mk.injEq] using hview
  obtain ⟨s, hs, hstate⟩ := Option.map_eq_some_iff.mp hsession
  obtain ⟨hreading, hgen⟩ := Prod.mk.inj hstate
  obtain ⟨r'', hexpire⟩ := Option.isSome_iff_exists.mp hexpires
  have htimeout : timeoutForState .default s.conn.state = some 30 := by
    rw [hreading]
    rfl
  have hlate : r.fleet.now + 30 ≤ max r.fleet.now 40 := by
    rw [hnow]
    decide +kernel
  obtain ⟨s'', hs'', hends⟩ :=
    (silent_connection_ends hrun).2 0 s 30 [] r 40 _ r'' hs htimeout rfl hlate hexpire
  rw [hgen] at hends
  exact ⟨r, r'', s'', hrun, hexpire, hs'', hends⟩

end Reactor

end LoadBalancer
