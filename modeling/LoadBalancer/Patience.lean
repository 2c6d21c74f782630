import LoadBalancer.Fleet
import LoadBalancer.HandlerRules

/-! What a connection can cost. A deadline is put off only for bytes that have moved or for one more
attempt, so a peer that sends nothing cannot hold a connection, and one that sends little by little is
bounded by what it sends; the request that a connection stores is bounded as long as it is served. -/

namespace LoadBalancer

open Outcome

/-! ### Traffic -/

/-- The bytes that an action moves from or to a backend, or to the client. -/
def moved : Action → Nat
  | .backendSent bytes | .backendReceived bytes | .clientSent bytes => bytes.length
  | _ => 0

def traffic (trace : List Action) : Nat := (trace.map moved).sum

@[simp] theorem traffic_concat (trace : List Action) (a : Action) :
    traffic (trace ++ [a]) = traffic trace + moved a := by
  simp [traffic]

section Operations

variable (f : Frame)

@[simp] theorem traffic_releaseSlot : traffic f.releaseSlot.trace = traffic f.trace := by
  unfold Frame.releaseSlot
  split
  · rfl
  · split
    · rfl
    · simp [moved, Frame.awaitLock]

@[simp] theorem traffic_logAccess : traffic (logAccess f).trace = traffic f.trace := by
  unfold logAccess
  split
  · simp [moved]
  · rfl

@[simp] theorem traffic_finish : traffic (finish f).trace = traffic f.trace := by
  have h := traffic_releaseSlot (logAccess f.readClock)
  rw [traffic_logAccess] at h
  exact h

@[simp] theorem traffic_abandonBackend : traffic (abandonBackend f).trace = traffic f.trace := by
  simp [abandonBackend]

@[simp] theorem traffic_nextBackend (exclude : Option (Finset Backend)) :
    traffic (f.nextBackend exclude).2.trace = traffic f.trace := by
  simp [Frame.nextBackend, moved, Frame.awaitLock]

end Operations

/-! ### Credit -/

/-- How often the deadline can still be put off in this attempt without a byte moving. -/
def State.credit : State → Nat
  | .readingRequest => 1
  | .connectingToBackend => 3
  | .forwardingRequest => 2
  | .readingResponse => 1
  | .forwardingResponse | .done => 0

/-- The deadline can be put off `credit` more times: each time has been paid with a byte, or with one of the
three of an attempt. -/
structure Affords (cfg : Config) (deadlineGen backendAttempts received traffic credit : Nat) : Prop where
  paid : deadlineGen + credit ≤ 2 + received + traffic + 3 * backendAttempts
  allowed : backendAttempts ≤ 1 + cfg.maxBackendRetries

def AffordsAt (cfg : Config) (credit : Nat) (f : Frame) : Prop :=
  Affords cfg f.conn.deadlineGen f.conn.backendAttempts f.conn.requestBuf.length (traffic f.trace) credit

/-- What holds of a connection after every call. -/
structure Solvent (cfg : Config) (state : State) (deadlineGen backendAttempts received traffic : Nat) : Prop
    extends Affords cfg deadlineGen backendAttempts received traffic state.credit where
  unassigned : state = .readingRequest → backendAttempts = 0 ∧ traffic = 0
  bounded : state ≠ .done → received ≤ cfg.maxRequestSize

def SolventAt (cfg : Config) (f : Frame) : Prop :=
  Solvent cfg f.conn.state f.conn.deadlineGen f.conn.backendAttempts f.conn.requestBuf.length
    (traffic f.trace)

/-- The price of all deadlines so far. -/
theorem Affords.gen_le {cfg : Config} {deadlineGen backendAttempts received traffic credit : Nat}
    (h : Affords cfg deadlineGen backendAttempts received traffic credit) :
    deadlineGen ≤ 2 + received + traffic + 3 * (1 + cfg.maxBackendRetries) := by
  have hpaid := h.paid
  have hallowed := h.allowed
  omega

section Handlers

variable {cfg : Config} {f f' : Frame} {credit : Nat}

theorem AffordsAt.mono (h : AffordsAt cfg credit f) {credit' : Nat} (hle : credit' ≤ credit)
    (hgen : f'.conn.deadlineGen = f.conn.deadlineGen)
    (hattempts : f'.conn.backendAttempts = f.conn.backendAttempts)
    (hbuf : f'.conn.requestBuf = f.conn.requestBuf) (htraffic : traffic f'.trace = traffic f.trace) :
    AffordsAt cfg credit' f' := by
  have hpaid := h.paid
  have hallowed := h.allowed
  refine ⟨?_, ?_⟩
  · rw [hgen, hattempts, hbuf, htraffic]
    omega
  · rw [hattempts]
    exact hallowed

theorem deadlineGen_refreshDeadline_le (cfg : Config) (f : Frame) :
    (refreshDeadline cfg f).conn.deadlineGen ≤ f.conn.deadlineGen + 1 := by
  unfold refreshDeadline
  split
  · exact Nat.le_succ _
  · exact le_rfl

/-- Putting off the deadline costs one credit. -/
theorem AffordsAt.refreshDeadline (h : AffordsAt cfg (credit + 1) f) :
    AffordsAt cfg credit (refreshDeadline cfg f) := by
  have hpaid := h.paid
  have hle := deadlineGen_refreshDeadline_le cfg f
  have hconn := refreshDeadline_conn cfg f
  refine ⟨?_, ?_⟩
  · rw [hconn, refreshDeadline_trace]
    show (LoadBalancer.refreshDeadline cfg f).conn.deadlineGen + credit ≤
      2 + f.conn.requestBuf.length + traffic f.trace + 3 * f.conn.backendAttempts
    omega
  · rw [hconn]
    exact h.allowed

theorem AffordsAt.setDone (h : AffordsAt cfg credit f) : SolventAt cfg (f.setState .done) where
  toAffords := by
    have hdone : AffordsAt cfg 0 (f.setState .done) := h.mono (Nat.zero_le _) rfl rfl rfl rfl
    exact hdone
  unassigned := State.noConfusion
  bounded := fun h => absurd rfl h

theorem SolventAt.setDone (h : SolventAt cfg f) : SolventAt cfg (f.setState .done) := by
  have hpaid : AffordsAt cfg f.conn.state.credit f := h.toAffords
  exact hpaid.setDone

theorem AffordsAt.finish (h : AffordsAt cfg credit f) : SolventAt cfg (finish f) := by
  have hdone := h.setDone
  rw [SolventAt, finish_conn, traffic_finish]
  exact hdone

theorem AffordsAt.sendError (h : AffordsAt cfg credit f) (code : Nat) (reason : String) :
    (sendError code reason f).Post (SolventAt cfg) fun f' => SolventAt cfg (f'.setState .done) := by
  have hsent : ∀ bytes, AffordsAt cfg credit (f.log (.errorSent code reason bytes)) := fun bytes =>
    h.mono le_rfl rfl rfl rfl (traffic_concat _ _)
  unfold LoadBalancer.sendError
  split
  · exact AffordsAt.finish (hsent _)
  · exact AffordsAt.finish (hsent _)
  · exact (hsent _).setDone

theorem AffordsAt.solvent (h : AffordsAt cfg credit f) {s : State} (hstate : f.conn.state = s)
    (hcredit : s.credit ≤ credit) (hs : s ≠ .readingRequest)
    (hbounded : f.conn.requestBuf.length ≤ cfg.maxRequestSize) : SolventAt cfg f where
  toAffords := by
    have hpaid : AffordsAt cfg s.credit f := h.mono hcredit rfl rfl rfl rfl
    rw [hstate]
    exact hpaid
  unassigned := fun h => absurd (hstate.symm.trans h) hs
  bounded := fun _ => hbounded

/-- The deadline is put off on the way into a state. -/
theorem AffordsAt.refreshed (h : AffordsAt cfg (credit + 1) f) {s : State} (hstate : f.conn.state = s)
    (hcredit : s.credit ≤ credit) (hs : s ≠ .readingRequest)
    (hbounded : f.conn.requestBuf.length ≤ cfg.maxRequestSize) :
    SolventAt cfg (LoadBalancer.refreshDeadline cfg f) := by
  apply h.refreshDeadline.solvent _ hcredit hs
  · rw [refreshDeadline_conn]
    exact hbounded
  · rw [refreshDeadline_conn]
    exact hstate

/-- What is needed when a backend has been chosen: its three, and one for the start. -/
def Picked (cfg : Config) (f : Frame) : Prop :=
  AffordsAt cfg 4 f ∧ f.conn.requestBuf.length ≤ cfg.maxRequestSize

/-- What is left when an attempt fails. -/
def Failing (cfg : Config) (f : Frame) : Prop :=
  AffordsAt cfg 1 f ∧ f.conn.requestBuf.length ≤ cfg.maxRequestSize

theorem Picked.opened (h : Picked cfg f) (b : Backend) (fd : Nat) :
    let f' := openBackendSock b fd (beginConnect cfg f)
    AffordsAt cfg 3 f' ∧ f'.conn.requestBuf.length ≤ cfg.maxRequestSize ∧
      f'.conn.state = .connectingToBackend := by
  intro f'
  have hset : AffordsAt cfg 4 (f.setState .connectingToBackend) := h.1
  have hbegun : AffordsAt cfg 3 (beginConnect cfg f) := hset.refreshDeadline
  have hconn : f'.conn = { (beginConnect cfg f).conn with
      backendSock := some ((beginConnect cfg f).os.newSock fd) } := openBackendSock_conn _ _ _
  have hopened : AffordsAt cfg 3 f' := by
    apply hbegun.mono le_rfl
    · rw [hconn]
    · rw [hconn]
    · rw [hconn]
    · exact traffic_concat _ _
  refine ⟨hopened, ?_, ?_⟩
  · rw [hconn, beginConnect_conn]
    exact h.2
  · rw [hconn, beginConnect_conn]

theorem failover_solvent :
    (∀ b f, Picked cfg f → (initiateBackendConnect cfg b f).Post (SolventAt cfg)
      fun f' => SolventAt cfg (f'.setState .done)) ∧
    ∀ f, Failing cfg f → (failBackend cfg f).Post (SolventAt cfg)
      fun f' => SolventAt cfg (f'.setState .done) := by
  have habandoned : ∀ {f : Frame}, Failing cfg f → AffordsAt cfg 1 (abandonBackend f) := by
    intro f h
    have hconn := abandonBackend_conn f
    apply h.1.mono le_rfl
    · rw [hconn]
    · rw [hconn]
    · rw [hconn]
    · exact traffic_abandonBackend f
  have hpicked : ∀ {f : Frame} (exclude), AffordsAt cfg 1 f → AffordsAt cfg 1 (f.nextBackend exclude).2 :=
    fun {f} exclude h => h.mono le_rfl rfl rfl rfl (traffic_nextBackend f exclude)
  apply failover_post
  case noSocket =>
    intro b f h _
    have hset : AffordsAt cfg 4 (f.setState .connectingToBackend) := h.1
    exact hset.refreshDeadline.setDone
  case raises => exact fun b f fd h _ => (h.opened b fd).1.setDone
  case connected =>
    intro b f fd h _
    obtain ⟨hopened, hbounded, -⟩ := h.opened b fd
    have hset : AffordsAt cfg 3 ((openBackendSock b fd (beginConnect cfg f)).setState .forwardingRequest) :=
      hopened
    exact hset.refreshed rfl le_rfl State.noConfusion hbounded
  case inProgress =>
    intro b f fd err h _ _
    obtain ⟨hopened, hbounded, hstate⟩ := h.opened b fd
    exact hopened.solvent hstate le_rfl State.noConfusion hbounded
  case refused =>
    intro b f fd err h _ _ _
    obtain ⟨hopened, hbounded, -⟩ := h.opened b fd
    exact ⟨hopened.mono (by decide) rfl rfl rfl rfl, hbounded⟩
  case retry =>
    intro b f h hretry picked _
    have hattempts := attempts_le_of_canRetry cfg hretry
    have hpaid := (habandoned h).paid
    have hconn : (resetForRetry b picked.2).conn.deadlineGen = (abandonBackend f).conn.deadlineGen ∧
        (resetForRetry b picked.2).conn.requestBuf = (abandonBackend f).conn.requestBuf ∧
        (resetForRetry b picked.2).conn.backendAttempts = (abandonBackend f).conn.backendAttempts + 1 :=
      ⟨rfl, rfl, rfl⟩
    have htraffic : traffic (resetForRetry b picked.2).trace = traffic (abandonBackend f).trace :=
      traffic_nextBackend _ _
    refine ⟨⟨?_, ?_⟩, ?_⟩
    · rw [hconn.1, hconn.2.1, hconn.2.2, htraffic]
      omega
    · rw [hconn.2.2]
      omega
    · rw [hconn.2.1, abandonBackend_conn]
      exact h.2
  case giveUp =>
    rintro f f' h (rfl | ⟨-, rfl⟩)
    · exact (habandoned h).sendError 502 _
    · exact (hpicked _ (habandoned h)).sendError 502 _

theorem handleTimeout_solvent (h : SolventAt cfg f) :
    (handleTimeout f).Post (SolventAt cfg) fun f' => SolventAt cfg (f'.setState .done) := by
  have hpaid : AffordsAt cfg f.conn.state.credit f := h.toAffords
  apply handleTimeout_post
  case ended => exact fun _ => h
  case idle => exact fun _ => hpaid.sendError 408 _
  case relaying =>
    intro _ _
    have hreleased : AffordsAt cfg f.conn.state.credit f.releaseSlot := by
      apply hpaid.mono le_rfl
      · rw [releaseSlot_conn]
      · rw [releaseSlot_conn]
      · rw [releaseSlot_conn]
      · exact traffic_releaseSlot f
    exact hreleased.setDone
  case unanswered => exact fun _ _ => hpaid.sendError 504 _

/-- Each byte of the request pays for the time to the next. -/
theorem receiveRequest_affords (h : SolventAt cfg f) (hstate : f.conn.state = .readingRequest)
    {bytes : Bytes} (hne : bytes ≠ []) : AffordsAt cfg 1 (receiveRequest cfg bytes f) := by
  have hpaid := h.paid
  rw [hstate] at hpaid
  have hlength := List.length_pos_iff.mpr hne
  have hgrown : AffordsAt cfg 2 (f.update fun c => { c with requestBuf := c.requestBuf ++ bytes }) := by
    refine ⟨?_, h.allowed⟩
    show f.conn.deadlineGen + 2 ≤ 2 + (f.conn.requestBuf ++ bytes).length + traffic f.trace +
      3 * f.conn.backendAttempts
    rw [List.length_append]
    rw [State.credit] at hpaid
    omega
  exact hgrown.refreshDeadline

theorem routeRequest_solvent (req : HttpRequest) (h : AffordsAt cfg 1 f) (hnone : f.conn.backendAttempts = 0)
    (hbounded : f.conn.requestBuf.length ≤ cfg.maxRequestSize) :
    (routeRequest cfg req f).Post (SolventAt cfg) fun f' => SolventAt cfg (f'.setState .done) := by
  have htraffic : traffic ((storeRequest req f).nextBackend none).2.trace = traffic f.trace :=
    traffic_nextBackend _ _
  apply routeRequest_post
  case unavailable =>
    intro _
    have hpicked : AffordsAt cfg 1 ((storeRequest req f).nextBackend none).2 :=
      h.mono le_rfl rfl rfl rfl htraffic
    exact hpicked.sendError 503 _
  case routed =>
    intro b _
    have hpaid := h.paid
    refine failover_solvent.1 b _ ⟨⟨?_, Nat.le_add_right 1 _⟩, hbounded⟩
    show f.conn.deadlineGen + 4 ≤ 2 + f.conn.requestBuf.length +
      traffic ((storeRequest req f).nextBackend none).2.trace + 3 * 1
    omega

theorem handleClientReadable_solvent (h : SolventAt cfg f) :
    (handleClientReadable cfg f).Post (SolventAt cfg) fun f' => SolventAt cfg (f'.setState .done) := by
  unfold handleClientReadable
  split
  · exact h
  · next hnot =>
    have hstate : f.conn.state = .readingRequest := not_not.mp hnot
    split
    · exact h
    · exact h.setDone
    · exact h.setDone
    · next bytes hrecv =>
      split
      · exact h.setDone
      · next hne =>
        have hgrown := receiveRequest_affords h hstate hne
        have hconn := receiveRequest_conn cfg f bytes
        have hnone : (receiveRequest cfg bytes f).conn.backendAttempts = 0 := by
          rw [hconn]
          exact (h.unassigned hstate).1
        have hidle : traffic (receiveRequest cfg bytes f).trace = 0 := by
          rw [receiveRequest, refreshDeadline_trace]
          exact (h.unassigned hstate).2
        dsimp only
        split
        · exact hgrown.sendError 413 _
        · next hsmall =>
          have hbounded := Nat.le_of_not_lt hsmall
          split
          · refine ⟨?_, fun _ => ⟨hnone, hidle⟩, fun _ => hbounded⟩
            have hreading : (receiveRequest cfg bytes f).conn.state = .readingRequest := by
              rw [hconn]
              exact hstate
            rw [hreading]
            exact hgrown
          · exact routeRequest_solvent _ hgrown hnone hbounded

/-- Each byte that a backend takes pays for the time to the next. -/
theorem recordForwarded_affords (h : AffordsAt cfg credit f) (accepted : Bytes) :
    AffordsAt cfg credit (recordForwarded cfg accepted f) := by
  have hpaid := h.paid
  unfold recordForwarded
  dsimp only
  split
  · next hnil =>
    exact h.mono le_rfl rfl rfl rfl (by rw [update_trace, log_trace, traffic_concat, hnil]; rfl)
  · next hne =>
    have hlength := List.length_pos_iff.mpr hne
    have hlogged : AffordsAt cfg (credit + 1) (f.log (.backendSent accepted)) := by
      refine ⟨?_, h.allowed⟩
      rw [log_trace, traffic_concat, log_conn, moved]
      omega
    exact hlogged.refreshDeadline

/-- Each byte that the client takes pays for the time to the next. -/
theorem recordRelayed_affords (h : AffordsAt cfg credit f) (accepted : Bytes) :
    AffordsAt cfg credit (recordRelayed cfg accepted f) := by
  have hpaid := h.paid
  unfold recordRelayed
  dsimp only
  split
  · next hnil =>
    exact h.mono le_rfl rfl rfl rfl (by rw [update_trace, log_trace, traffic_concat, hnil]; rfl)
  · next hne =>
    have hlength := List.length_pos_iff.mpr hne
    have hlogged : AffordsAt cfg (credit + 1) ((f.log (.clientSent accepted)).update
        fun c => { c with clientBytesSent := true }) := by
      refine ⟨?_, h.allowed⟩
      rw [update_trace, log_trace, traffic_concat, moved]
      show f.conn.deadlineGen + (credit + 1) ≤ 2 + f.conn.requestBuf.length +
        (traffic f.trace + accepted.length) + 3 * f.conn.backendAttempts
      omega
    exact hlogged.refreshDeadline

theorem forwardRequest_solvent (h : SolventAt cfg f) (hstate : f.conn.state = .forwardingRequest) :
    (forwardRequest cfg f).Post (SolventAt cfg) fun f' => SolventAt cfg (f'.setState .done) := by
  have hpaid : AffordsAt cfg 2 f := by
    have h := h.toAffords
    rw [hstate] at h
    exact h
  have hbounded : f.conn.requestBuf.length ≤ cfg.maxRequestSize :=
    h.bounded (by rw [hstate]; exact State.noConfusion)
  apply forwardRequest_post
  case blocked => exact fun _ => h
  case broken =>
    exact fun _ => failover_solvent.2 f ⟨hpaid.mono (by decide) rfl rfl rfl rfl, hbounded⟩
  case raises => exact fun _ => h.setDone
  case sentAll =>
    intro _ accepted _ _ _
    have hsent : AffordsAt cfg 2 ((recordForwarded cfg accepted f).setState .readingResponse) :=
      recordForwarded_affords hpaid accepted
    apply hsent.refreshed rfl le_rfl State.noConfusion
    rw [setState_conn, recordForwarded_conn]
    exact hbounded
  case sentSome =>
    intro _ accepted _ _ _
    apply (recordForwarded_affords hpaid accepted).solvent _ le_rfl (s := .forwardingRequest) State.noConfusion
    · rw [recordForwarded_conn]
      exact hbounded
    · rw [recordForwarded_conn]
      exact hstate

theorem handleBackendWritable_solvent (h : SolventAt cfg f) :
    (handleBackendWritable cfg f).Post (SolventAt cfg) fun f' => SolventAt cfg (f'.setState .done) := by
  have hconnecting : f.conn.state = .connectingToBackend → AffordsAt cfg 3 f ∧
      f.conn.requestBuf.length ≤ cfg.maxRequestSize := by
    intro hstate
    refine ⟨?_, h.bounded (by rw [hstate]; exact State.noConfusion)⟩
    have h := h.toAffords
    rw [hstate] at h
    exact h
  apply handleBackendWritable_post
  case ignored => exact fun _ _ => h
  case raises => exact fun _ _ => h.setDone
  case refused =>
    intro _ hstate _ _
    obtain ⟨hpaid, hbounded⟩ := hconnecting hstate
    exact failover_solvent.2 f ⟨hpaid.mono (by decide) rfl rfl rfl rfl, hbounded⟩
  case connected =>
    intro hstate _
    obtain ⟨hpaid, hbounded⟩ := hconnecting hstate
    have hset : AffordsAt cfg 3 (f.setState .forwardingRequest) := hpaid
    apply forwardRequest_solvent
    · exact hset.refreshed rfl le_rfl State.noConfusion hbounded
    · rw [refreshDeadline_conn]
      rfl
  case forwarding => exact forwardRequest_solvent h

theorem AffordsAt.prepareRelay (h : AffordsAt cfg 1 f)
    (hbounded : f.conn.requestBuf.length ≤ cfg.maxRequestSize) : SolventAt cfg (prepareRelay cfg f) := by
  have hset : AffordsAt cfg 1 (f.update fun c =>
      { c with relayBuf := c.responseBuf, relayOffset := 0, state := .forwardingResponse }) := h
  exact hset.refreshed rfl le_rfl State.noConfusion hbounded

/-- Each byte of the response pays for the time to the next. -/
theorem receiveResponse_affords (h : AffordsAt cfg credit f) {bytes : Bytes} (hne : bytes ≠ []) :
    AffordsAt cfg credit (receiveResponse cfg bytes (f.log (.backendReceived bytes))) := by
  have hpaid := h.paid
  have hlength := List.length_pos_iff.mpr hne
  have hlogged : AffordsAt cfg (credit + 1) ((f.log (.backendReceived bytes)).update
      fun c => { c with responseBuf := c.responseBuf ++ bytes }) := by
    refine ⟨?_, h.allowed⟩
    rw [update_trace, log_trace, traffic_concat, moved]
    show f.conn.deadlineGen + (credit + 1) ≤ 2 + f.conn.requestBuf.length +
      (traffic f.trace + bytes.length) + 3 * f.conn.backendAttempts
    omega
  have hrefreshed := hlogged.refreshDeadline
  rw [AffordsAt, receiveResponse, update_conn, recordFraming_eq, recordStatus_eq]
  exact hrefreshed

theorem handleBackendReadable_solvent (h : SolventAt cfg f) :
    (handleBackendReadable cfg f).Post (SolventAt cfg) fun f' => SolventAt cfg (f'.setState .done) := by
  have hreading : f.conn.state = .readingResponse → AffordsAt cfg 1 f ∧
      f.conn.requestBuf.length ≤ cfg.maxRequestSize := by
    intro hstate
    refine ⟨?_, h.bounded (by rw [hstate]; exact State.noConfusion)⟩
    have h := h.toAffords
    rw [hstate] at h
    exact h
  have hclosed : AffordsAt cfg 1 f → AffordsAt cfg 1 (f.log (.backendReceived [])) := fun hpaid =>
    hpaid.mono le_rfl rfl rfl rfl (traffic_concat _ _)
  apply handleBackendReadable_post
  case ignored => exact fun _ => h
  case blocked => exact fun _ _ => h
  case broken => exact fun hstate _ => failover_solvent.2 f (hreading hstate)
  case raises => exact fun _ _ => h.setDone
  case closed =>
    intro hstate _
    obtain ⟨hpaid, hbounded⟩ := hreading hstate
    apply backendClosed_post
    case cutOff => exact fun _ _ => failover_solvent.2 _ ⟨hclosed hpaid, hbounded⟩
    case relay => exact (hclosed hpaid).prepareRelay hbounded
  case received =>
    intro bytes hstate _ hne
    obtain ⟨hpaid, hbounded⟩ := hreading hstate
    have hgrown := receiveResponse_affords hpaid hne
    have hbuf : (receiveResponse cfg bytes (f.log (.backendReceived bytes))).conn.requestBuf =
        f.conn.requestBuf := by
      rw [receiveResponse_conn]
      rfl
    have hstate' : (receiveResponse cfg bytes (f.log (.backendReceived bytes))).conn.state =
        .readingResponse := by
      rw [receiveResponse_conn]
      exact hstate
    rw [← hbuf] at hbounded
    have hsolvent := hgrown.solvent hstate' le_rfl State.noConfusion hbounded
    apply checkComplete_post
    case stay => exact fun _ => hsolvent
    case relay => exact fun _ _ _ => AffordsAt.prepareRelay (hgrown.mono le_rfl rfl rfl rfl rfl) hbounded

theorem handleClientWritable_solvent (h : SolventAt cfg f) :
    (handleClientWritable cfg f).Post (SolventAt cfg) fun f' => SolventAt cfg (f'.setState .done) := by
  have hpaid : AffordsAt cfg 0 f := by
    have hpaid : AffordsAt cfg f.conn.state.credit f := h.toAffords
    exact hpaid.mono (Nat.zero_le _) rfl rfl rfl rfl
  apply handleClientWritable_post
  case ignored => exact fun _ => h
  case blocked => exact fun _ _ => h
  case gone => exact fun _ _ => h.setDone
  case raises => exact fun _ _ => h.setDone
  case sentAll => exact fun _ accepted _ _ _ _ => (recordRelayed_affords hpaid accepted).finish
  case sentSome =>
    intro _ accepted hstate _ _ _
    have hstate' : (recordRelayed cfg accepted f).conn.state = .forwardingResponse := by
      rw [recordRelayed_conn]
      exact hstate
    apply (recordRelayed_affords hpaid accepted).solvent hstate' le_rfl State.noConfusion
    rw [recordRelayed_conn]
    exact h.bounded (by rw [hstate]; exact State.noConfusion)

theorem handle_solvent (c : Call) (h : SolventAt cfg f) :
    (handle cfg c f).Post (SolventAt cfg) fun f' => SolventAt cfg (f'.setState .done) := by
  cases c with
  | timeout => exact handleTimeout_solvent h
  | clientReadable => exact handleClientReadable_solvent h
  | clientWritable => exact handleClientWritable_solvent h
  | backendReadable => exact handleBackendReadable_solvent h
  | backendWritable => exact handleBackendWritable_solvent h

end Handlers

/-! ### Runs -/

namespace Fleet

variable {cfg : Config} {w : Fleet} {router : Router} {events : List Event}

theorem solvent_of_run (hrun : Machine.run (step cfg) (init router) events = some w) :
    ∀ s ∈ w.sessions, Solvent cfg s.conn.state s.conn.deadlineGen s.conn.backendAttempts
      s.conn.requestBuf.length (traffic s.trace) :=
  session_invariant
    (fun s => Solvent cfg s.conn.state s.conn.deadlineGen s.conn.backendAttempts
      s.conn.requestBuf.length (traffic s.trace))
    (fun _ _ _ _ => ⟨⟨le_rfl, Nat.zero_le _⟩, fun _ => ⟨rfl, rfl⟩, fun _ => Nat.zero_le _⟩)
    (fun c _ h => handle_solvent c h)
    (fun _ h => ⟨⟨(Nat.add_le_add_left (Nat.zero_le _) _).trans h.paid, h.allowed⟩, State.noConfusion,
      fun hdone => absurd rfl hdone⟩)
    (fun _ h => h) (fun _ hs => absurd hs List.not_mem_nil) hrun

/-- **Patience has a price.** In every run, the deadline of a connection has been set at most once for each
byte that it has received from its client or moved later on, three times for each attempt, and twice more;
there are at most `MAX_BACKEND_RETRIES` attempts after the first. As long as it reads its request, the deadline
has been set at most once more than for each byte of it. The request stored for a connection that is served
never exceeds `MAX_REQUEST_SIZE`. -/
theorem deadlines_are_paid (hrun : Machine.run (step cfg) (init router) events = some w) :
    ∀ s ∈ w.sessions,
      s.conn.deadlineGen ≤ 2 + s.conn.requestBuf.length + traffic s.trace + 3 * s.conn.backendAttempts ∧
      s.conn.backendAttempts ≤ 1 + cfg.maxBackendRetries ∧
      (s.conn.state = .readingRequest → s.conn.deadlineGen ≤ 1 + s.conn.requestBuf.length) ∧
      (s.conn.state ≠ .done → s.conn.requestBuf.length ≤ cfg.maxRequestSize) := by
  intro s hs
  have h := solvent_of_run hrun s hs
  refine ⟨(Nat.le_add_right _ _).trans h.paid, h.allowed, fun hstate => ?_, h.bounded⟩
  have hpaid := h.paid
  obtain ⟨hattempts, htraffic⟩ := h.unassigned hstate
  rw [hstate, State.credit] at hpaid
  omega

theorem deadlines_are_paid_oneRequest : ∃ w,
    Machine.run (step .default) (init twoBackends) (oneRequest (.sent 20)) = some w ∧
    ∀ s ∈ w.sessions,
      s.conn.deadlineGen ≤ 2 + s.conn.requestBuf.length + traffic s.trace + 3 * s.conn.backendAttempts ∧
      s.conn.backendAttempts ≤ 1 + Config.default.maxBackendRetries ∧
      (s.conn.state = .readingRequest → s.conn.deadlineGen ≤ 1 + s.conn.requestBuf.length) ∧
      (s.conn.state ≠ .done → s.conn.requestBuf.length ≤ Config.default.maxRequestSize) := by
  obtain ⟨w, hrun⟩ : ∃ w, Machine.run (step .default) (init twoBackends) (oneRequest (.sent 20)) = some w :=
    Option.isSome_iff_exists.mp (by decide +kernel)
  exact ⟨w, hrun, deadlines_are_paid hrun⟩

end Fleet

end LoadBalancer
