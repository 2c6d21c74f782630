import LoadBalancer.Registrations

/-! Which events refresh the deadline of a connection. A handler that acts on its event, with an answer from
the operating system that gets it on, gives the connection a new deadline or ends it; every other call leaves
the connection as it was, generation and all. -/

namespace LoadBalancer

open Outcome

/-- A `send` gets the handler on: it is not blocked, and takes something if anything is left. -/
def Taken (send : SendResult) (buf : Bytes) (offset : Nat) : Prop :=
  send ≠ .blocked ∧ (send = .sent 0 → buf.length ≤ offset)

/-- The answer that the handler asks for gets it on. -/
def Answers (io : Io) (c : ProxyConnection) : Call → Prop
  | .timeout => True
  | .clientReadable => io.recv ≠ .blocked
  | .clientWritable => Taken io.send c.relayBuf c.relayOffset
  | .backendReadable => io.recv ≠ .blocked
  | .backendWritable => c.state = .forwardingRequest → Taken io.send c.forwardBuf c.forwardOffset

/-- The call gives the connection a new deadline, or ends it. -/
def Refreshes (io : Io) (c : ProxyConnection) (call : Call) : Prop :=
  Reactor.ActsIn call c.state ∧ Answers io c call

/-- The deadline is a newer one than that of `c`, or none is needed any more. -/
def Refreshed (c c' : ProxyConnection) : Prop := c.deadlineGen < c'.deadlineGen ∨ c'.state = .done

section Handlers

variable {cfg : Config} {c : ProxyConnection} {f : Frame}

/-! ### Calls that refresh -/

theorem timeoutForState_eq_none {state : State} (h : timeoutForState cfg state = none) : state = .done := by
  cases state with
  | done => rfl
  | readingRequest | connectingToBackend | forwardingRequest | readingResponse | forwardingResponse => cases h

theorem LaterAt.refreshed (h : LaterAt c f) (hlive : f.conn.state ≠ .done) :
    Refreshed c (LoadBalancer.refreshDeadline cfg f).conn := by
  refine .inl (h.gen_le.trans_lt ?_)
  unfold LoadBalancer.refreshDeadline
  split
  · next hnone => exact absurd (timeoutForState_eq_none hnone) hlive
  · exact Nat.lt_succ_self _

theorem sendError_refreshed (code : Nat) (reason : String) (f : Frame) :
    (sendError code reason f).Post (fun f' => Refreshed c f'.conn) fun _ => True :=
  (sendError_done f code reason).mono (fun _ h => .inr h) fun _ h => h

theorem failover_refreshed (cfg : Config) (c : ProxyConnection) :
    (∀ b f, LaterAt c f →
        (initiateBackendConnect cfg b f).Post (fun f' => Refreshed c f'.conn) fun _ => True) ∧
      ∀ f, LaterAt c f → (failBackend cfg f).Post (fun f' => Refreshed c f'.conn) fun _ => True := by
  have hbegin : ∀ f, LaterAt c f → LaterAt c (beginConnect cfg f) := fun f h =>
    LaterAt.refreshDeadline h
  apply failover_post
  case noSocket => exact fun _ _ _ _ => trivial
  case raises => exact fun _ _ _ _ _ => trivial
  case connected => exact fun b f fd h _ => LaterAt.refreshed (hbegin f h) nofun
  case inProgress =>
    intro b f fd err h _ _
    have hrefreshed : Refreshed c (beginConnect cfg f).conn := LaterAt.refreshed h nofun
    exact hrefreshed
  case refused => exact fun b f fd err h _ _ _ => hbegin f h
  case retry => exact fun b f h _ _ => h.abandonBackend.nextBackend _
  case giveUp => exact fun _ f' _ _ => sendError_refreshed 502 _ f'

theorem Taken.ne_nil {send : SendResult} {buf : Bytes} {offset n : Nat} (h : Taken send buf offset)
    (hsend : send = .sent n) (hleft : offset + ((buf.drop offset).take n).length < buf.length) :
    (buf.drop offset).take n ≠ [] := by
  intro hnil
  rw [hnil] at hleft
  rcases List.take_eq_nil_iff.mp hnil with rfl | hdrop
  · exact absurd (h.2 hsend) (not_le.mpr hleft)
  · exact absurd (List.drop_eq_nil_iff.mp hdrop) (not_le.mpr hleft)

theorem handleClientReadable_refreshed (h : LaterAt c f) (hstate : f.conn.state = .readingRequest)
    (hrecv : f.io.recv ≠ .blocked) :
    (handleClientReadable cfg f).Post (fun f' => Refreshed c f'.conn) fun _ => True := by
  have hlive : f.conn.state ≠ .done := by
    rw [hstate]
    exact State.noConfusion
  have hreceived : ∀ bytes, LaterAt c (receiveRequest cfg bytes f) := fun _ => LaterAt.refreshDeadline h
  apply handleClientReadable_post
  case ignored => exact fun hne => absurd hstate hne
  case blocked => exact fun _ hblocked => absurd hblocked hrecv
  case gone => exact fun _ _ => .inr rfl
  case raises => exact fun _ _ => trivial
  case tooLarge => exact fun bytes _ _ _ _ => sendError_refreshed 413 _ _
  case incomplete => exact fun bytes _ _ _ _ => LaterAt.refreshed h hlive
  case complete =>
    intro bytes req _ _ _ _
    apply routeRequest_post
    case unavailable => exact fun _ => sendError_refreshed 503 _ _
    case routed =>
      exact fun _ _ => (failover_refreshed cfg c).1 _ _ (LaterAt.nextBackend (hreceived bytes) none)

theorem handleClientWritable_refreshed (h : LaterAt c f) (hstate : f.conn.state = .forwardingResponse)
    (htaken : Taken f.io.send f.conn.relayBuf f.conn.relayOffset) :
    (handleClientWritable cfg f).Post (fun f' => Refreshed c f'.conn) fun _ => True := by
  have hlive : f.conn.state ≠ .done := by
    rw [hstate]
    exact State.noConfusion
  apply handleClientWritable_post
  case ignored => exact fun hne => absurd hstate hne
  case blocked => exact fun _ hblocked => absurd hblocked htaken.1
  case gone => exact fun _ _ => .inr rfl
  case raises => exact fun _ _ => trivial
  case sentAll => exact fun _ accepted _ _ _ _ => .inr (by rw [finish_conn])
  case sentSome =>
    rintro n accepted _ hsend rfl hleft
    have hne := htaken.ne_nil hsend hleft
    simp only [recordRelayed, if_neg hne]
    exact LaterAt.refreshed h hlive

theorem forwardRequest_refreshed (h : LaterAt c f) (hlive : f.conn.state ≠ .done)
    (hor : Refreshed c f.conn ∨ Taken f.io.send f.conn.forwardBuf f.conn.forwardOffset) :
    (forwardRequest cfg f).Post (fun f' => Refreshed c f'.conn) fun _ => True := by
  apply forwardRequest_post
  case blocked => exact fun hblocked => hor.resolve_right fun htaken => htaken.1 hblocked
  case broken => exact fun _ => (failover_refreshed cfg c).2 f h
  case raises => exact fun _ => trivial
  case sentAll =>
    intro n accepted _ _ _
    have hforwarded : LaterAt c ((recordForwarded cfg accepted f).setState .readingResponse) :=
      h.recordForwarded accepted
    exact hforwarded.refreshed nofun
  case sentSome =>
    rintro n accepted hsend rfl hleft
    generalize haccepted : (f.conn.forwardBuf.drop f.conn.forwardOffset).take n = accepted at hleft
    by_cases hnil : accepted = []
    · rcases hor with hrefreshed | htaken
      · simp only [recordForwarded, if_pos hnil]
        exact hrefreshed
      · subst haccepted
        exact absurd hnil (htaken.ne_nil hsend hleft)
    · simp only [recordForwarded, if_neg hnil]
      have hlogged : LaterAt c (f.log (.backendSent accepted)) := h
      exact hlogged.refreshed hlive

theorem handleBackendWritable_refreshed (h : LaterAt c f)
    (hacts : f.conn.state = .connectingToBackend ∨ f.conn.state = .forwardingRequest)
    (htaken : f.conn.state = .forwardingRequest →
      Taken f.io.send f.conn.forwardBuf f.conn.forwardOffset) :
    (handleBackendWritable cfg f).Post (fun f' => Refreshed c f'.conn) fun _ => True := by
  apply handleBackendWritable_post
  case ignored => exact fun hconnecting hforwarding => absurd hacts (not_or.mpr ⟨hconnecting, hforwarding⟩)
  case raises => exact fun _ _ => trivial
  case refused => exact fun _ _ _ _ => (failover_refreshed cfg c).2 f h
  case connected =>
    intro _ _
    have hconnected : LaterAt c (f.setState .forwardingRequest) := h
    have hrefreshed : Refreshed c (refreshDeadline cfg (f.setState .forwardingRequest)).conn :=
      hconnected.refreshed nofun
    refine forwardRequest_refreshed (LaterAt.refreshDeadline hconnected) ?_ (.inl hrefreshed)
    rw [refreshDeadline_conn]
    exact nofun
  case forwarding =>
    intro hstate
    refine forwardRequest_refreshed h ?_ (.inr (htaken hstate))
    rw [hstate]
    exact State.noConfusion

theorem prepareRelay_refreshed (h : LaterAt c f) : Refreshed c (prepareRelay cfg f).conn :=
  LaterAt.refreshed h nofun

theorem handleBackendReadable_refreshed (h : LaterAt c f) (hstate : f.conn.state = .readingResponse)
    (hrecv : f.io.recv ≠ .blocked) :
    (handleBackendReadable cfg f).Post (fun f' => Refreshed c f'.conn) fun _ => True := by
  apply handleBackendReadable_post
  case ignored => exact fun hne => absurd hstate hne
  case blocked => exact fun _ hblocked => absurd hblocked hrecv
  case broken => exact fun _ _ => (failover_refreshed cfg c).2 f h
  case raises => exact fun _ _ => trivial
  case closed =>
    intro _ _
    apply backendClosed_post
    case cutOff => exact fun _ _ => (failover_refreshed cfg c).2 _ h
    case relay => exact prepareRelay_refreshed h
  case received =>
    intro bytes _ _ _
    have hgrown : LaterAt c ((f.log (.backendReceived bytes)).update fun c =>
        { c with responseBuf := c.responseBuf ++ bytes }) := h
    have hlater : LaterAt c (receiveResponse cfg bytes (f.log (.backendReceived bytes))) := by
      rw [LaterAt, receiveResponse, update_conn, recordFraming_eq, recordStatus_eq]
      exact hgrown.refreshDeadline
    have hrefreshed : Refreshed c (receiveResponse cfg bytes (f.log (.backendReceived bytes))).conn := by
      rw [receiveResponse, update_conn, recordFraming_eq, recordStatus_eq]
      refine hgrown.refreshed ?_
      rw [update_conn, log_conn, hstate]
      exact State.noConfusion
    exact checkComplete_post cfg _ (fun _ => hrefreshed) fun _ _ _ => prepareRelay_refreshed hlater

theorem handle_refreshed {call : Call} (h : Refreshes f.io f.conn call) :
    (handle cfg call f).Post (fun f' => Refreshed f.conn f'.conn) fun _ => True := by
  obtain ⟨hacts, hanswers⟩ := h
  have hlater : LaterAt f.conn f := ⟨le_rfl, fun _ => rfl, rfl⟩
  cases call with
  | timeout => exact (handleTimeout_done f).mono (fun _ hdone => .inr hdone) fun _ h => h
  | clientReadable => exact handleClientReadable_refreshed hlater hacts hanswers
  | clientWritable => exact handleClientWritable_refreshed hlater hacts hanswers
  | backendReadable => exact handleBackendReadable_refreshed hlater hacts hanswers
  | backendWritable => exact handleBackendWritable_refreshed hlater hacts hanswers

/-! ### Calls that do not -/

theorem not_taken {send : SendResult} {buf : Bytes} {offset : Nat} (h : ¬ Taken send buf offset) :
    send = .blocked ∨ send = .sent 0 ∧ offset < buf.length := by
  rcases not_and_or.mp h with hblocked | hnothing
  · exact .inl (not_not.mp hblocked)
  · obtain ⟨hsent, hleft⟩ := Classical.not_imp.mp hnothing
    exact .inr ⟨hsent, not_le.mp hleft⟩

theorem forwardRequest_idle (h : ¬ Taken f.io.send f.conn.forwardBuf f.conn.forwardOffset) :
    ∃ f', forwardRequest cfg f = .returned f' ∧ f'.conn = f.conn := by
  rcases not_taken h with hblocked | ⟨hsent, hleft⟩
  · exact ⟨f, by rw [forwardRequest, hblocked], rfl⟩
  · refine ⟨recordForwarded cfg [] f, ?_, rfl⟩
    rw [forwardRequest, hsent]
    exact if_neg (not_le.mpr hleft)

theorem handleClientReadable_idle (hstate : f.conn.state = .readingRequest)
    (hblocked : f.io.recv = .blocked) : handleClientReadable cfg f = .returned f := by
  rw [handleClientReadable, if_neg (not_not.mpr hstate), hblocked]

theorem handleBackendReadable_idle (hstate : f.conn.state = .readingResponse)
    (hblocked : f.io.recv = .blocked) : handleBackendReadable cfg f = .returned f := by
  rw [handleBackendReadable, if_neg (not_not.mpr hstate), hblocked]

theorem handleClientWritable_idle (hstate : f.conn.state = .forwardingResponse)
    (h : ¬ Taken f.io.send f.conn.relayBuf f.conn.relayOffset) :
    ∃ f', handleClientWritable cfg f = .returned f' ∧ f'.conn = f.conn := by
  rw [handleClientWritable, if_neg (not_not.mpr hstate)]
  rcases not_taken h with hblocked | ⟨hsent, hleft⟩
  · exact ⟨f, by rw [hblocked], rfl⟩
  · refine ⟨recordRelayed cfg [] f, ?_, rfl⟩
    rw [hsent]
    exact if_neg (not_le.mpr hleft)

/-- Every other call leaves the connection as it was. -/
theorem handle_idle {call : Call} (h : ¬ Refreshes f.io f.conn call) :
    ∃ f', handle cfg call f = .returned f' ∧ f'.conn = f.conn := by
  by_cases hacts : Reactor.ActsIn call f.conn.state
  · have hno : ¬ Answers f.io f.conn call := fun hanswers => h ⟨hacts, hanswers⟩
    cases call with
    | timeout => exact absurd trivial hno
    | clientReadable => exact ⟨f, handleClientReadable_idle hacts (not_not.mp hno), rfl⟩
    | clientWritable => exact handleClientWritable_idle hacts hno
    | backendReadable => exact ⟨f, handleBackendReadable_idle hacts (not_not.mp hno), rfl⟩
    | backendWritable =>
        obtain ⟨hstate, htaken⟩ := Classical.not_imp.mp hno
        rw [handle, handleBackendWritable, hstate]
        exact forwardRequest_idle htaken
  · exact ⟨f, Reactor.handle_of_not_actsIn hacts, rfl⟩

end Handlers

theorem Refreshed.trans {c c₁ c₂ : ProxyConnection} (h : Refreshed c c₁)
    (hadvances : Reactor.Advances c₁ c₂) : Refreshed c c₂ :=
  h.imp (fun hlt => hlt.trans_le hadvances.gen_le) hadvances.done

namespace Reactor

variable {cfg : Config} {i : Nat} {r r' : Reactor} {s : Session}

/-! ### Dispatches -/

/-- Of the handlers that a dispatch calls on a connection at work, one refreshes its deadline. -/
def DispatchRefreshes (r : Reactor) : Event → Prop
  | .dispatch i sock mask io => ∀ s, r.fleet.sessions[i]? = some s → s.conn.state ≠ .done →
      ∃ b ∈ branches (sock = s.conn.clientSock) (s.conn.backendSock = some sock) mask,
        b.1 = true ∧ Refreshes (io b.2) s.conn b.2
  | _ => True

/-- Connection `i` has a newer deadline than `c`. -/
def RefreshedAt (i : Nat) (c : ProxyConnection) (r : Reactor) : Prop :=
  ∀ s, r.fleet.sessions[i]? = some s → Refreshed c s.conn

theorem maintains_refreshedAt (cfg : Config) (i : Nat) (c : ProxyConnection) :
    Maintains cfg i (RefreshedAt i c) fun _ => True where
  selector := fun _ _ h => h
  cleared := by
    intro r h s hs
    obtain ⟨s₀, hs₀, rfl⟩ := Option.map_eq_some_iff.mp ((List.getElem?_modify_eq ..).symm.trans hs)
    exact h s₀ hs₀
  called := by
    intro r call io h
    unfold Fleet.call
    split
    · trivial
    · next s hs =>
      rw [post_map, post_map]
      refine (handle_advances cfg call (f := r.fleet.frame s io) (Advances.refl s.conn)).mono ?_ fun _ _ => trivial
      intro f hadvances s' hs'
      obtain rfl := Fleet.eq_sessionOf_of_put hs hs'
      exact (h s hs).trans hadvances
  raised := fun _ _ => trivial

theorem flushPendingUnregister_of_settled (hs : r.fleet.sessions[i]? = some s)
    (hpending : s.conn.pendingBackendUnregister = none) : r.flushPendingUnregister i = .returned r := by
  rw [flushPendingUnregister, hs]
  dsimp only
  rw [hpending]

theorem transition_of_settled (hs : r.fleet.sessions[i]? = some s)
    (hpending : s.conn.pendingBackendUnregister = none) :
    r.transition i s.conn.state = .returned r := by
  rw [transition, flushPendingUnregister_of_settled hs hpending, andThen, hs]
  exact if_pos rfl

/-- Nothing of what `_schedule_deadline` looks at has changed. -/
structure Idle (i : Nat) (c : ProxyConnection) (r r' : Reactor) : Prop where
  deadlines : r'.deadlines = r.deadlines
  handles : r'.handles = r.handles
  conn : ∃ s, r'.fleet.sessions[i]? = some s ∧ s.conn = c

/-- A branch of a dispatch that does not refresh the deadline changes nothing of the connection. -/
theorem handleEvent_idle (cfg : Config) (hs : r.fleet.sessions[i]? = some s)
    (hpending : s.conn.pendingBackendUnregister = none) {enabled : Bool} {call : Call} {io : Io}
    (hidle : enabled = true → ¬ Refreshes io s.conn call) :
    ∃ r', r.handleEvent cfg i enabled call io = .returned r' ∧ Idle i s.conn r r' := by
  rw [handleEvent, hs]
  dsimp only
  cases enabled with
  | false => exact ⟨r, rfl, rfl, rfl, s, hs, rfl⟩
  | true =>
      obtain ⟨f', hcall, hconn⟩ :
          ∃ f', handle cfg call (r.fleet.frame s io) = .returned f' ∧ f'.conn = s.conn :=
        handle_idle (f := r.fleet.frame s io) (hidle rfl)
      have hs' : (r.fleet.put i f').sessions[i]? = some (Fleet.sessionOf f') :=
        Fleet.getElem?_put_self hs f'
      have hconn' : (Fleet.sessionOf f').conn = s.conn := hconn
      refine ⟨{ r with fleet := r.fleet.put i f' }, ?_, rfl, rfl, _, hs', hconn'⟩
      rw [if_pos rfl, Fleet.call_eq_of_getElem? hs, hcall, ← hconn']
      exact transition_of_settled hs' (hconn' ▸ hpending)

theorem handleEvent_refreshed {call : Call} {io : Io} (hs : r.fleet.sessions[i]? = some s)
    (hcall : Refreshes io s.conn call) :
    (r.handleEvent cfg i true call io).Post (RefreshedAt i s.conn) fun _ => True := by
  have hput : (((handle cfg call (r.fleet.frame s io)).map (r.fleet.put i)).map
      fun fleet => { r with fleet := fleet }).Post (RefreshedAt i s.conn) fun _ => True := by
    rw [post_map, post_map]
    refine (handle_refreshed (f := r.fleet.frame s io) hcall).mono (fun f hrefreshed s' hs' => ?_) fun _ h => h
    obtain rfl := Fleet.eq_sessionOf_of_put hs hs'
    exact hrefreshed
  rw [handleEvent, hs]
  dsimp only
  rw [if_pos rfl, Fleet.call_eq_of_getElem? hs]
  exact hput.andThen fun r' hr' => (maintains_refreshedAt cfg i s.conn).transition hr' _

/-- The branches before the one that refreshes change nothing, and those after it lose nothing. -/
theorem runBranches_refreshed {io : Call → Io} {branches : List (Bool × Call)}
    (hs : r.fleet.sessions[i]? = some s) (hpending : s.conn.pendingBackendUnregister = none)
    (hrefreshes : ∃ b ∈ branches, b.1 = true ∧ Refreshes (io b.2) s.conn b.2) :
    (r.runBranches cfg i io branches).Post (RefreshedAt i s.conn) fun _ => True := by
  induction branches generalizing r s with
  | nil =>
      obtain ⟨b, hb, -⟩ := hrefreshes
      exact absurd hb List.not_mem_nil
  | cons branch rest ih =>
      obtain ⟨enabled, call⟩ := branch
      rw [runBranches]
      by_cases hfirst : enabled = true ∧ Refreshes (io call) s.conn call
      · obtain ⟨rfl, hcall⟩ := hfirst
        exact (handleEvent_refreshed hs hcall).andThen fun r' hr' =>
          (maintains_refreshedAt cfg i s.conn).runBranches hr' io rest
      · obtain ⟨r', hevent, -, -, s', hs', hconn⟩ := handleEvent_idle cfg hs hpending
          fun henabled hcall => hfirst ⟨henabled, hcall⟩
        have hrest : ∃ b ∈ rest, b.1 = true ∧ Refreshes (io b.2) s'.conn b.2 := by
          obtain ⟨b, hb, henabled, hcall⟩ := hrefreshes
          rcases List.mem_cons.mp hb with rfl | hb
          · exact absurd ⟨henabled, hcall⟩ hfirst
          · exact ⟨b, hb, henabled, hconn ▸ hcall⟩
        have hpost := ih hs' (hconn ▸ hpending) hrest
        rw [hconn] at hpost
        rw [hevent]
        exact hpost

/-- Branches none of which refreshes change nothing. -/
theorem runBranches_idle (cfg : Config) {io : Call → Io} {branches : List (Bool × Call)}
    (hs : r.fleet.sessions[i]? = some s) (hpending : s.conn.pendingBackendUnregister = none)
    (hidle : ∀ b ∈ branches, b.1 = true → ¬ Refreshes (io b.2) s.conn b.2) :
    ∃ r', r.runBranches cfg i io branches = .returned r' ∧ Idle i s.conn r r' := by
  induction branches generalizing r s with
  | nil => exact ⟨r, rfl, rfl, rfl, s, hs, rfl⟩
  | cons branch rest ih =>
      obtain ⟨r₁, hevent, hdeadlines, hhandles, s₁, hs₁, hconn₁⟩ :=
        handleEvent_idle cfg hs hpending (hidle branch List.mem_cons_self)
      obtain ⟨r', hrest, hidle'⟩ := ih hs₁ (hconn₁ ▸ hpending) fun b hb =>
        hconn₁ ▸ hidle b (List.mem_cons_of_mem branch hb)
      refine ⟨r', ?_, hidle'.deadlines.trans hdeadlines, hidle'.handles.trans hhandles, hconn₁ ▸ hidle'.conn⟩
      rw [runBranches, hevent]
      exact hrest

@[simp] theorem fleet_scheduleDeadline (i : Nat) (r : Reactor) : (r.scheduleDeadline i).fleet = r.fleet := by
  unfold scheduleDeadline
  split
  · split <;> rfl
  · rfl

/-- A dispatch that refreshes, as a step of the loop. -/
theorem refreshedAt_of_dispatch {sock : Sock} {mask : Mask} {io : Call → Io}
    (hs : r.fleet.sessions[i]? = some s) (hpending : s.conn.pendingBackendUnregister = none)
    (hrefreshes : ∃ b ∈ branches (sock = s.conn.clientSock) (s.conn.backendSock = some sock) mask,
      b.1 = true ∧ Refreshes (io b.2) s.conn b.2)
    (hstep : r.step cfg (.dispatch i sock mask io) = some r') : RefreshedAt i s.conn r' := by
  have hmaintains := maintains_refreshedAt cfg i s.conn
  have hdispatch : (r.dispatch cfg i sock mask io).Post (RefreshedAt i s.conn) fun _ => True := by
    rw [dispatch, hs]
    refine ((runBranches_refreshed hs hpending hrefreshes).andThen fun r hr =>
      hmaintains.flushPendingUnregister hr).andThen fun r hr => ?_
    intro s' hs'
    rw [fleet_scheduleDeadline] at hs'
    exact hr s' hs'
  refine of_step_dispatch (hdispatch.mono (fun _ h => h) fun r₁ _ s' hs' => ?_) hstep
  exact .inr (done_of_markDone hs')

/-- A dispatch that does not: the connection is as it was, and its deadline is scheduled again. -/
theorem dispatch_idle (cfg : Config) {sock : Sock} {mask : Mask} {io : Call → Io}
    (hs : r.fleet.sessions[i]? = some s) (hpending : s.conn.pendingBackendUnregister = none)
    (hidle : ∀ b ∈ branches (sock = s.conn.clientSock) (s.conn.backendSock = some sock) mask,
      b.1 = true → ¬ Refreshes (io b.2) s.conn b.2) :
    ∃ r₁, r.step cfg (.dispatch i sock mask io) = some (r₁.scheduleDeadline i) ∧ Idle i s.conn r r₁ := by
  obtain ⟨r₁, hbranches, hsame⟩ := runBranches_idle cfg hs hpending hidle
  obtain ⟨s₁, hs₁, hconn₁⟩ := hsame.conn
  refine ⟨r₁, ?_, hsame⟩
  rw [step, dispatch, hs]
  dsimp only
  rw [hbranches, andThen, flushPendingUnregister_of_settled hs₁ (hconn₁ ▸ hpending)]
  rfl

end Reactor

end LoadBalancer
