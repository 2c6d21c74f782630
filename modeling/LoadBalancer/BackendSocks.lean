import LoadBalancer.HandlerRules

/-! What a handler call does to the sockets of its connection. Either it leaves them alone, or the
connection ends up on a socket opened during the call, or it is `DONE`; the sockets of other connections
stay as they are. -/

namespace LoadBalancer

open Outcome

/-- Where a call can lead that leaves the sockets alone, other than to `DONE`. -/
def Moves : State → State → Prop
  | .connectingToBackend, s => s = .connectingToBackend ∨ s = .forwardingRequest ∨ s = .readingResponse
  | .forwardingRequest, s => s = .forwardingRequest ∨ s = .readingResponse
  | .readingResponse, s => s = .readingResponse ∨ s = .forwardingResponse
  | state, s => s = state

theorem Moves.refl (state : State) : Moves state state := by
  cases state <;> simp [Moves]

/-- The sockets are those of `f₀`. -/
structure SameSocks (f₀ f : Frame) : Prop where
  os : f.os = f₀.os
  backend : f.conn.backendSock = f₀.conn.backendSock
  pending : f.conn.pendingBackendUnregister = f₀.conn.pendingBackendUnregister

/-- Only the backend socket of `f₀` may have been closed, and every socket that the connection has now and
had not then was opened since; a backend socket that was open still is, or has been given up and
closed. -/
structure Within (f₀ f : Frame) : Prop where
  evolves : f₀.os.Evolves (fun s => f₀.conn.backendSock = some s) f.os
  backend : ∀ s, f.conn.backendSock = some s →
    f₀.conn.backendSock = some s ∨ f₀.os.nextRef ≤ s.ref ∧ s.ref < f.os.nextRef
  pending : ∀ s, f.conn.pendingBackendUnregister = some s →
    f₀.conn.pendingBackendUnregister = some s ∨ f₀.conn.backendSock = some s ∨
      f₀.os.nextRef ≤ s.ref ∧ s.ref < f.os.nextRef
  live : (∀ s, f₀.conn.backendSock = some s → s ∈ f₀.os.opened) →
    ∀ s, f.conn.backendSock = some s → s ∈ f.os.opened
  dropped : (∀ s, f₀.conn.backendSock = some s → s ∈ f₀.os.opened) →
    ∀ s, f₀.conn.backendSock = some s → f.conn.backendSock = some s ∨ s ∉ f.os.opened

/-- The connection waits for a backend on a new socket. -/
structure Renewed (f₀ f : Frame) : Prop where
  active : f₀.conn.state ≠ .forwardingResponse
  state : f.conn.state = .connectingToBackend ∨ f.conn.state = .forwardingRequest
  backend : ∃ s, f.conn.backendSock = some s ∧ f₀.os.nextRef ≤ s.ref ∧ s ∈ f.os.opened

/-- How a call that returns can end. -/
inductive Moved (f₀ f : Frame) : Prop where
  | same (socks : SameSocks f₀ f) (moves : Moves f₀.conn.state f.conn.state)
  | renewed (within : Within f₀ f) (renewed : Renewed f₀ f)
  | ended (within : Within f₀ f) (done : f.conn.state = .done)

section Operations

variable {cfg : Config} {f₀ f : Frame}

theorem SameSocks.refl (f : Frame) : SameSocks f f := ⟨rfl, rfl, rfl⟩

theorem SameSocks.trans {f' : Frame} (h : SameSocks f₀ f) (h' : SameSocks f f') : SameSocks f₀ f' :=
  ⟨h'.os.trans h.os, h'.backend.trans h.backend, h'.pending.trans h.pending⟩

theorem sameSocks_refreshDeadline (cfg : Config) (f : Frame) :
    SameSocks f (refreshDeadline cfg f) := by
  refine ⟨refreshDeadline_os cfg f, ?_, ?_⟩
  · rw [refreshDeadline_conn]
  · rw [refreshDeadline_conn]

/-- A new state and its deadline. -/
theorem sameSocks_enter (cfg : Config) (state : State) (f : Frame) :
    SameSocks f (refreshDeadline cfg (f.setState state)) :=
  SameSocks.trans (f := f.setState state) ⟨rfl, rfl, rfl⟩ (sameSocks_refreshDeadline cfg _)

theorem sameSocks_releaseSlot (f : Frame) : SameSocks f f.releaseSlot := by
  refine ⟨releaseSlot_os f, ?_, ?_⟩
  · rw [releaseSlot_conn]
  · rw [releaseSlot_conn]

theorem sameSocks_finish (f : Frame) : SameSocks f (finish f) := by
  refine ⟨finish_os f, ?_, ?_⟩
  · rw [finish_conn]
  · rw [finish_conn]

theorem sameSocks_recordForwarded (cfg : Config) (accepted : Bytes) (f : Frame) :
    SameSocks f (recordForwarded cfg accepted f) := by
  unfold recordForwarded
  dsimp only
  split
  · exact ⟨rfl, rfl, rfl⟩
  · have hrefreshed := sameSocks_refreshDeadline cfg (f.log (.backendSent accepted))
    exact ⟨hrefreshed.os, hrefreshed.backend, hrefreshed.pending⟩

theorem sameSocks_recordRelayed (cfg : Config) (accepted : Bytes) (f : Frame) :
    SameSocks f (recordRelayed cfg accepted f) := by
  unfold recordRelayed
  dsimp only
  split
  · exact ⟨rfl, rfl, rfl⟩
  · have hrefreshed := sameSocks_refreshDeadline cfg
      ((f.log (.clientSent accepted)).update fun c => { c with clientBytesSent := true })
    exact ⟨hrefreshed.os, hrefreshed.backend, hrefreshed.pending⟩

theorem sameSocks_prepareRelay (cfg : Config) (f : Frame) : SameSocks f (prepareRelay cfg f) := by
  refine ⟨refreshDeadline_os cfg _, ?_, ?_⟩
  · rw [prepareRelay_conn]
  · rw [prepareRelay_conn]

theorem sameSocks_receiveResponse (cfg : Config) (bytes : Bytes) (f : Frame) :
    SameSocks f (receiveResponse cfg bytes f) := by
  refine ⟨refreshDeadline_os cfg _, ?_, ?_⟩
  · rw [receiveResponse_conn]
  · rw [receiveResponse_conn]

theorem SameSocks.within (h : SameSocks f₀ f) : Within f₀ f where
  evolves := by
    rw [h.os]
    exact .refl _ _
  backend := fun s hs => Or.inl (h.backend ▸ hs)
  pending := fun s hs => Or.inl (h.pending ▸ hs)
  live := by
    rw [h.os, h.backend]
    exact fun hlive => hlive
  dropped := fun _ s hs => Or.inl (h.backend.trans hs)

theorem Within.of_same {f' : Frame} (h : Within f₀ f) (hsame : SameSocks f f') : Within f₀ f' := by
  refine ⟨?_, ?_, ?_, ?_, ?_⟩
  · rw [hsame.os]
    exact h.evolves
  · rw [hsame.os, hsame.backend]
    exact h.backend
  · rw [hsame.os, hsame.pending]
    exact h.pending
  · rw [hsame.os, hsame.backend]
    exact h.live
  · rw [hsame.os, hsame.backend]
    exact h.dropped

theorem Within.nextBackend (h : Within f₀ f) (exclude : Option (Finset Backend)) :
    Within f₀ (f.nextBackend exclude).2 :=
  h.of_same ⟨rfl, rfl, rfl⟩

theorem Moved.within (h : Moved f₀ f) : Within f₀ f := by
  cases h with
  | same socks _ => exact socks.within
  | renewed within _ => exact within
  | ended within _ => exact within

/-- The next attempt opens a socket after the failed one has been closed. -/
theorem Within.openBackendSock (h : Within f₀ f) (hnone : f.conn.backendSock = none) (backend : Backend)
    (fd : Nat) : Within f₀ (openBackendSock backend fd f) where
  evolves := h.evolves.openSock fd
  backend := by
    rintro s ⟨rfl⟩
    exact Or.inr ⟨h.evolves.next, Nat.lt_succ_self _⟩
  pending := by
    intro s hs
    exact (h.pending s hs).imp_right fun hs => hs.imp_right fun hs => ⟨hs.1, Nat.lt_succ_of_lt hs.2⟩
  live := by
    rintro - s ⟨rfl⟩
    exact List.mem_cons_self
  dropped := by
    intro hlive s hs
    have hclosed : s ∉ f.os.opened := by
      refine (h.dropped hlive s hs).resolve_left ?_
      rw [hnone]
      exact nofun
    have hold : s.ref < f.os.nextRef := (f₀.os.fresh s (hlive s hs)).trans_le h.evolves.next
    refine Or.inr fun hmem => ?_
    rcases List.mem_cons.mp hmem with rfl | hmem
    · exact absurd hold (Nat.lt_irrefl _)
    · exact hclosed hmem

theorem Within.closeBackend (h : Within f₀ f) : Within f₀ (closeBackend f) := by
  unfold LoadBalancer.closeBackend
  split
  · exact h
  · next old hold =>
    refine ⟨h.evolves.close ((h.backend old hold).imp_right And.left), by rintro s ⟨⟩, ?_,
      by rintro - s ⟨⟩, fun hlive s hs => Or.inr fun hmem => ?_⟩
    · rintro s ⟨rfl⟩
      rw [update_os, Os.nextRef_close]
      exact Or.inr (h.backend old hold)
    · obtain ⟨hopen, hne⟩ := (f.os.mem_opened_close old).mp hmem
      rcases h.dropped hlive s hs with hsame | hclosed
      · exact hne (Option.some.inj (hsame.symm.trans hold))
      · exact hclosed hopen

theorem Within.abandonBackend (h : Within f₀ f) : Within f₀ (abandonBackend f) := by
  refine (h.of_same (sameSocks_releaseSlot f)).closeBackend.of_same ⟨?_, ?_, ?_⟩
  · rw [LoadBalancer.abandonBackend, noteTried_os]
  · rw [LoadBalancer.abandonBackend, noteTried_conn]
  · rw [LoadBalancer.abandonBackend, noteTried_conn]

theorem sendError_sameSocks (code : Nat) (reason : String) (f : Frame) :
    (sendError code reason f).Post (SameSocks f) (SameSocks f) := by
  have hfinished : ∀ {g}, SameSocks f g → SameSocks f (finish g) := fun h =>
    h.trans (sameSocks_finish _)
  unfold sendError
  split
  · exact hfinished ⟨rfl, rfl, rfl⟩
  · exact hfinished ⟨rfl, rfl, rfl⟩
  · exact ⟨rfl, rfl, rfl⟩

theorem Within.sendError (h : Within f₀ f) (code : Nat) (reason : String) :
    (sendError code reason f).Post (Moved f₀) (Within f₀) :=
  ((sendError_sameSocks code reason f).and (sendError_done f code reason)).mono
    (fun _ hf => .ended (h.of_same hf.1) hf.2) fun _ hf => h.of_same hf.1

theorem failover_moved (cfg : Config) (hactive : f₀.conn.state ≠ .forwardingResponse) :
    (∀ b f, Within f₀ f ∧ f.conn.backendSock = none →
        (initiateBackendConnect cfg b f).Post (Moved f₀) (Within f₀)) ∧
      ∀ f, Within f₀ f → (failBackend cfg f).Post (Moved f₀) (Within f₀) := by
  have hbegin : ∀ {f}, Within f₀ f → Within f₀ (beginConnect cfg f) := fun h =>
    h.of_same (sameSocks_enter cfg _ _)
  have hopen : ∀ {f}, Within f₀ f ∧ f.conn.backendSock = none → ∀ b fd,
      Within f₀ (openBackendSock b fd (beginConnect cfg f)) := by
    rintro f ⟨h, hnone⟩ b fd
    refine (hbegin h).openBackendSock ?_ b fd
    rw [beginConnect_conn]
    exact hnone
  apply failover_post
  case noSocket => exact fun b f h _ => hbegin h.1
  case raises => exact fun b f fd h _ => hopen h b fd
  case connected =>
    intro b f fd h _
    refine .renewed ((hopen h b fd).of_same (sameSocks_enter cfg _ _)) ⟨hactive, ?_, ?_⟩
    · rw [refreshDeadline_conn]
      exact Or.inr rfl
    · rw [refreshDeadline_conn, refreshDeadline_os]
      exact ⟨_, rfl, (hbegin h.1).evolves.next, List.mem_cons_self⟩
  case inProgress =>
    intro b f fd err h _ _
    refine .renewed (hopen h b fd) ⟨hactive, Or.inl ?_, ?_⟩
    · rw [openBackendSock_conn, beginConnect_conn]
    · exact ⟨_, rfl, (hbegin h.1).evolves.next, List.mem_cons_self⟩
  case refused => exact fun b f fd err h _ _ _ => hopen h b fd
  case retry =>
    intro b f h _ picked _
    have hpicked := h.abandonBackend.nextBackend (some (abandonBackend f).conn.triedBackends)
    refine ⟨hpicked.of_same ⟨rfl, rfl, rfl⟩, ?_⟩
    rw [resetForRetry, update_conn, nextBackend_conn, abandonBackend_conn]
  case giveUp =>
    intro f f' h hf'
    rcases hf' with rfl | ⟨-, rfl⟩
    · exact h.abandonBackend.sendError 502 _
    · exact (h.abandonBackend.nextBackend _).sendError 502 _

/-! ### Handlers -/

theorem handleTimeout_sameSocks (f : Frame) : (handleTimeout f).Post (SameSocks f) (SameSocks f) := by
  apply handleTimeout_post
  case ended => exact fun _ => SameSocks.refl f
  case idle => exact fun _ => sendError_sameSocks 408 _ f
  case relaying =>
    intro _ _
    have hreleased := sameSocks_releaseSlot f
    exact ⟨hreleased.os, hreleased.backend, hreleased.pending⟩
  case unanswered => exact fun _ _ => sendError_sameSocks 504 _ f

theorem routeRequest_moved (req : HttpRequest) (hactive : f₀.conn.state ≠ .forwardingResponse)
    (h : Within f₀ f) (hnone : f.conn.backendSock = none) :
    (routeRequest cfg req f).Post (Moved f₀) (Within f₀) := by
  have hpicked : Within f₀ ((storeRequest req f).nextBackend none).2 :=
    ⟨h.evolves, h.backend, h.pending, h.live, h.dropped⟩
  apply routeRequest_post
  case unavailable => exact fun _ => hpicked.sendError 503 _
  case routed =>
    refine fun backend _ => (failover_moved cfg hactive).1 _ _ ⟨?_, hnone⟩
    exact ⟨hpicked.evolves, hpicked.backend, hpicked.pending, hpicked.live, hpicked.dropped⟩

theorem handleClientReadable_moved (hidle : f.conn.state = .readingRequest → f.conn.backendSock = none) :
    (handleClientReadable cfg f).Post (Moved f) (Within f) := by
  have hsame : SameSocks f f := SameSocks.refl f
  have hreceived : ∀ bytes, SameSocks f (receiveRequest cfg bytes f) := by
    intro bytes
    have hrefreshed := sameSocks_refreshDeadline cfg
      (f.update fun c => { c with requestBuf := c.requestBuf ++ bytes })
    exact ⟨hrefreshed.os, hrefreshed.backend, hrefreshed.pending⟩
  apply handleClientReadable_post
  case ignored => exact fun _ => .same hsame (Moves.refl _)
  case blocked => exact fun _ _ => .same hsame (Moves.refl _)
  case gone => exact fun _ _ => .ended (hsame.within.of_same ⟨rfl, rfl, rfl⟩) rfl
  case raises => exact fun _ _ => hsame.within
  case tooLarge => exact fun bytes _ _ _ _ => (hreceived bytes).within.sendError 413 _
  case incomplete =>
    intro bytes _ _ _ _
    refine .same (hreceived bytes) ?_
    rw [receiveRequest, refreshDeadline_conn]
    exact Moves.refl _
  case complete =>
    intro bytes req hreading _ _ _
    have hactive : f.conn.state ≠ .forwardingResponse := by rw [hreading]; rintro ⟨⟩
    refine routeRequest_moved req hactive (hreceived bytes).within ?_
    rw [(hreceived bytes).backend, hidle hreading]

theorem forwardRequest_moved (hsame : SameSocks f₀ f) (hactive : f₀.conn.state ≠ .forwardingResponse)
    (hstay : Moves f₀.conn.state f.conn.state) (hnext : Moves f₀.conn.state .readingResponse) :
    (forwardRequest cfg f).Post (Moved f₀) (Within f₀) := by
  have hforwarded := fun accepted => hsame.trans (sameSocks_recordForwarded cfg accepted f)
  apply forwardRequest_post
  case blocked => exact fun _ => .same hsame hstay
  case broken => exact fun _ => (failover_moved cfg hactive).2 f hsame.within
  case raises => exact fun _ => hsame.within
  case sentAll =>
    intro _ accepted _ _ _
    refine .same ((hforwarded accepted).trans (sameSocks_enter cfg _ _)) ?_
    rw [refreshDeadline_conn]
    exact hnext
  case sentSome =>
    intro _ accepted _ _ _
    refine .same (hforwarded accepted) ?_
    rw [recordForwarded_conn]
    exact hstay

theorem handleBackendWritable_moved (f : Frame) :
    (handleBackendWritable cfg f).Post (Moved f) (Within f) := by
  have hsame : SameSocks f f := SameSocks.refl f
  have hconnecting : f.conn.state = .connectingToBackend → f.conn.state ≠ .forwardingResponse := by
    intro hstate
    rw [hstate]
    rintro ⟨⟩
  apply handleBackendWritable_post
  case ignored => exact fun _ _ => .same hsame (Moves.refl _)
  case raises => exact fun _ _ => hsame.within
  case refused => exact fun _ hstate _ _ => (failover_moved cfg (hconnecting hstate)).2 f hsame.within
  case connected =>
    intro hstate _
    refine forwardRequest_moved (sameSocks_enter cfg _ f) (hconnecting hstate) ?_ ?_
    · rw [hstate, refreshDeadline_conn]
      exact Or.inr (Or.inl rfl)
    · rw [hstate]
      exact Or.inr (Or.inr rfl)
  case forwarding =>
    intro hstate
    refine forwardRequest_moved hsame ?_ (Moves.refl _) ?_
    · rw [hstate]
      rintro ⟨⟩
    · rw [hstate]
      exact Or.inr rfl

theorem moved_prepareRelay (hsame : SameSocks f₀ f) (hstate : f₀.conn.state = .readingResponse) :
    Moved f₀ (prepareRelay cfg f) := by
  refine .same (hsame.trans (sameSocks_prepareRelay cfg f)) ?_
  rw [hstate, prepareRelay_conn]
  exact Or.inr rfl

theorem handleBackendReadable_moved (f : Frame) :
    (handleBackendReadable cfg f).Post (Moved f) (Within f) := by
  have hsame : SameSocks f f := SameSocks.refl f
  have hactive : f.conn.state = .readingResponse → f.conn.state ≠ .forwardingResponse := by
    intro hstate
    rw [hstate]
    rintro ⟨⟩
  have hlogged : ∀ bytes, SameSocks f (f.log (.backendReceived bytes)) := fun _ =>
    ⟨hsame.os, hsame.backend, hsame.pending⟩
  apply handleBackendReadable_post
  case ignored => exact fun _ => .same hsame (Moves.refl _)
  case blocked => exact fun _ _ => .same hsame (Moves.refl _)
  case broken => exact fun hstate _ => (failover_moved cfg (hactive hstate)).2 f hsame.within
  case raises => exact fun _ _ => hsame.within
  case closed =>
    intro hstate _
    apply backendClosed_post
    case cutOff => exact fun _ _ => (failover_moved cfg (hactive hstate)).2 _ (hlogged []).within
    case relay => exact moved_prepareRelay (hlogged []) hstate
  case received =>
    intro bytes hstate _ _
    have hreceived : SameSocks f (receiveResponse cfg bytes (f.log (.backendReceived bytes))) :=
      (hlogged bytes).trans (sameSocks_receiveResponse cfg bytes _)
    have hkept : (receiveResponse cfg bytes (f.log (.backendReceived bytes))).conn.state =
        f.conn.state := by
      rw [receiveResponse_conn]
      rfl
    apply checkComplete_post
    case stay =>
      intro _
      refine .same ⟨hreceived.os, hreceived.backend, hreceived.pending⟩ ?_
      rw [update_conn, hkept]
      exact Moves.refl _
    case relay =>
      exact fun _ _ _ => moved_prepareRelay ⟨hreceived.os, hreceived.backend, hreceived.pending⟩ hstate

theorem handleClientWritable_sameSocks (f : Frame) :
    (handleClientWritable cfg f).Post (SameSocks f) (SameSocks f) := by
  have hsame : SameSocks f f := SameSocks.refl f
  apply handleClientWritable_post
  case ignored => exact fun _ => hsame
  case blocked => exact fun _ _ => hsame
  case gone => exact fun _ _ => ⟨rfl, rfl, rfl⟩
  case raises => exact fun _ _ => hsame
  case sentAll =>
    exact fun _ accepted _ _ _ _ => (sameSocks_recordRelayed cfg accepted f).trans (sameSocks_finish _)
  case sentSome => exact fun _ accepted _ _ _ _ => sameSocks_recordRelayed cfg accepted f

theorem handleClientWritable_state (f : Frame) :
    (handleClientWritable cfg f).Post
      (fun f' => f'.conn.state = f.conn.state ∨ f'.conn.state = .done) fun _ => True := by
  apply handleClientWritable_post
  case ignored => exact fun _ => Or.inl rfl
  case blocked => exact fun _ _ => Or.inl rfl
  case gone => exact fun _ _ => Or.inr rfl
  case raises => exact fun _ _ => trivial
  case sentAll => exact fun _ _ _ _ _ _ => Or.inr (by rw [finish_conn])
  case sentSome => exact fun _ _ _ _ _ _ => Or.inl (by rw [recordRelayed_conn])

theorem handle_moved (c : Call) (hidle : f.conn.state = .readingRequest → f.conn.backendSock = none) :
    (handle cfg c f).Post (Moved f) (Within f) := by
  cases c with
  | timeout =>
      exact ((handleTimeout_sameSocks f).and (handleTimeout_done f)).mono
        (fun _ h => .ended h.1.within h.2) fun _ h => h.1.within
  | clientReadable => exact handleClientReadable_moved hidle
  | clientWritable =>
      refine ((handleClientWritable_sameSocks f).and (handleClientWritable_state f)).mono
        (fun _ h => ?_) fun _ h => h.1.within
      rcases h.2 with hstate | hdone
      · exact .same h.1 (hstate ▸ Moves.refl _)
      · exact .ended h.1.within hdone
  | backendReadable => exact handleBackendReadable_moved f
  | backendWritable => exact handleBackendWritable_moved f

/-! ### Failures that hand over the failed socket -/

/-- The calls that find the backend broken. -/
def FailsBackend (conn : ProxyConnection) (io : Io) : Call → Prop
  | .backendWritable =>
      (conn.state = .connectingToBackend ∧ ∃ err, io.soError = .errno err ∧ err ≠ 0) ∨
        ((conn.state = .forwardingRequest ∨
          conn.state = .connectingToBackend ∧ io.soError = .errno 0) ∧ io.send = .osError)
  | .backendReadable =>
      conn.state = .readingResponse ∧ (io.recv = .osError ∨
        (io.recv = .data [] ∧ (conn.responseIsChunked && conn.responseHeadersDone) = true ∧
          tryConsumeChunkedBody (responseBody conn.responseBuf) = some none))
  | _ => False

/-- `connect_ex` does not raise, and returns 0 or an errno of a connect in progress. -/
def ConnectResult.Accepted : ConnectResult → Prop
  | .errno _ err => err = 0 ∨ err ∈ connectInProgress
  | _ => False

/-- The backend that `_fail_backend` would try next. -/
def retryBackend (cfg : Config) (f : Frame) : Option Backend :=
  let f := abandonBackend f
  if canRetry cfg f.conn then (f.nextBackend (some f.conn.triedBackends)).1 else none

/-- The connect to the backend to try next, if there is one, is accepted at once, and if there is none,
`sendall` of the error response raises nothing but what `_send_error` catches. -/
def FailsCleanly (cfg : Config) (f : Frame) : Prop :=
  match retryBackend cfg f with
  | some _ => (f.io.connect (f.conn.backendAttempts + 1)).Accepted
  | none => ∀ n, f.io.sendall ≠ .raises n

/-- The call leaves no socket behind that has been registered, except the one it hands over. -/
def HandsOver (cfg : Config) (c : Call) (f : Frame) : Prop :=
  FailsBackend f.conn f.io c → FailsCleanly cfg f

/-- The backend socket of `f₀`, if there was one, is still that of the connection, or is the one that the
reactor is to unregister. -/
def Handed (f₀ f : Frame) : Prop :=
  f₀.conn.backendSock = none ∨ f.conn.backendSock = f₀.conn.backendSock ∨
    f.conn.pendingBackendUnregister = f₀.conn.backendSock

theorem SameSocks.handed (h : SameSocks f₀ f) : Handed f₀ f := Or.inr (Or.inl h.backend)

theorem sendError_pending {code : Nat} {reason : String} (h : ∀ n, f.io.sendall ≠ .raises n) :
    (sendError code reason f).Post
      (fun f' => f'.conn.pendingBackendUnregister = f.conn.pendingBackendUnregister) fun _ => False := by
  unfold sendError
  split
  · rw [post_returned, finish_conn]
    rfl
  · rw [post_returned, finish_conn]
    rfl
  · next n hraises => exact absurd hraises (h n)

theorem initiateBackendConnect_pending (backend : Backend)
    (h : (f.io.connect f.conn.backendAttempts).Accepted) :
    (initiateBackendConnect cfg backend f).Post
      (fun f' => f'.conn.pendingBackendUnregister = f.conn.pendingBackendUnregister) fun _ => False := by
  rw [initiateBackendConnect_eq]
  split
  · next hanswer =>
    rw [hanswer] at h
    exact h
  · next fd hanswer =>
    rw [hanswer] at h
    exact h
  · next fd err hanswer =>
    rw [hanswer] at h
    dsimp only
    split_ifs with hzero hprogress
    · rw [post_returned, refreshDeadline_conn, setState_conn, openBackendSock_conn, beginConnect_conn]
    · rw [post_returned, openBackendSock_conn, beginConnect_conn]
    · exact absurd h (not_or.mpr ⟨hzero, hprogress⟩)

/-- The slot that is released, if one is, and the calls of the health-checker thread until then. -/
theorem releaseSlot_congr {g : Frame} (hrouter : g.router = f.router) (hmarks : g.io.marks = f.io.marks)
    (haddr : g.conn.backendAddr = f.conn.backendAddr)
    (hnotified : g.conn.disconnectNotified = f.conn.disconnectNotified) :
    g.releaseSlot.router = f.releaseSlot.router ∧ g.releaseSlot.io.marks = f.releaseSlot.io.marks := by
  unfold Frame.releaseSlot
  rw [haddr]
  split
  · exact ⟨hrouter, hmarks⟩
  · rw [hnotified]
    split
    · exact ⟨hrouter, hmarks⟩
    · simp only [Frame.log, Frame.update, Frame.awaitLock, hrouter, hmarks, and_self]

/-- Whether the failure goes through does not depend on the state, the deadline and what is recorded. -/
theorem FailsCleanly.congr {g : Frame} (hrouter : g.router = f.router) (hmarks : g.io.marks = f.io.marks)
    (hconnect : g.io.connect = f.io.connect) (hsendall : g.io.sendall = f.io.sendall) {state : State}
    {gen : Nat} {deadline : Time}
    (hconn : g.conn = { f.conn with state := state, deadlineGen := gen, deadline := deadline })
    (h : FailsCleanly cfg f) : FailsCleanly cfg g := by
  obtain ⟨hslot, hwaiting⟩ := releaseSlot_congr hrouter hmarks (by rw [hconn]) (by rw [hconn])
  have hretry : retryBackend cfg g = retryBackend cfg f := by
    simp only [retryBackend, Frame.nextBackend, Frame.awaitLock, abandonBackend_conn, hconn]
    simp only [abandonBackend, noteTried_router, closeBackend_router, noteTried_io, closeBackend_io, hslot,
      hwaiting]
    rfl
  rw [FailsCleanly, hretry, hconnect, hsendall, hconn]
  exact h

theorem failBackend_handed (hsame : SameSocks f₀ f) (hclean : FailsCleanly cfg f) :
    (failBackend cfg f).Post (Handed f₀) fun _ => False := by
  have hpending : ∀ f', f'.conn.pendingBackendUnregister =
      (abandonBackend f).conn.pendingBackendUnregister → Handed f₀ f' := by
    intro f' hf'
    rw [abandonBackend_conn] at hf'
    cases hbackend : f₀.conn.backendSock with
    | none => exact Or.inl hbackend
    | some s =>
        refine Or.inr (Or.inr ?_)
        rw [hf', hsame.backend, hbackend]
        rfl
  have hconnect : (abandonBackend f).io.connect ((abandonBackend f).conn.backendAttempts + 1) =
      f.io.connect (f.conn.backendAttempts + 1) := by
    rw [abandonBackend_connect, backendAttempts_abandonBackend]
  have hsendall : (abandonBackend f).io.sendall = f.io.sendall := abandonBackend_sendall f
  rw [failBackend_eq]
  rw [FailsCleanly, retryBackend] at hclean
  generalize abandonBackend f = g at hclean hpending hconnect hsendall ⊢
  rw [← hconnect, ← hsendall] at hclean
  split
  · next hcan =>
    dsimp only at hclean ⊢
    rw [if_pos hcan] at hclean
    split
    · next backend hpicked =>
      rw [hpicked] at hclean
      refine (initiateBackendConnect_pending backend ?_).mono hpending fun _ h => h
      exact hclean
    · next hpicked =>
      rw [hpicked] at hclean
      refine (sendError_pending ?_).mono hpending fun _ h => h
      exact hclean
  · next hcan =>
    rw [if_neg hcan] at hclean
    exact (sendError_pending hclean).mono hpending fun _ h => h

/-- `Handed` when the call returns, and untouched sockets when it raises. -/
theorem forwardRequest_handed (hsame : SameSocks f₀ f)
    (hclean : f.io.send = .osError → FailsCleanly cfg f) :
    (forwardRequest cfg f).Post (Handed f₀) (SameSocks f₀) := by
  have hforwarded := fun accepted => hsame.trans (sameSocks_recordForwarded cfg accepted f)
  apply forwardRequest_post
  case blocked => exact fun _ => hsame.handed
  case broken =>
    exact fun hsend => (failBackend_handed hsame (hclean hsend)).mono (fun _ h => h) fun _ h => h.elim
  case raises => exact fun _ => hsame
  case sentAll => exact fun _ accepted _ _ _ => ((hforwarded accepted).trans (sameSocks_enter cfg _ _)).handed
  case sentSome => exact fun _ accepted _ _ _ => (hforwarded accepted).handed

theorem handleBackendWritable_handed (hguard : HandsOver cfg .backendWritable f) :
    (handleBackendWritable cfg f).Post (Handed f) (SameSocks f) := by
  have hsame : SameSocks f f := SameSocks.refl f
  apply handleBackendWritable_post
  case ignored => exact fun _ _ => hsame.handed
  case raises => exact fun _ _ => hsame
  case refused =>
    intro err hstate hanswer hne
    exact (failBackend_handed hsame (hguard (Or.inl ⟨hstate, err, hanswer, hne⟩))).mono
      (fun _ h => h) fun _ h => h.elim
  case connected =>
    intro hstate hanswer
    refine forwardRequest_handed (sameSocks_enter cfg _ f) fun hsend => ?_
    rw [refreshDeadline_send] at hsend
    have hclean := hguard (Or.inr ⟨Or.inr ⟨hstate, hanswer⟩, hsend⟩)
    refine FailsCleanly.congr (f := f) ?_ ?_ ?_ ?_ (refreshDeadline_conn _ _) hclean
    · rw [refreshDeadline_router]
      rfl
    · rw [refreshDeadline_marks]
      rfl
    · rw [refreshDeadline_connect]
      rfl
    · rw [refreshDeadline_sendall]
      rfl
  case forwarding =>
    exact fun hstate => forwardRequest_handed hsame fun hsend => hguard (Or.inr ⟨Or.inl hstate, hsend⟩)

theorem handleBackendReadable_handed (hguard : HandsOver cfg .backendReadable f) :
    (handleBackendReadable cfg f).Post (Handed f) (SameSocks f) := by
  have hsame : SameSocks f f := SameSocks.refl f
  have hlogged : ∀ bytes, SameSocks f (f.log (.backendReceived bytes)) := fun _ =>
    ⟨hsame.os, hsame.backend, hsame.pending⟩
  have hrelayed : ∀ {g}, SameSocks f g → Handed f (prepareRelay cfg g) := fun hg =>
    (hg.trans (sameSocks_prepareRelay cfg _)).handed
  apply handleBackendReadable_post
  case ignored => exact fun _ => hsame.handed
  case blocked => exact fun _ _ => hsame.handed
  case broken =>
    intro hstate hrecv
    exact (failBackend_handed hsame (hguard ⟨hstate, Or.inl hrecv⟩)).mono (fun _ h => h)
      fun _ h => h.elim
  case raises => exact fun _ _ => hsame
  case closed =>
    intro hstate hrecv
    apply backendClosed_post
    case cutOff =>
      intro hchunked hincomplete
      have hclean : FailsCleanly cfg (f.log (.backendReceived [])) :=
        FailsCleanly.congr (f := f) rfl rfl rfl rfl rfl
          (hguard ⟨hstate, Or.inr ⟨hrecv, hchunked, hincomplete⟩⟩)
      exact (failBackend_handed (hlogged []) hclean).mono (fun _ h => h) fun _ h => h.elim
    case relay => exact hrelayed (hlogged [])
  case received =>
    intro bytes _ _ _
    have hreceived := (hlogged bytes).trans (sameSocks_receiveResponse cfg bytes _)
    apply checkComplete_post
    case stay => exact fun _ => SameSocks.handed ⟨hreceived.os, hreceived.backend, hreceived.pending⟩
    case relay => exact fun _ _ _ => hrelayed ⟨hreceived.os, hreceived.backend, hreceived.pending⟩

/-- A call that meets `HandsOver`, on a connection that has no backend socket while it reads its
request. -/
theorem handle_handed (c : Call) (hidle : f.conn.state = .readingRequest → f.conn.backendSock = none)
    (hguard : HandsOver cfg c f) :
    (handle cfg c f).Post (Handed f) fun f' => f.conn.backendSock = none ∨ SameSocks f f' := by
  cases c with
  | timeout =>
      exact (handleTimeout_sameSocks f).mono (fun _ h => h.handed) fun _ h => Or.inr h
  | clientReadable =>
      by_cases hstate : f.conn.state = .readingRequest
      · exact post_of_forall (fun _ => Or.inl (hidle hstate)) (fun _ => Or.inl (hidle hstate)) _
      · rw [handle, handleClientReadable, if_pos hstate]
        exact (SameSocks.refl f).handed
  | clientWritable =>
      exact (handleClientWritable_sameSocks f).mono (fun _ h => h.handed) fun _ h => Or.inr h
  | backendReadable =>
      exact (handleBackendReadable_handed hguard).mono (fun _ h => h) fun _ h => Or.inr h
  | backendWritable =>
      exact (handleBackendWritable_handed hguard).mono (fun _ h => h) fun _ h => Or.inr h

end Operations

end LoadBalancer
