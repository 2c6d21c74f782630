import LoadBalancer.EndOfStream
import LoadBalancer.Registrations

/-! When the event loop goes on. Nothing catches what `_accept` raises, and it raises exactly when the number
of the new socket is still registered for a socket that has been closed. Apart from that a step has no
successor exactly where the scan of a chunked response never ends. -/

namespace LoadBalancer

open Outcome Selector

/-! ### Handlers -/

section Handlers

variable {cfg : Config} {f : Frame}

theorem handleTimeout_ends (f : Frame) : handleTimeout f ≠ .hung := by
  unfold handleTimeout
  split_ifs
  · exact nofun
  · exact sendError_ends 408 _ f
  · exact nofun
  · exact sendError_ends 504 _ f

theorem handleClientReadable_ends (cfg : Config) (f : Frame) : handleClientReadable cfg f ≠ .hung := by
  unfold handleClientReadable
  split
  · exact nofun
  · split
    · exact nofun
    · exact nofun
    · exact nofun
    · dsimp only
      split
      · exact nofun
      · split
        · exact sendError_ends 413 _ _
        · split
          · exact nofun
          · unfold routeRequest
            dsimp only
            split
            · exact sendError_ends 503 _ _
            · exact (failover_ends cfg).1 _ _

theorem handleClientWritable_ends (cfg : Config) (f : Frame) : handleClientWritable cfg f ≠ .hung := by
  unfold handleClientWritable
  split
  · exact nofun
  · split
    · exact nofun
    · exact nofun
    · exact nofun
    · dsimp only
      split <;> exact nofun

theorem forwardRequest_ends (cfg : Config) (f : Frame) : forwardRequest cfg f ≠ .hung := by
  unfold forwardRequest
  split
  · exact nofun
  · exact (failover_ends cfg).2 f
  · exact nofun
  · dsimp only
    split <;> exact nofun

theorem handleBackendWritable_ends (cfg : Config) (f : Frame) : handleBackendWritable cfg f ≠ .hung := by
  unfold handleBackendWritable
  split
  · split
    · exact nofun
    · split
      · exact (failover_ends cfg).2 f
      · exact forwardRequest_ends cfg _
  · exact forwardRequest_ends cfg f
  · exact nofun

/-- The connection reads bytes of a chunked response, and the scan of the body with them goes on for ever. -/
def ReadHangs (c : ProxyConnection) (recv : RecvResult) : Prop :=
  c.state = .readingResponse ∧ ∃ bytes, recv = .data bytes ∧ bytes ≠ [] ∧
    isChunkedResponse (c.responseBuf ++ bytes) = some true ∧
      tryConsumeChunkedBody (responseBody (c.responseBuf ++ bytes)) = none

/-- The end of a stream is handled without a scan that goes on for ever: a scan before it has ended. -/
theorem backendClosed_ends (hpending : IsPending f) :
    backendClosed cfg (f.log (.backendReceived [])) ≠ .hung := by
  by_cases hchunked : isChunkedResponse f.conn.responseBuf = some true
  · rw [backendClosed_chunked (f := f.log (.backendReceived [])) hpending hchunked]
    exact (failover_ends cfg).2 _
  · rw [backendClosed_plain (f := f.log (.backendReceived [])) hpending hchunked]
    exact nofun

theorem handleBackendReadable_hung_iff (hpending : f.conn.state = .readingResponse → IsPending f) :
    handleBackendReadable cfg f = .hung ↔ ReadHangs f.conn f.io.recv := by
  by_cases hstate : f.conn.state = .readingResponse
  swap
  · rw [handleBackendReadable, if_pos hstate]
    exact iff_of_false (by rintro ⟨⟩) fun h => hstate h.1
  · cases hrecv : f.io.recv with
    | data bytes =>
        by_cases hempty : bytes = []
        · subst hempty
          rw [handleBackendReadable_closed hstate hrecv]
          refine iff_of_false (backendClosed_ends (hpending hstate)) ?_
          rintro ⟨-, bytes, heq, hne, -⟩
          exact hne (RecvResult.data.inj heq).symm
        · have hframed : IsFramed (receiveResponse cfg bytes (f.log (.backendReceived bytes))) :=
            framed_receiveResponse (f := f.log (.backendReceived bytes)) (hpending hstate).toFramed bytes
          have hbuf : (receiveResponse cfg bytes (f.log (.backendReceived bytes))).conn.responseBuf =
              f.conn.responseBuf ++ bytes := by
            rw [receiveResponse_conn]
            rfl
          obtain ⟨received, heq⟩ := checkComplete_eq cfg hframed
          rw [hbuf] at heq
          have hread : ReadHangs f.conn (.data bytes) ↔ completion (f.conn.responseBuf ++ bytes) = none := by
            rw [completion_eq_none_iff]
            constructor
            · rintro ⟨-, bytes', heq, -, hscan⟩
              exact RecvResult.data.inj heq ▸ hscan
            · exact fun hscan => ⟨hstate, bytes, rfl, hempty, hscan⟩
          rw [hread, handleBackendReadable_data hstate hrecv hempty, heq]
          cases completion (f.conn.responseBuf ++ bytes) with
          | none => exact iff_of_true rfl rfl
          | some relayed => cases relayed <;> exact iff_of_false (by rintro ⟨⟩) (by rintro ⟨⟩)
    | blocked =>
        rw [handleBackendReadable, if_neg (not_not.mpr hstate), hrecv]
        exact iff_of_false (by rintro ⟨⟩) (by rintro ⟨-, -, ⟨⟩, -⟩)
    | osError =>
        rw [handleBackendReadable, if_neg (not_not.mpr hstate), hrecv]
        exact iff_of_false ((failover_ends cfg).2 f) (by rintro ⟨-, -, ⟨⟩, -⟩)
    | raises =>
        rw [handleBackendReadable, if_neg (not_not.mpr hstate), hrecv]
        exact iff_of_false (by rintro ⟨⟩) (by rintro ⟨-, -, ⟨⟩, -⟩)

/-- The scan is the only thing in a handler call that may not end. -/
theorem eq_backendReadable_of_handle {c : Call} (h : handle cfg c f = .hung) : c = .backendReadable := by
  cases c with
  | timeout => exact absurd h (handleTimeout_ends f)
  | clientReadable => exact absurd h (handleClientReadable_ends cfg f)
  | clientWritable => exact absurd h (handleClientWritable_ends cfg f)
  | backendReadable => rfl
  | backendWritable => exact absurd h (handleBackendWritable_ends cfg f)

end Handlers

namespace Reactor

variable {cfg : Config} {i : Nat} {r r' : Reactor} {t : Session}

/-! ### Dispatch -/

theorem withSelector_ends (op : Selector → Attempt) (r : Reactor) : r.withSelector op ≠ .hung := by
  unfold withSelector
  dsimp only
  split <;> exact nofun

theorem andThen_ends {σ : Type} {o : Outcome σ} {next : σ → Outcome σ} (ho : o ≠ .hung)
    (hnext : ∀ s, next s ≠ .hung) : o.andThen next ≠ .hung := by
  cases o with
  | returned s => exact hnext s
  | raised s => exact nofun
  | hung => exact absurd rfl ho

theorem flushPendingUnregister_ends (i : Nat) (r : Reactor) : r.flushPendingUnregister i ≠ .hung := by
  unfold flushPendingUnregister
  split
  · exact nofun
  · split
    · exact nofun
    · exact andThen_ends (withSelector_ends _ r) fun _ => withSelector_ends _ _

theorem transition_ends (i : Nat) (prev : State) (r : Reactor) : r.transition i prev ≠ .hung := by
  refine andThen_ends (flushPendingUnregister_ends i r) fun r => ?_
  split
  · exact nofun
  · split
    · exact nofun
    · exact withSelector_ends _ r

theorem hung_of_handleEvent (ht : r.fleet.sessions[i]? = some t) {enabled : Bool} {c : Call} {io : Io}
    (h : r.handleEvent cfg i enabled c io = .hung) :
    enabled = true ∧ handle cfg c (r.fleet.frame t io) = .hung := by
  unfold handleEvent at h
  rw [ht] at h
  cases enabled with
  | false => cases h
  | true =>
      refine ⟨rfl, ?_⟩
      dsimp only at h
      rw [if_pos rfl, Fleet.call_eq_of_getElem? ht] at h
      cases hhandle : handle cfg c (r.fleet.frame t io) with
      | hung => rfl
      | raised f =>
          rw [hhandle] at h
          cases h
      | returned f =>
          rw [hhandle] at h
          exact absurd h (transition_ends i _ _)

theorem handleEvent_hung (ht : r.fleet.sessions[i]? = some t) {enabled : Bool} (henabled : enabled = true)
    {c : Call} {io : Io} (h : handle cfg c (r.fleet.frame t io) = .hung) :
    r.handleEvent cfg i enabled c io = .hung := by
  rw [handleEvent, ht, henabled]
  dsimp only
  rw [if_pos rfl, Fleet.call_eq_of_getElem? ht, h]
  rfl

/-- No handler takes a connection out of the fleet. -/
theorem session_of_handleEvent (ht : r.fleet.sessions[i]? = some t) (enabled : Bool) (c : Call) (io : Io)
    (h : r.handleEvent cfg i enabled c io = .returned r') : ∃ t', r'.fleet.sessions[i]? = some t' := by
  have hmaintains : Maintains cfg i (Acts Advances i r) (Acts Advances i r) :=
    maintains_acts (fun _ _ h => ⟨h.toLater, h.done⟩) (fun _ c _ h => handle_advances _ c h) r
  have hacts := hmaintains.handleEvent (Acts.refl Advances.refl r) enabled c io
  rw [h] at hacts
  obtain ⟨t', ht', -⟩ := Acts.session_after hacts Advances.refl ht
  exact ⟨t', ht'⟩

/-- A branch of the dispatch that is disabled does nothing. -/
theorem handleEvent_disabled (ht : r.fleet.sessions[i]? = some t) (c : Call) (io : Io) :
    r.handleEvent cfg i false c io = .returned r := by
  rw [handleEvent, ht]
  rfl

theorem handleEvent_ends (ht : r.fleet.sessions[i]? = some t) (enabled : Bool) {c : Call}
    (hc : c ≠ .backendReadable) (io : Io) : r.handleEvent cfg i enabled c io ≠ .hung := fun h =>
  hc (eq_backendReadable_of_handle (hung_of_handleEvent ht h).2)

/-- A dispatch never ends exactly if it reads from the backend and that does not end. -/
theorem dispatch_hung_iff (ht : r.fleet.sessions[i]? = some t)
    (hapart : t.conn.backendSock ≠ some t.conn.clientSock) {sock : Sock} {mask : Mask} {io : Call → Io} :
    r.dispatch cfg i sock mask io = .hung ↔ t.conn.backendSock = some sock ∧ mask.read = true ∧
      handle cfg .backendReadable (r.fleet.frame t (io .backendReadable)) = .hung := by
  have hbranches : r.dispatch cfg i sock mask io = .hung ↔ runBranches cfg i io
      (branches (sock = t.conn.clientSock) (t.conn.backendSock = some sock) mask) r = .hung := by
    rw [dispatch, ht]
    dsimp only
    constructor
    · intro h
      by_contra hends
      have hflushed := andThen_ends hends (flushPendingUnregister_ends i)
      refine andThen_ends hflushed (fun r hhung => ?_) h
      cases hhung
    · intro h
      rw [h]
      rfl
  rw [hbranches]
  by_cases hclient : sock = t.conn.clientSock
  · -- the branches of the client socket, of which no handler can hang
    have hbackend : t.conn.backendSock ≠ some sock := hclient ▸ hapart
    rw [branches, decide_eq_true hclient, decide_eq_false hbackend]
    simp only [runBranches, Bool.true_and, Bool.false_and]
    refine iff_of_false ?_ fun h => hbackend h.1
    cases hread : r.handleEvent cfg i mask.read .clientReadable (io .clientReadable) with
    | hung => exact absurd hread (handleEvent_ends ht _ (by decide) _)
    | raised r₁ => exact fun hhung => by cases hhung
    | returned r₁ =>
        obtain ⟨t₁, ht₁⟩ := session_of_handleEvent ht _ _ _ hread
        dsimp only [Outcome.andThen]
        cases hwrite : r₁.handleEvent cfg i mask.write .clientWritable (io .clientWritable) with
        | hung => exact absurd hwrite (handleEvent_ends ht₁ _ (by decide) _)
        | raised r₂ => exact fun hhung => by cases hhung
        | returned r₂ =>
            obtain ⟨t₂, ht₂⟩ := session_of_handleEvent ht₁ _ _ _ hwrite
            simp [handleEvent_disabled ht₂]
  · rw [branches, decide_eq_false hclient]
    simp only [runBranches, Bool.false_and, handleEvent_disabled ht, Outcome.andThen]
    cases hread : r.handleEvent cfg i (decide (t.conn.backendSock = some sock) && mask.read) .backendReadable
        (io .backendReadable) with
    | hung =>
        obtain ⟨henabled, hhung⟩ := hung_of_handleEvent ht hread
        obtain ⟨hbackend, hmask⟩ := Bool.and_eq_true_iff.mp henabled
        exact iff_of_true rfl ⟨of_decide_eq_true hbackend, hmask, hhung⟩
    | raised r₁ =>
        refine iff_of_false (by rintro ⟨⟩) ?_
        rintro ⟨hbackend, hmask, hhung⟩
        rw [handleEvent_hung ht (by rw [decide_eq_true hbackend, hmask]; rfl) hhung] at hread
        cases hread
    | returned r₁ =>
        obtain ⟨t₁, ht₁⟩ := session_of_handleEvent ht _ _ _ hread
        refine iff_of_false ?_ ?_
        · dsimp only
          cases hwrite : r₁.handleEvent cfg i (decide (t.conn.backendSock = some sock) && mask.write)
              .backendWritable (io .backendWritable) with
          | hung => exact absurd hwrite (handleEvent_ends ht₁ _ (by decide) _)
          | raised r₂ => exact fun hhung => by cases hhung
          | returned r₂ => exact fun hhung => by cases hhung
        · rintro ⟨hbackend, hmask, hhung⟩
          rw [handleEvent_hung ht (by rw [decide_eq_true hbackend, hmask]; rfl) hhung] at hread
          cases hread

/-! ### Timeouts -/

theorem expireEntry_goes_on (cfg : Config) (r : Reactor) (now : Time) (io : Nat → Io) (e : Deadline) :
    ∃ r', r.expireEntry cfg now io e = some r' := by
  unfold expireEntry
  cases hvalid : r.validEntry? e with
  | none => exact ⟨r, rfl⟩
  | some valid =>
      obtain ⟨i, t⟩ := valid
      obtain ⟨-, ht, -, -⟩ := validEntry?_eq_some_iff.mp hvalid
      suffices h : ∃ fleet, r.fleet.step cfg (.call i .timeout (io i)) = some fleet by
        obtain ⟨fleet, hfleet⟩ := h
        exact ⟨_, Option.map_eq_some_iff.mpr ⟨fleet, hfleet, rfl⟩⟩
      rw [Fleet.step, Fleet.call_eq_of_getElem? ht]
      cases hhandle : handle cfg .timeout (r.fleet.frame t (io i)) with
      | hung => exact absurd hhandle (handleTimeout_ends _)
      | raised f => exact ⟨_, rfl⟩
      | returned f => exact ⟨_, rfl⟩

theorem foldlM_goes_on (cfg : Config) (now : Time) (io : Nat → Io) (popped : List Deadline) (r : Reactor) :
    ∃ r', popped.foldlM (expireEntry cfg now io) r = some r' := by
  induction popped generalizing r with
  | nil => exact ⟨r, rfl⟩
  | cons e rest ih =>
      obtain ⟨r₁, hfirst⟩ := expireEntry_goes_on cfg r now io e
      obtain ⟨r', hrest⟩ := ih r₁
      exact ⟨r', by rw [List.foldlM_cons, hfirst]; exact hrest⟩

/-! ### Accept -/

/-- `accept` raises if the number of the new socket has a key. -/
theorem accept_eq_none_iff (hcons : r.selector.Consistent) {fd : Nat} {addr : Bytes × Nat}
    {clock : List Time} {connId : Nat} (hfresh : connId ∉ r.aliveIds) :
    r.accept cfg fd addr clock connId = none ↔ (r.fdToKey.get? (r.fleet.os.newSock fd).fd).isSome = true := by
  have hopen : r.fleet.os.newSock fd ∈ (r.fleet.os.openSock fd).opened := List.mem_cons_self
  have hopened : Selector.Consistent ⟨r.fleet.os.openSock fd, r.fdToKey⟩ :=
    hcons.evolves (evolves_openSock r.fleet.os fd)
  cases hkey : r.fdToKey.get? (r.fleet.os.newSock fd).fd with
  | none =>
      obtain ⟨sel, hregister⟩ : ∃ sel : Selector,
          Selector.register (r.fleet.os.newSock fd) eventRead (some r.fleet.sessions.length)
            ⟨r.fleet.os.openSock fd, r.fdToKey⟩ = sel.pass :=
        (register_of_free hopened hopen hkey).imp fun _ => And.left
      have hsome : (r.accept cfg fd addr clock connId).isSome = true := by
        unfold accept
        rw [if_neg hfresh]
        simp only [withSelector, selector, Fleet.accept, hregister, Selector.pass]
        rfl
      simp [Option.eq_none_iff_forall_ne_some, Option.isSome_iff_exists.mp hsome]
  | some key =>
      have hregister : Selector.register (r.fleet.os.newSock fd) eventRead (some r.fleet.sessions.length)
          ⟨r.fleet.os.openSock fd, r.fdToKey⟩ =
            Selector.raise .keyError ⟨r.fleet.os.openSock fd, r.fdToKey⟩ := by
        have hlookup : Selector.fileobjLookup ⟨r.fleet.os.openSock fd, r.fdToKey⟩ (r.fleet.os.newSock fd) =
            some (r.fleet.os.newSock fd).fd := if_pos hopen
        rw [register, hlookup]
        simp [hkey]
      unfold accept
      rw [if_neg hfresh]
      simp only [withSelector, selector, Fleet.accept, hregister, Selector.raise]
      simp

/-- The number that a new socket gets is that of a socket which has been closed and is still registered. -/
def TakesStale (r : Reactor) (fd : Nat) : Prop :=
  ∃ s, r.selector.Registered s ∧ s ∉ r.fleet.os.opened ∧ s.fd = (r.fleet.os.newSock fd).fd

theorem accept_eq_none_iff_stale (hcons : r.selector.Consistent) {fd : Nat} {addr : Bytes × Nat}
    {clock : List Time} {connId : Nat} (hfresh : connId ∉ r.aliveIds) :
    r.accept cfg fd addr clock connId = none ↔ r.TakesStale fd := by
  rw [accept_eq_none_iff hcons hfresh, Option.isSome_iff_exists]
  constructor
  · rintro ⟨key, hkey⟩
    have hfd : key.fileobj.fd = (r.fleet.os.newSock fd).fd := FdToKey.fd_of_get? hkey
    refine ⟨key.fileobj, FdToKey.registered_of_get? hkey, fun hopen => ?_, hfd⟩
    exact r.fleet.os.allocate_not_mem fd (List.mem_map.mpr ⟨key.fileobj, hopen, hfd⟩)
  · rintro ⟨s, ⟨key, hkey, -⟩, -, hfd⟩
    exact ⟨key, hfd ▸ hkey⟩

/-- **What ends the loop.** A connection that the listener has ready makes `_accept` raise, and so ends the
event loop, exactly when the number that its socket gets is that of a socket which has been closed and is
still registered. -/
theorem accept_raises_iff {router : Router} {fd₀ : Nat} {events : List Event}
    (hrun : Machine.run (step cfg) (init router fd₀) events = some r) {connId : Nat}
    (hfresh : connId ∉ r.aliveIds) (fd : Nat) (addr : Bytes × Nat) (clock : List Time) :
    r.step cfg (.accept fd addr clock connId) = none ↔ ∃ s, r.selector.Registered s ∧
      s ∉ r.fleet.os.opened ∧ s.fd = (r.fleet.os.newSock fd).fd :=
  accept_eq_none_iff_stale (wiring_of_run hrun).consistent hfresh

/-- The next client gets the number of the socket that two failures in a row have left registered. -/
theorem accept_raises_iff_refusedTwice : ∃ r,
    Machine.run (step .default) (init Fleet.twoBackends 3) refusedTwice = some r ∧
    r.step .default (.accept 9 (PyText.ascii "10.0.0.2", 50001) [] 6) = none := by
  obtain ⟨r, hrun, hview⟩ := Option.map_eq_some_iff.mp (show
    (Machine.run (step .default) (init Fleet.twoBackends 3) refusedTwice).map (fun r =>
      (r.fdToKey.get? 9, decide ((⟨2, 9⟩ : Sock) ∈ r.fleet.os.opened), (r.fleet.os.newSock 9).fd,
        decide (6 ∈ r.aliveIds))) = some (some ⟨⟨2, 9⟩, eventWrite, some 0⟩, false, 9, false) by
      decide +kernel)
  obtain ⟨hkey, hclosed, hfd, hfresh⟩ : r.fdToKey.get? 9 = some ⟨⟨2, 9⟩, eventWrite, some 0⟩ ∧
      decide ((⟨2, 9⟩ : Sock) ∈ r.fleet.os.opened) = false ∧ (r.fleet.os.newSock 9).fd = 9 ∧
      decide (6 ∈ r.aliveIds) = false := by
    simpa only [Prod.mk.injEq] using hview
  refine ⟨r, hrun, (accept_raises_iff hrun (of_decide_eq_false hfresh) 9 _ _).mpr ?_⟩
  exact ⟨⟨2, 9⟩, ⟨_, hkey, rfl⟩, of_decide_eq_false hclosed, hfd.symm⟩

/-! ### Progress -/

/-- What the interpreter and the selector see to: a new object has an `id()` of its own, and a key names a
connection. -/
def Enabled (r : Reactor) : Event → Prop
  | .accept _ _ _ connId => connId ∉ r.aliveIds
  | .dispatch i _ _ _ => ∃ t, r.fleet.sessions[i]? = some t
  | _ => True

/-- A client is accepted on a number that is still registered. -/
def Stale (r : Reactor) : Event → Prop
  | .accept fd _ _ _ => r.TakesStale fd
  | _ => False

/-- The event makes the connection read what its scanner never gets to the end of. -/
def Hangs (r : Reactor) : Event → Prop
  | .dispatch i sock mask io => ∃ t, r.fleet.sessions[i]? = some t ∧ t.conn.backendSock = some sock ∧
      mask.read = true ∧ ReadHangs t.conn (io .backendReadable).recv
  | _ => False

theorem exists_of_dispatch_ends {sock : Sock} {mask : Mask} {io : Call → Io}
    (h : r.dispatch cfg i sock mask io ≠ .hung) : ∃ r', r.step cfg (.dispatch i sock mask io) = some r' := by
  rw [step]
  cases hdispatch : r.dispatch cfg i sock mask io with
  | returned r' => exact ⟨r', rfl⟩
  | raised r' => exact ⟨_, rfl⟩
  | hung => exact absurd hdispatch h

/-- **Progress.** In every state that the loop can reach, it goes on with whatever comes next, unless a client
is accepted on a number that is still registered, or the scan of a chunked response never ends. -/
theorem loop_goes_on {router : Router} {fd : Nat} {events : List Event}
    (hrun : Machine.run (step cfg) (init router fd) events = some r) {e : Event} (henabled : r.Enabled e) :
    (∃ r', r.step cfg e = some r') ↔ ¬ r.Stale e ∧ ¬ r.Hangs e := by
  have hwiring := wiring_of_run hrun
  cases e with
  | selectTimeout reading => exact iff_of_true ⟨_, rfl⟩ ⟨id, id⟩
  | reap => exact iff_of_true ⟨_, rfl⟩ ⟨id, id⟩
  | mark m => exact iff_of_true ⟨_, rfl⟩ ⟨id, id⟩
  | expireTimeouts reading io => exact iff_of_true (foldlM_goes_on cfg _ io _ _) ⟨id, id⟩
  | accept fd' addr clock connId =>
      have hstale : r.accept cfg fd' addr clock connId = none ↔ r.TakesStale fd' :=
        accept_eq_none_iff_stale hwiring.consistent henabled
      change (∃ r', r.accept cfg fd' addr clock connId = some r') ↔ ¬ r.TakesStale fd' ∧ ¬ False
      rw [← hstale, ← Option.ne_none_iff_exists']
      exact (and_iff_left id).symm
  | dispatch i sock mask io =>
      obtain ⟨t, ht⟩ := henabled
      obtain ⟨events', hfleet⟩ := fleet_of_run hrun
      have hpending : t.conn.state = .readingResponse →
          IsPending (r.fleet.frame t (io .backendReadable)) := fun hstate =>
        Fleet.pending_of_run hfleet (List.mem_of_getElem? ht) (by rw [hstate]; exact nofun)
          (by rw [hstate]; exact nofun)
      have hhangs : r.dispatch cfg i sock mask io = .hung ↔ r.Hangs (.dispatch i sock mask io) := by
        rw [dispatch_hung_iff ht (hwiring.apart i t ht).1, handle, handleBackendReadable_hung_iff hpending]
        constructor
        · exact fun h => ⟨t, ht, h⟩
        · rintro ⟨t', ht', h⟩
          exact Option.some.inj (ht'.symm.trans ht) ▸ h
      rw [← hhangs]
      constructor
      · rintro ⟨r', hstep⟩
        refine ⟨id, fun hhung => ?_⟩
        rw [step, hhung] at hstep
        cases hstep
      · exact fun h => exists_of_dispatch_ends h.2

/-- Two failures in a row have left a key behind; what is dispatched next is dispatched all the same. -/
theorem loop_goes_on_refusedTwice : ∃ r r',
    Machine.run (step .default) (init Fleet.twoBackends 3) refusedTwice = some r ∧
    r.step .default (.dispatch 0 ⟨1, 7⟩ eventWrite fun _ => Fleet.quiet) = some r' := by
  obtain ⟨r, hrun, hview⟩ := Option.map_eq_some_iff.mp (show
    (Machine.run (step .default) (init Fleet.twoBackends 3) refusedTwice).map
      (fun r => (r.fleet.sessions[0]?).map fun t => t.conn.backendSock) = some (some none) by decide +kernel)
  obtain ⟨t, ht, hsock⟩ := Option.map_eq_some_iff.mp hview
  obtain ⟨r', hstep⟩ := (loop_goes_on (e := .dispatch 0 ⟨1, 7⟩ eventWrite fun _ => Fleet.quiet) hrun
    ⟨t, ht⟩).mpr ⟨id, fun ⟨t', ht', hsock', hread, _⟩ => by cases hread⟩
  exact ⟨r, r', hrun, hstep⟩

end Reactor

end LoadBalancer
