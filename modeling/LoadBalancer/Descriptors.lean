import LoadBalancer.Registrations

/-! Which sockets are open: after every step of the event loop, the listener and the current sockets of
the connections that `_reap` has not removed, and no others. After `_reap` the connections that are not
`DONE` are the ones left, and after `_shutdown` nothing is open. -/

namespace LoadBalancer

open Outcome Selector

/-! ### One handler call -/

section Handlers

variable {cfg : Config} {f₀ f : Frame} {ret exc : Frame → Prop}

/-- A handler call leaves the sockets alone, unless it starts a connect or meets a failure of the backend;
it does so after steps that leave them alone. -/
theorem handle_post_of_socks (c : Call) (f : Frame) (same : ∀ g, SameSocks f g → ret g)
    (raises : ∀ g, SameSocks f g → exc g)
    (fails : ∀ g, SameSocks f g → (failBackend cfg g).Post ret exc)
    (routes : ∀ b g, f.conn.state = .readingRequest → SameSocks f g →
      (initiateBackendConnect cfg b g).Post ret exc) :
    (handle cfg c f).Post ret exc := by
  have hrefl : SameSocks f f := SameSocks.refl f
  have hquiet : ∀ {o : Outcome Frame} {g : Frame}, SameSocks f g → o.Post (SameSocks g) (SameSocks g) →
      o.Post ret exc := fun hg ho =>
    ho.mono (fun _ h => same _ (hg.trans h)) fun _ h => raises _ (hg.trans h)
  have hforward : ∀ {g : Frame}, SameSocks f g → (forwardRequest cfg g).Post ret exc := by
    intro g hg
    have hforwarded := fun accepted => hg.trans (sameSocks_recordForwarded cfg accepted g)
    apply forwardRequest_post
    case blocked => exact fun _ => same g hg
    case broken => exact fun _ => fails g hg
    case raises => exact fun _ => raises g hg
    case sentAll => exact fun _ accepted _ _ _ => same _ ((hforwarded accepted).trans (sameSocks_enter cfg _ _))
    case sentSome => exact fun _ accepted _ _ _ => same _ (hforwarded accepted)
  cases c with
  | timeout => exact hquiet hrefl (handleTimeout_sameSocks f)
  | clientWritable => exact hquiet hrefl (handleClientWritable_sameSocks f)
  | clientReadable =>
      have hreceived : ∀ bytes, SameSocks f (receiveRequest cfg bytes f) := by
        intro bytes
        have hrefreshed := sameSocks_refreshDeadline cfg
          (f.update fun c => { c with requestBuf := c.requestBuf ++ bytes })
        exact ⟨hrefreshed.os, hrefreshed.backend, hrefreshed.pending⟩
      apply handleClientReadable_post
      case ignored => exact fun _ => same f hrefl
      case blocked => exact fun _ _ => same f hrefl
      case gone => exact fun _ _ => same _ ⟨rfl, rfl, rfl⟩
      case raises => exact fun _ _ => raises f hrefl
      case tooLarge => exact fun bytes _ _ _ _ => hquiet (hreceived bytes) (sendError_sameSocks 413 _ _)
      case incomplete => exact fun bytes _ _ _ _ => same _ (hreceived bytes)
      case complete =>
        intro bytes req hreading _ _ _
        have hstored : SameSocks f ((storeRequest req (receiveRequest cfg bytes f)).nextBackend none).2 :=
          ⟨(hreceived bytes).os, (hreceived bytes).backend, (hreceived bytes).pending⟩
        apply routeRequest_post
        case unavailable => exact fun _ => hquiet hstored (sendError_sameSocks 503 _ _)
        case routed =>
          exact fun backend _ => routes backend _ hreading ⟨hstored.os, hstored.backend, hstored.pending⟩
  | backendWritable =>
      apply handleBackendWritable_post
      case ignored => exact fun _ _ => same f hrefl
      case raises => exact fun _ _ => raises f hrefl
      case refused => exact fun _ _ _ _ => fails f hrefl
      case connected => exact fun _ _ => hforward (sameSocks_enter cfg _ f)
      case forwarding => exact fun _ => hforward hrefl
  | backendReadable =>
      have hlogged : ∀ bytes, SameSocks f (f.log (.backendReceived bytes)) := fun _ => ⟨rfl, rfl, rfl⟩
      apply handleBackendReadable_post
      case ignored => exact fun _ => same f hrefl
      case blocked => exact fun _ _ => same f hrefl
      case broken => exact fun _ _ => fails f hrefl
      case raises => exact fun _ _ => raises f hrefl
      case closed =>
        intro _ _
        apply backendClosed_post
        case cutOff => exact fun _ _ => fails _ (hlogged [])
        case relay => exact same _ ((hlogged []).trans (sameSocks_prepareRelay cfg _))
      case received =>
        intro bytes _ _ _
        have hreceived : SameSocks f (receiveResponse cfg bytes (f.log (.backendReceived bytes))) :=
          (hlogged bytes).trans (sameSocks_receiveResponse cfg bytes _)
        apply checkComplete_post
        case stay => exact fun _ => same _ ⟨hreceived.os, hreceived.backend, hreceived.pending⟩
        case relay =>
          intro received buf _
          have hcut : SameSocks f ((receiveResponse cfg bytes (f.log (.backendReceived bytes))).update fun c =>
              { c with responseBodyReceived := received, responseBuf := buf }) :=
            ⟨hreceived.os, hreceived.backend, hreceived.pending⟩
          exact same _ (hcut.trans (sameSocks_prepareRelay cfg _))

/-- Of the sockets that are not those of `f₀`, the backend socket of the connection is the only one open;
those of `f₀` stay open, the backend socket that has been given up excepted. -/
structure Tidy (f₀ f : Frame) : Prop where
  opened : ∀ s, s ∈ f.os.opened ↔
    f.conn.backendSock = some s ∨ (s ∈ f₀.os.opened ∧ f₀.conn.backendSock ≠ some s)
  fresh : ∀ s, f.conn.backendSock = some s → f₀.conn.backendSock = some s ∨ f₀.os.nextRef ≤ s.ref
  next : f₀.os.nextRef ≤ f.os.nextRef

theorem Tidy.refl (f : Frame) (hlive : ∀ s, f.conn.backendSock = some s → s ∈ f.os.opened) : Tidy f f := by
  refine ⟨fun s => ⟨fun hs => ?_, fun hs => ?_⟩, fun s hs => Or.inl hs, le_rfl⟩
  · by_cases hmine : f.conn.backendSock = some s
    · exact Or.inl hmine
    · exact Or.inr ⟨hs, hmine⟩
  · exact hs.elim (hlive s) And.left

theorem Tidy.of_same {f' : Frame} (h : Tidy f₀ f) (hsame : SameSocks f f') : Tidy f₀ f' := by
  refine ⟨?_, ?_, ?_⟩
  · rw [hsame.os, hsame.backend]
    exact h.opened
  · rw [hsame.backend]
    exact h.fresh
  · rw [hsame.os]
    exact h.next

theorem Tidy.openBackendSock (h : Tidy f₀ f) (hnone : f.conn.backendSock = none) (backend : Backend)
    (fd : Nat) : Tidy f₀ (openBackendSock backend fd f) where
  opened := by
    intro s
    have hopened := h.opened s
    simp only [hnone, reduceCtorEq, false_or] at hopened
    have hnew : s ∈ f.os.newSock fd :: f.os.opened ↔ f.os.newSock fd = s ∨ s ∈ f.os.opened := by
      rw [List.mem_cons, eq_comm]
    exact hnew.trans (or_congr (Option.some.injEq _ _).symm.to_iff hopened)
  fresh := by
    rintro s ⟨rfl⟩
    exact Or.inr h.next
  next := Nat.le_succ_of_le h.next

theorem Tidy.closeBackend (h : Tidy f₀ f) : Tidy f₀ (closeBackend f) := by
  unfold LoadBalancer.closeBackend
  split
  · exact h
  · next old hold =>
    refine ⟨fun s => ?_, by rintro s ⟨⟩, ?_⟩
    · -- the socket given up is the one of `f₀` or a later one
      have hother : s ∈ f₀.os.opened ∧ f₀.conn.backendSock ≠ some s → s ≠ old := by
        rintro ⟨hopen, hne⟩ rfl
        rcases h.fresh s hold with hsame | hnew
        · exact hne hsame
        · exact absurd (f₀.os.fresh s hopen) (Nat.not_lt.mpr hnew)
      rw [update_os, Os.mem_opened_close, h.opened s, hold]
      constructor
      · rintro ⟨hs | hs, hne⟩
        · exact absurd (Option.some.inj hs).symm hne
        · exact Or.inr hs
      · rintro (hs | hs)
        · cases hs
        · exact ⟨Or.inr hs, hother hs⟩
    · rw [update_os, Os.nextRef_close]
      exact h.next

theorem Tidy.abandonBackend (h : Tidy f₀ f) : Tidy f₀ (abandonBackend f) := by
  refine (h.of_same (sameSocks_releaseSlot f)).closeBackend.of_same ⟨?_, ?_, ?_⟩
  · rw [LoadBalancer.abandonBackend, noteTried_os]
  · rw [LoadBalancer.abandonBackend, noteTried_conn]
  · rw [LoadBalancer.abandonBackend, noteTried_conn]

theorem failover_tidy (cfg : Config) (f₀ : Frame) :
    (∀ b f, Tidy f₀ f ∧ f.conn.backendSock = none →
        (initiateBackendConnect cfg b f).Post (Tidy f₀) (Tidy f₀)) ∧
      ∀ f, Tidy f₀ f → (failBackend cfg f).Post (Tidy f₀) (Tidy f₀) := by
  have hopen : ∀ {f}, Tidy f₀ f ∧ f.conn.backendSock = none → ∀ b fd,
      Tidy f₀ (openBackendSock b fd (beginConnect cfg f)) := by
    rintro f ⟨h, hnone⟩ b fd
    refine (h.of_same (sameSocks_enter cfg _ _)).openBackendSock ?_ b fd
    rw [refreshDeadline_conn]
    exact hnone
  apply failover_post
  case noSocket => exact fun b f h _ => h.1.of_same (sameSocks_enter cfg _ _)
  case raises => exact fun b f fd h _ => hopen h b fd
  case connected => exact fun b f fd h _ => (hopen h b fd).of_same (sameSocks_enter cfg _ _)
  case inProgress => exact fun b f fd err h _ _ => hopen h b fd
  case refused => exact fun b f fd err h _ _ _ => hopen h b fd
  case retry =>
    intro b f h _ picked _
    have hpicked : SameSocks (abandonBackend f) picked.2 := ⟨rfl, rfl, rfl⟩
    refine ⟨(h.abandonBackend.of_same hpicked).of_same ⟨rfl, rfl, rfl⟩, ?_⟩
    rw [resetForRetry, update_conn, nextBackend_conn, abandonBackend_conn]
  case giveUp =>
    intro f f' h hf'
    have hgivenUp : Tidy f₀ f' := by
      rcases hf' with rfl | ⟨-, rfl⟩
      · exact h.abandonBackend
      · exact h.abandonBackend.of_same ⟨rfl, rfl, rfl⟩
    exact (sendError_sameSocks 502 _ f').mono (fun _ hf => hgivenUp.of_same hf) fun _ hf =>
      hgivenUp.of_same hf

/-- A call keeps its sockets tidy: no socket that it opens and gives up stays open. -/
theorem handle_tidy (c : Call) (hidle : f.conn.state = .readingRequest → f.conn.backendSock = none)
    (hlive : ∀ s, f.conn.backendSock = some s → s ∈ f.os.opened) :
    (handle cfg c f).Post (Tidy f) (Tidy f) := by
  have htidy := Tidy.refl f hlive
  apply handle_post_of_socks
  case same => exact fun _ hg => htidy.of_same hg
  case raises => exact fun _ hg => htidy.of_same hg
  case fails => exact fun g hg => (failover_tidy cfg f).2 g (htidy.of_same hg)
  case routes =>
    exact fun b g hreading hg =>
      (failover_tidy cfg f).1 b g ⟨htidy.of_same hg, hg.backend.trans (hidle hreading)⟩

end Handlers

namespace Reactor

variable {cfg : Config} {i : Nat} {r r' : Reactor}

/-! ### The invariant -/

/-- The socket is a current one of a connection that has not been reaped. -/
def Holds (r : Reactor) (s : Sock) : Prop :=
  ∃ (i cid : Nat) (t : Session), r.handles[i]? = some ⟨cid, false⟩ ∧ r.fleet.sessions[i]? = some t ∧
    s ∈ currentSocks t.conn

structure Tracked (r : Reactor) : Prop where
  opened : ∀ s, s ∈ r.fleet.os.opened ↔ s = r.serverSock ∨ r.Holds s
  listed : ∀ (i cid : Nat) (t : Session), r.handles[i]? = some ⟨cid, false⟩ →
    r.fleet.sessions[i]? = some t → r.connections.get? t.conn.clientSock.fd = some i
  server : ∀ (i : Nat) (t : Session), r.fleet.sessions[i]? = some t → ¬ t.conn.Owns r.serverSock

theorem Tracked.server_opened (h : Tracked r) : r.serverSock ∈ r.fleet.os.opened :=
  (h.opened r.serverSock).mpr (Or.inl rfl)

theorem owns_of_mem_currentSocks {c : ProxyConnection} {s : Sock} (hs : s ∈ currentSocks c) : c.Owns s :=
  mem_cleanup.mp (List.mem_append_left _ hs)

/-- A change of connection `i` that leaves its current sockets in place. -/
theorem Tracked.modify (h : Tracked r) (i : Nat) (change : Session → Session)
    (hsocks : ∀ t, currentSocks (change t).conn = currentSocks t.conn)
    (howns : ∀ t s, (change t).conn.Owns s → t.conn.Owns s) {os : Os} {fdToKey : FdToKey}
    (hopened : os.opened = r.fleet.os.opened) :
    Tracked { r with
      fleet := { r.fleet with os := os, sessions := r.fleet.sessions.modify i change }
      fdToKey := fdToKey } := by
  have hbefore : ∀ {j : Nat} {t' : Session}, (r.fleet.sessions.modify i change)[j]? = some t' →
      ∃ t, r.fleet.sessions[j]? = some t ∧ currentSocks t'.conn = currentSocks t.conn ∧
        ∀ s, t'.conn.Owns s → t.conn.Owns s := by
    intro j t' ht'
    rw [List.getElem?_modify, Option.map_eq_map, Option.map_eq_some_iff] at ht'
    obtain ⟨t, ht, rfl⟩ := ht'
    refine ⟨t, ht, ?_⟩
    split
    · exact ⟨hsocks t, howns t⟩
    · exact ⟨rfl, fun s hs => hs⟩
  have hafter : ∀ {j : Nat} {t : Session}, r.fleet.sessions[j]? = some t →
      ∃ t', (r.fleet.sessions.modify i change)[j]? = some t' ∧ currentSocks t'.conn = currentSocks t.conn := by
    intro j t ht
    refine ⟨_, Fleet.getElem?_modify_of_some ht change, ?_⟩
    split
    · exact hsocks t
    · rfl
  refine ⟨fun s => ?_, fun j cid t' hj ht' => ?_, fun j t' ht' hs => ?_⟩
  · rw [hopened, h.opened s]
    refine or_congr_right ⟨?_, ?_⟩
    · rintro ⟨j, cid, t, hj, ht, hs⟩
      obtain ⟨t', ht', hsame⟩ := hafter ht
      exact ⟨j, cid, t', hj, ht', hsame ▸ hs⟩
    · rintro ⟨j, cid, t', hj, ht', hs⟩
      obtain ⟨t, ht, hsame, -⟩ := hbefore ht'
      exact ⟨j, cid, t, hj, ht, hsame ▸ hs⟩
  · obtain ⟨t, ht, hsame, -⟩ := hbefore ht'
    have hclient : t'.conn.clientSock = t.conn.clientSock := (List.cons.inj hsame).1
    rw [hclient]
    exact h.listed j cid t hj ht
  · obtain ⟨t, ht, -, hown⟩ := hbefore ht'
    exact h.server j t ht (hown _ hs)

theorem Tracked.markDone (h : Tracked r) (i : Nat) : Tracked (r.markDone i) :=
  h.modify i Session.markDone (fun _ => rfl) (fun _ _ hs => hs) rfl

theorem Tracked.scheduleDeadline (h : Tracked r) (i : Nat) : Tracked (r.scheduleDeadline i) := by
  unfold Reactor.scheduleDeadline
  split
  · split
    · exact h
    · exact ⟨h.opened, h.listed, h.server⟩
  · exact h

/-! ### Dispatch -/

section Dispatch

variable {t : Session}

theorem Tracked.rewire (h : Tracked r) {attempt : Attempt} {S : Sock → Prop} {data : Option Nat}
    (htouches : Touches S data r.selector attempt.selector) :
    (rewire i attempt r).Post Tracked fun r => Tracked (r.markDone i) := by
  have hrewired : Tracked (rewired i attempt.selector r) := by
    refine h.modify i Session.clearPending (fun _ => rfl) (fun t s hs => ?_) htouches.opened
    exact hs.imp_right fun hs => Or.inl (hs.resolve_right nofun)
  unfold Reactor.rewire
  split
  · exact hrewired
  · exact hrewired.markDone i

theorem Tracked.transition (h : Tracked r) (ht : r.fleet.sessions[i]? = some t) (prev : State) :
    (r.transition i prev).Post Tracked fun r => Tracked (r.markDone i) := by
  rw [transition_eq ht]
  exact h.rewire (touches_settle r.selector i prev t.conn)

theorem Tracked.flushPendingUnregister (h : Tracked r) (i : Nat) :
    (r.flushPendingUnregister i).Post Tracked fun r => Tracked (r.markDone i) := by
  cases ht : r.fleet.sessions[i]? with
  | none =>
      unfold Reactor.flushPendingUnregister
      rw [ht]
      exact h
  | some t =>
      rw [flushPendingUnregister_eq ht]
      exact h.rewire (touches_flush r.selector i t.conn)

/-- A handler call on a connection that is not `DONE`. -/
theorem Tracked.put (h : Tracked r) (hwiring : Wiring False none r) (hbook : r.Bookkept)
    (ht : r.fleet.sessions[i]? = some t) (hdone : t.conn.state ≠ .done) {io : Io} {f : Frame}
    (htidy : Tidy (r.fleet.frame t io) f) (hwithin : Within (r.fleet.frame t io) f)
    (hclient : f.conn.clientSock = t.conn.clientSock) :
    Tracked { r with fleet := r.fleet.put i f } := by
  obtain ⟨cid, hhandle⟩ := hbook.handle_of_not_done ht hdone
  have hafter := Fleet.getElem?_put_self ht f
  have hself : ∀ {u}, (r.fleet.put i f).sessions[i]? = some u → u = Fleet.sessionOf f := fun hu =>
    (Option.some.inj (hafter.symm.trans hu)).symm
  refine ⟨fun s => ?_, fun j cid' u hj hu => ?_, fun j u hu hs => ?_⟩
  · refine (htidy.opened s).trans ⟨?_, ?_⟩
    · rintro (hbackend | ⟨hopen, hne⟩)
      · exact Or.inr ⟨i, cid, _, hhandle, hafter, mem_currentSocks.mpr (Or.inr hbackend)⟩
      · refine ((h.opened s).mp hopen).imp_right ?_
        rintro ⟨j, cid', u, hj, hu, hs⟩
        by_cases hij : i = j
        · subst hij
          obtain rfl := Option.some.inj (ht.symm.trans hu)
          have hsame : t.conn.clientSock = s := (mem_currentSocks.mp hs).resolve_right hne
          exact ⟨i, cid, _, hhandle, hafter, mem_currentSocks.mpr (Or.inl (hclient.trans hsame))⟩
        · exact ⟨j, cid', u, hj, (Fleet.getElem?_put_ne hij f).trans hu, hs⟩
    · rintro (rfl | ⟨j, cid', u, hj, hu, hs⟩)
      · exact Or.inr ⟨h.server_opened, fun hb => h.server i t ht (Or.inr (Or.inl hb))⟩
      · by_cases hij : i = j
        · subst hij
          obtain rfl := hself hu
          refine (mem_currentSocks.mp hs).symm.imp_right fun hs => ?_
          have hsame : t.conn.clientSock = s := hclient.symm.trans hs
          refine ⟨(h.opened s).mpr (Or.inr ⟨i, cid, t, hhandle, ht, mem_currentSocks.mpr (Or.inl hsame)⟩), ?_⟩
          exact hsame ▸ (hwiring.apart i t ht).1
        · have hu : r.fleet.sessions[j]? = some u := (Fleet.getElem?_put_ne hij f).symm.trans hu
          refine Or.inr ⟨(h.opened s).mpr (Or.inr ⟨j, cid', u, hj, hu, hs⟩), fun hb => ?_⟩
          exact hwiring.disjoint i j t u s hij ht hu (Or.inr (Or.inl hb)) (owns_of_mem_currentSocks hs)
  · by_cases hij : i = j
    · subst hij
      obtain rfl := hself hu
      have hfd : (Fleet.sessionOf f).conn.clientSock.fd = t.conn.clientSock.fd := congrArg Sock.fd hclient
      rw [hfd]
      exact h.listed i cid' t hj ht
    · exact h.listed j cid' u hj ((Fleet.getElem?_put_ne hij f).symm.trans hu)
  · by_cases hij : i = j
    · subst hij
      obtain rfl := hself hu
      rcases owns_of_within hwithin hclient hs with hold | ⟨hnew, -⟩
      · exact h.server i t ht hold
      · exact absurd (r.fleet.os.fresh _ h.server_opened) (Nat.not_lt.mpr hnew)
    · exact h.server j u ((Fleet.getElem?_put_ne hij f).symm.trans hu) hs

theorem Tracked.handleEvent (h : Tracked r) (hwiring : Wiring False none r) (hbook : r.Bookkept)
    (enabled : Bool) (c : Call) (io : Io) :
    (r.handleEvent cfg i enabled c io).Post Tracked fun r => Tracked (r.markDone i) := by
  unfold Reactor.handleEvent
  cases ht : r.fleet.sessions[i]? with
  | none => trivial
  | some t =>
      dsimp only
      cases enabled with
      | false => exact h
      | true =>
          rw [if_pos rfl, Fleet.call_eq_of_getElem? ht]
          by_cases hdone : t.conn.state = .done
          · rw [handle_done (f := r.fleet.frame t io) c hdone]
            change (Reactor.transition i t.conn.state { r with fleet := r.fleet.put i _ }).Post _ _
            rw [Fleet.put_frame ht]
            exact h.transition ht _
          · have hwired := hwiring.wired i t ht nofun
            have htidy : (handle cfg c (r.fleet.frame t io)).Post _ _ :=
              handle_tidy c hwired.idle (hwired.live hdone)
            have hmoved : (handle cfg c (r.fleet.frame t io)).Post _ _ := handle_moved c hwired.idle
            have hlater : (handle cfg c (r.fleet.frame t io)).Post _ _ :=
              handle_advances cfg c (Advances.refl t.conn)
            cases hhandle : handle cfg c (r.fleet.frame t io) with
            | hung => trivial
            | returned f =>
                rw [hhandle] at htidy hmoved hlater
                have hput := h.put hwiring hbook ht hdone htidy hmoved.within hlater.clientSock
                exact hput.transition (Fleet.getElem?_put_self ht f) _
            | raised f =>
                rw [hhandle] at htidy hmoved hlater
                exact (h.put hwiring hbook ht hdone htidy hmoved hlater.clientSock).markDone i

theorem Tracked.runBranches {io : Call → Io} {branches : List (Bool × Call)} (h : Tracked r)
    (hwiring : Wiring False none r) (hbook : r.Bookkept) :
    (r.runBranches cfg i io branches).Post Tracked fun r => Tracked (r.markDone i) := by
  induction branches generalizing r with
  | nil => exact h
  | cons branch rest ih =>
      obtain ⟨enabled, c⟩ := branch
      have hevent : (r.handleEvent cfg i enabled c (io c)).Post Tracked
          fun r => Tracked (r.markDone i) := h.handleEvent hwiring hbook enabled c (io c)
      have hwiring' : (r.handleEvent cfg i enabled c (io c)).Post (Wiring False none)
          fun r => Wiring False none (r.markDone i) :=
        hwiring.handleEvent hbook enabled c (io c) False.elim
      have hbook' : (r.handleEvent cfg i enabled c (io c)).Post Bookkept Bookkept :=
        hbook.handleEvent enabled c (io c)
      rw [Reactor.runBranches]
      cases hcall : r.handleEvent cfg i enabled c (io c) with
      | hung => trivial
      | raised r' =>
          rw [hcall] at hevent
          exact hevent
      | returned r' =>
          rw [hcall] at hevent hwiring' hbook'
          exact ih hevent hwiring' hbook'

theorem Tracked.dispatch (h : Tracked r) (hwiring : Wiring False none r) (hbook : r.Bookkept) (sock : Sock)
    (mask : Mask) (io : Call → Io) :
    (r.dispatch cfg i sock mask io).Post Tracked fun r => Tracked (r.markDone i) := by
  unfold Reactor.dispatch
  split
  · trivial
  · refine ((h.runBranches hwiring hbook).andThen fun r hr => hr.flushPendingUnregister i).andThen ?_
    exact fun r (hr : Tracked r) => hr.scheduleDeadline i

end Dispatch

/-! ### Accept, timeouts and reaping -/

theorem Tracked.registered {fd : Nat} {addr : Bytes × Nat} {clock : List Time} {connId : Nat}
    {sel : Selector} (h : Tracked r) (hbook : r.Bookkept)
    (hregister : Selector.register (r.fleet.os.newSock fd) eventRead (some r.fleet.sessions.length)
      ⟨r.fleet.os.openSock fd, r.fdToKey⟩ = sel.pass) :
    Tracked (registered cfg fd addr clock connId sel r) := by
  obtain ⟨new, hj⟩ := joined_registered cfg addr clock connId hregister
  have hnew : ∀ {s}, s ∈ currentSocks new.conn ↔ s = r.fleet.os.newSock fd := by
    intro s
    rw [mem_currentSocks, hj.clientSock, hj.backendSock]
    simp only [reduceCtorEq, or_false, eq_comm]
  have hhandle : ∀ {j cid : Nat}, r.handles[j]? = some ⟨cid, false⟩ →
      (r.handles ++ [⟨connId, false⟩])[j]? = some ⟨cid, false⟩ := fun hj =>
    getElem?_concat_eq_some_iff.mpr (Or.inl hj)
  have hsession : ∀ {j : Nat} {t : Session}, r.fleet.sessions[j]? = some t →
      (Reactor.registered cfg fd addr clock connId sel r).fleet.sessions[j]? = some t := by
    intro j t ht
    rw [hj.sessions]
    exact getElem?_concat_eq_some_iff.mpr (Or.inl ht)
  have hlast : (Reactor.registered cfg fd addr clock connId sel r).fleet.sessions[r.fleet.sessions.length]? =
      some new := by
    rw [hj.sessions]
    exact getElem?_concat_eq_some_iff.mpr (Or.inr ⟨rfl, rfl⟩)
  have hcases : ∀ {j cid : Nat} {t : Session}, (r.handles ++ [⟨connId, false⟩])[j]? = some ⟨cid, false⟩ →
      (Reactor.registered cfg fd addr clock connId sel r).fleet.sessions[j]? = some t →
      (r.handles[j]? = some ⟨cid, false⟩ ∧ r.fleet.sessions[j]? = some t) ∨
        (j = r.fleet.sessions.length ∧ t = new) := by
    intro j cid t hhandle ht
    refine (hj.cases ht).imp_left fun ht => ⟨?_, ht⟩
    refine (getElem?_concat_eq_some_iff.mp hhandle).resolve_right fun ⟨hlength, _⟩ => ?_
    obtain ⟨hlt, -⟩ := List.getElem?_eq_some_iff.mp ht
    rw [hlength, hbook.length] at hlt
    exact Nat.lt_irrefl _ hlt
  refine ⟨fun s => ?_, fun j cid t hhandle ht => ?_, fun j t ht hs => ?_⟩
  · rw [hj.opened, List.mem_cons, h.opened s]
    constructor
    · rintro (rfl | hserver | ⟨j, cid, t, hhandle', ht, hs⟩)
      · refine Or.inr ⟨_, connId, new, ?_, hlast, hnew.mpr rfl⟩
        exact getElem?_concat_eq_some_iff.mpr (Or.inr ⟨hbook.length.symm, rfl⟩)
      · exact Or.inl hserver
      · exact Or.inr ⟨j, cid, t, hhandle hhandle', hsession ht, hs⟩
    · rintro (hserver | ⟨j, cid, t, hhandle', ht, hs⟩)
      · exact Or.inr (Or.inl hserver)
      · rcases hcases hhandle' ht with ⟨hold, ht⟩ | ⟨-, rfl⟩
        · exact Or.inr (Or.inr ⟨j, cid, t, hold, ht, hs⟩)
        · exact Or.inl (hnew.mp hs)
  · rcases hcases hhandle ht with ⟨hold, ht⟩ | ⟨rfl, rfl⟩
    · have hopen : t.conn.clientSock ∈ r.fleet.os.opened :=
        (h.opened _).mpr (Or.inr ⟨j, cid, t, hold, ht, mem_currentSocks.mpr (Or.inl rfl)⟩)
      have hne : (r.fleet.os.newSock fd).fd ≠ t.conn.clientSock.fd := fun heq =>
        r.fleet.os.allocate_not_mem fd (List.mem_map.mpr ⟨_, hopen, heq.symm⟩)
      exact (Dict.get?_set_of_ne _ _ hne).trans (h.listed j cid t hold ht)
    · rw [hj.clientSock]
      exact Dict.get?_set_self _ _ _
  · rcases hj.cases ht with ht | ⟨-, rfl⟩
    · exact h.server j t ht hs
    · have hserver : r.serverSock = r.fleet.os.newSock fd := hj.serverSock.symm.trans (hj.owns hs)
      have hlt := r.fleet.os.fresh _ h.server_opened
      rw [hserver] at hlt
      exact Nat.lt_irrefl _ hlt

theorem Tracked.expireEntry (h : Tracked r) (hwiring : Wiring False none r) (hbook : r.Bookkept) {now : Time}
    {io : Nat → Io} {e : Deadline} (hstep : r.expireEntry cfg now io e = some r') : Tracked r' := by
  rcases expireEntry_cases hstep with ⟨-, rfl⟩ | ⟨i, t, f, hvalid, hends, rfl⟩
  · exact h
  · obtain ⟨-, ht, hdone, -⟩ := validEntry?_eq_some_iff.mp hvalid
    have hlive := (hwiring.wired i t ht nofun).live hdone
    have hsame : SameSocks (r.fleet.frame t (io i)) f := by
      refine hends.of_post (P := SameSocks (r.fleet.frame t (io i))) ?_
      exact (handleTimeout_sameSocks _).mono (fun _ h => h) fun _ h => ⟨h.os, h.backend, h.pending⟩
    have hclient : f.conn.clientSock = t.conn.clientSock := by
      refine hends.of_post (P := fun f => f.conn.clientSock = t.conn.clientSock) ?_
      exact (handle_advances cfg .timeout (f := r.fleet.frame t (io i)) (Advances.refl t.conn)).mono
        (fun _ h => h.clientSock) fun _ h => h.clientSock
    have htidy : Tidy (r.fleet.frame t (io i)) f := (Tidy.refl _ hlive).of_same hsame
    have hput := h.put hwiring hbook ht hdone htidy hsame.within hclient
    exact ⟨hput.opened, hput.listed, hput.server⟩

/-- The sockets of a connection that `_reap` removes are closed, and it is no longer in the maps. -/
theorem Tracked.reapOne (h : Tracked r) (hwiring : Wiring False none r) (hbook : r.Bookkept) (fd : Nat) :
    Tracked (r.reapOne fd) := by
  unfold Reactor.reapOne
  split
  · exact h
  · next i hi =>
    split
    · next t handle ht hhandle =>
      obtain ⟨t', cid, ht', hhandle', hfd⟩ := hbook.listed fd i hi
      obtain rfl := Option.some.inj (ht.symm.trans ht')
      obtain rfl := Option.some.inj (hhandle.symm.trans hhandle')
      obtain ⟨htouches, -⟩ := unregisterAll r.selector (currentSocks t.conn)
      generalize (currentSocks t.conn).foldl unregisterQuietly r.selector = sel at htouches
      have hclosed : ∀ s, s ∈ (cleanup t.conn sel.os).opened ↔ s ∈ r.fleet.os.opened ∧ ¬ t.conn.Owns s := by
        intro s
        rw [cleanup, mem_opened_closeAll, mem_cleanup, htouches.opened]
        rfl
      have hset : ∀ {j cid' : Nat}, (r.handles.set i ⟨cid, true⟩)[j]? = some ⟨cid', false⟩ ↔
          i ≠ j ∧ r.handles[j]? = some ⟨cid', false⟩ := by
        intro j cid'
        by_cases hij : i = j
        · subst hij
          rw [List.getElem?_set_self (List.getElem?_eq_some_iff.mp hhandle).1]
          simp
        · rw [List.getElem?_set_ne hij]
          simp [hij]
      have hother : ∀ {j : Nat} {u : Session} {s : Sock}, i ≠ j → r.fleet.sessions[j]? = some u →
          s ∈ currentSocks u.conn → ¬ t.conn.Owns s := by
        intro j u s hij hu hs hown
        exact hwiring.disjoint i j t u s hij ht hu hown (owns_of_mem_currentSocks hs)
      refine ⟨fun s => ?_, fun j cid' u hj hu => ?_, h.server⟩
      · refine (hclosed s).trans ⟨?_, ?_⟩
        · rintro ⟨hopen, hnot⟩
          refine ((h.opened s).mp hopen).imp_right ?_
          rintro ⟨j, cid', u, hj, hu, hs⟩
          refine ⟨j, cid', u, hset.mpr ⟨?_, hj⟩, hu, hs⟩
          rintro rfl
          obtain rfl := Option.some.inj (ht.symm.trans hu)
          exact hnot (owns_of_mem_currentSocks hs)
        · rintro (rfl | ⟨j, cid', u, hj, hu, hs⟩)
          · exact ⟨h.server_opened, h.server i t ht⟩
          · obtain ⟨hij, hj⟩ := hset.mp hj
            exact ⟨(h.opened s).mpr (Or.inr ⟨j, cid', u, hj, hu, hs⟩), hother hij hu hs⟩
      · obtain ⟨hij, hj⟩ := hset.mp hj
        have hlisted := h.listed j cid' u hj hu
        refine (Dict.get?_pop _ _ _).trans ((if_neg ?_).trans hlisted)
        rintro rfl
        exact hij (Option.some.inj (hi.symm.trans hlisted))
    · exact h

/-! ### Runs -/

theorem Tracked.init (router : Router) (fd : Nat) : Tracked (Reactor.init router fd) := by
  have htouches := touches_register eventRead none ⟨Os.init.openSock fd, .empty⟩ (Os.init.newSock fd)
  refine ⟨fun s => ?_, by rintro j cid t ⟨⟩, by rintro j t ⟨⟩⟩
  refine Iff.trans (b := s ∈ [Os.init.newSock fd]) ?_ ?_
  · exact iff_of_eq (congrArg (s ∈ ·) htouches.opened)
  · rw [List.mem_singleton]
    refine ⟨Or.inl, fun hs => hs.resolve_right ?_⟩
    rintro ⟨j, cid, t, hj, -⟩
    cases hj

theorem Tracked.step (h : Tracked r) (hwiring : Wiring False none r) (hbook : r.Bookkept) {e : Event}
    (hstep : r.step cfg e = some r') : Tracked r' := by
  cases e with
  | selectTimeout reading =>
      obtain rfl := Option.some.inj hstep
      exact ⟨h.opened, h.listed, h.server⟩
  | accept fd addr clock connId =>
      obtain ⟨-, sel, hregister, rfl⟩ := accept_cases hstep
      exact (h.registered hbook hregister).scheduleDeadline _
  | dispatch i sock mask io => exact of_step_dispatch (h.dispatch hwiring hbook sock mask io) hstep
  | expireTimeouts reading io =>
      refine (expireTimeouts_induction
        (P := fun _ r => Tracked r ∧ Wiring False none r ∧ r.Bookkept) hstep ?_ ?_).1
      · exact ⟨⟨h.opened, h.listed, h.server⟩, hwiring.of_eq rfl rfl rfl rfl,
          hbook.length, hbook.distinct, hbook.reaped, hbook.listed, hbook.byId⟩
      · rintro e rest r₁ r₂ ⟨htracked, hwiring, hbook⟩ _ hentry
        exact ⟨htracked.expireEntry hwiring hbook hentry, hwiring.expireEntry hbook hentry,
          hbook.expireEntry hentry⟩
  | reap =>
      obtain rfl := Option.some.inj hstep
      refine (reap_induction (P := fun r => Tracked r ∧ Wiring False none r ∧ r.Bookkept)
        ⟨h, hwiring, hbook⟩ ?_).1
      rintro r fd ⟨htracked, hwiring, hbook⟩ hdead
      exact ⟨htracked.reapOne hwiring hbook fd, hwiring.reapOne hdead, hbook.reapOne hdead⟩
  | mark m =>
      obtain rfl := Option.some.inj hstep
      exact ⟨h.opened, h.listed, h.server⟩

theorem tracked_of_run {router : Router} {fd : Nat} {events : List Event}
    (hrun : Machine.run (step cfg) (init router fd) events = some r) :
    Tracked r ∧ Wiring False none r ∧ r.Bookkept := by
  refine Machine.run_invariant (fun r => Tracked r ∧ Wiring False none r ∧ r.Bookkept) ?_ ?_ hrun
  · rintro r e r' ⟨htracked, hwiring, hbook⟩ hstep
    exact ⟨htracked.step hwiring hbook hstep, hwiring.step hbook False.elim hstep, hbook.step hstep⟩
  · exact ⟨.init router fd, .init False router fd, .init router fd⟩

/-! ### What is open -/

section Entries

/-- The current sockets of the connection that an entry of `_connections` names. -/
def entrySocks (r : Reactor) (item : Nat × Nat) : List Sock :=
  match r.fleet.sessions[item.2]? with
  | none => []
  | some t => currentSocks t.conn

theorem length_entrySocks_le (r : Reactor) (item : Nat × Nat) : (r.entrySocks item).length ≤ 2 := by
  unfold entrySocks
  split
  · exact Nat.zero_le 2
  · next t _ => cases hbackend : t.conn.backendSock <;> simp [currentSocks, hbackend]

theorem length_flatMap_le {α β : Type} {f : α → List β} {n : Nat} (h : ∀ a, (f a).length ≤ n)
    (l : List α) : (l.flatMap f).length ≤ n * l.length := by
  induction l with
  | nil => exact Nat.zero_le _
  | cons a rest ih =>
      rw [List.flatMap_cons, List.length_append, List.length_cons, Nat.mul_succ]
      have := h a
      omega

theorem Tracked.mem_entries (h : Tracked r) {s : Sock} (hs : r.Holds s) :
    s ∈ r.connections.items.flatMap r.entrySocks := by
  obtain ⟨i, cid, t, hi, ht, hs⟩ := hs
  have hlisted : (t.conn.clientSock.fd, i) ∈ r.connections.items :=
    Dict.get?_eq_some_iff.mp (h.listed i cid t hi ht)
  refine List.mem_flatMap.mpr ⟨_, hlisted, ?_⟩
  rw [entrySocks, ht]
  exact hs

/-- **No descriptor leaks.** After every run of the event loop the open sockets are the listener and the
client and backend sockets of the connections that have not been reaped, so they are at most one and two
more for each entry of `_connections`. -/
theorem opened_of_run {router : Router} {fd : Nat} {events : List Event}
    (hrun : Machine.run (step cfg) (init router fd) events = some r) :
    (∀ s, s ∈ r.fleet.os.opened ↔ s = r.serverSock ∨ r.Holds s) ∧
      r.fleet.os.opened.length ≤ 1 + 2 * r.connections.items.length := by
  obtain ⟨htracked, -, -⟩ := tracked_of_run hrun
  refine ⟨htracked.opened, ?_⟩
  have hnodup : r.fleet.os.opened.Nodup := r.fleet.os.distinct.of_map _
  have hsubset : r.fleet.os.opened ⊆ r.serverSock :: r.connections.items.flatMap r.entrySocks := by
    intro s hs
    rcases (htracked.opened s).mp hs with rfl | hs
    · exact List.mem_cons_self
    · exact List.mem_cons_of_mem _ (htracked.mem_entries hs)
  calc r.fleet.os.opened.length
      ≤ (r.serverSock :: r.connections.items.flatMap r.entrySocks).length :=
        (hnodup.subperm hsubset).length_le
    _ = 1 + (r.connections.items.flatMap r.entrySocks).length := by rw [List.length_cons, Nat.add_comm]
    _ ≤ 1 + 2 * r.connections.items.length :=
        Nat.add_le_add_left (length_flatMap_le r.length_entrySocks_le _) 1

/-- While a request is under way, three sockets are open. -/
theorem opened_of_run_oneRequest : ∃ r,
    Machine.run (step .default) (init Fleet.twoBackends 3) (oneRequest.take 6) = some r ∧
    (∀ s, s ∈ r.fleet.os.opened ↔ s = r.serverSock ∨ r.Holds s) ∧
      r.fleet.os.opened.length ≤ 1 + 2 * r.connections.items.length ∧ r.fleet.os.opened.length = 3 := by
  obtain ⟨r, hrun, hcount⟩ := Option.map_eq_some_iff.mp (show
    (Machine.run (step .default) (init Fleet.twoBackends 3) (oneRequest.take 6)).map
      (fun r => r.fleet.os.opened.length) = some 3 by decide +kernel)
  obtain ⟨hopened, hbound⟩ := opened_of_run hrun
  exact ⟨r, hrun, hopened, hbound, hcount⟩

end Entries

/-! ### After `_reap` -/

theorem mem_deadFds {fd : Nat} : fd ∈ r.deadFds ↔ ∃ (i : Nat) (t : Session),
    r.connections.get? fd = some i ∧ r.fleet.sessions[i]? = some t ∧ t.conn.state = .done := by
  constructor
  · intro hfd
    obtain ⟨⟨fd', i⟩, hitem, rfl⟩ := List.mem_map.mp hfd
    obtain ⟨hmem, hdone⟩ := List.mem_filter.mp hitem
    cases ht : r.fleet.sessions[i]? with
    | none => simp [ht] at hdone
    | some t =>
        rw [ht] at hdone
        exact ⟨i, t, Dict.get?_eq_some_iff.mpr hmem, ht, of_decide_eq_true hdone⟩
  · rintro ⟨i, t, hi, ht, hdone⟩
    refine List.mem_map.mpr ⟨(fd, i), List.mem_filter.mpr ⟨Dict.get?_eq_some_iff.mp hi, ?_⟩, rfl⟩
    simp [ht, hdone]

theorem connections_reapOne (hbook : r.Bookkept) (fd fd' : Nat) :
    (r.reapOne fd).connections.get? fd' = if fd = fd' then none else r.connections.get? fd' := by
  unfold reapOne
  cases hi : r.connections.get? fd with
  | none =>
      dsimp only
      split
      · next heq => rw [← heq, hi]
      · rfl
  | some i =>
      obtain ⟨t, cid, ht, hhandle, -⟩ := hbook.listed fd i hi
      dsimp only
      rw [ht, hhandle]
      exact Dict.get?_pop _ _ _

theorem serverSock_reapOne (r : Reactor) (fd : Nat) : (r.reapOne fd).serverSock = r.serverSock := by
  unfold reapOne
  split
  · rfl
  · split <;> rfl

theorem connections_reap (hbook : r.Bookkept) (fd' : Nat) :
    r.reap.connections.get? fd' = if fd' ∈ r.deadFds then none else r.connections.get? fd' := by
  have main : ∀ fds : List Nat, ∀ r : Reactor, (∀ fd ∈ fds, r.Dead fd) → r.Bookkept →
      (fds.foldl reapOne r).connections.get? fd' = if fd' ∈ fds then none else r.connections.get? fd' := by
    intro fds
    induction fds with
    | nil => exact fun r _ _ => (if_neg List.not_mem_nil).symm
    | cons fd rest ih =>
        intro r hdead hbook
        have hrest : ∀ fd'' ∈ rest, (r.reapOne fd).Dead fd'' := fun fd'' hfd'' =>
          (hdead fd'' (List.mem_cons_of_mem fd hfd'')).reapOne fd
        rw [List.foldl_cons, ih _ hrest (hbook.reapOne (hdead fd List.mem_cons_self)),
          connections_reapOne hbook]
        by_cases hfd : fd = fd'
        · simp [hfd]
        · simp [hfd, Ne.symm hfd]
  exact main r.deadFds r (fun fd hfd => dead_of_mem_deadFds hfd) hbook

theorem sessions_reap (r : Reactor) : r.reap.fleet.sessions = r.fleet.sessions :=
  List.foldlRecOn (motive := fun r' : Reactor => r'.fleet.sessions = r.fleet.sessions) r.deadFds reapOne rfl
    fun r' h fd _ => (sessions_reapOne r' fd).trans h

theorem serverSock_reap (r : Reactor) : r.reap.serverSock = r.serverSock :=
  List.foldlRecOn (motive := fun r' : Reactor => r'.serverSock = r.serverSock) r.deadFds reapOne rfl
    fun r' h fd _ => (serverSock_reapOne r' fd).trans h

/-- The connections left after `_reap` are those that are not `DONE`, and they hold all open sockets but the
listener. -/
theorem left_after_reap {router : Router} {fd : Nat} {events : List Event}
    (hrun : Machine.run (step cfg) (init router fd) events = some r) :
    (∀ i, (∃ fd', r.reap.connections.get? fd' = some i) ↔
      ∃ t, r.fleet.sessions[i]? = some t ∧ t.conn.state ≠ .done) ∧
    ∀ s, s ∈ r.reap.fleet.os.opened ↔ s = r.serverSock ∨
      ∃ (i : Nat) (t : Session), r.fleet.sessions[i]? = some t ∧ t.conn.state ≠ .done ∧
        s ∈ currentSocks t.conn := by
  obtain ⟨-, -, hbook⟩ := tracked_of_run hrun
  have hreap : Machine.run (step cfg) (init router fd) (events ++ [.reap]) = some r.reap := by
    rw [Machine.run_append, hrun]
    rfl
  obtain ⟨htracked, -, hbook'⟩ := tracked_of_run hreap
  have hlisted : ∀ {fd' i : Nat}, r.reap.connections.get? fd' = some i →
      ∃ t, r.fleet.sessions[i]? = some t ∧ t.conn.state ≠ .done := by
    intro fd' i hi
    rw [connections_reap hbook] at hi
    split at hi
    · cases hi
    · next hnot =>
      obtain ⟨t, -, ht, -, -⟩ := hbook.listed fd' i hi
      exact ⟨t, ht, fun hdone => hnot (mem_deadFds.mpr ⟨i, t, hi, ht, hdone⟩)⟩
  have hkept : ∀ {i : Nat} {t : Session}, r.fleet.sessions[i]? = some t → t.conn.state ≠ .done →
      ∃ cid, r.reap.handles[i]? = some ⟨cid, false⟩ ∧ r.reap.fleet.sessions[i]? = some t := by
    intro i t ht hdone
    rw [← sessions_reap] at ht
    obtain ⟨cid, hhandle⟩ := hbook'.handle_of_not_done ht hdone
    exact ⟨cid, hhandle, ht⟩
  refine ⟨fun i => ⟨fun ⟨fd', hi⟩ => hlisted hi, ?_⟩, fun s => ?_⟩
  · rintro ⟨t, ht, hdone⟩
    obtain ⟨cid, hhandle, ht⟩ := hkept ht hdone
    exact ⟨_, htracked.listed i cid t hhandle ht⟩
  · rw [htracked.opened s, serverSock_reap]
    refine or_congr_right ⟨?_, ?_⟩
    · rintro ⟨i, cid, t, hhandle, ht, hs⟩
      obtain ⟨t', ht', hdone⟩ := hlisted (htracked.listed i cid t hhandle ht)
      rw [sessions_reap] at ht
      obtain rfl := Option.some.inj (ht.symm.trans ht')
      exact ⟨i, t, ht, hdone, hs⟩
    · rintro ⟨i, t, ht, hdone, hs⟩
      obtain ⟨cid, hhandle, ht⟩ := hkept ht hdone
      exact ⟨i, cid, t, hhandle, ht, hs⟩

/-- The response has been sent, and the connection is `DONE`. -/
theorem left_after_reap_oneRequest : ∃ r,
    Machine.run (step .default) (init Fleet.twoBackends 3) (oneRequest.take 10) = some r ∧
    (∀ i, (∃ fd', r.reap.connections.get? fd' = some i) ↔
      ∃ t, r.fleet.sessions[i]? = some t ∧ t.conn.state ≠ .done) ∧
    ∀ s, s ∈ r.reap.fleet.os.opened ↔ s = r.serverSock ∨
      ∃ (i : Nat) (t : Session), r.fleet.sessions[i]? = some t ∧ t.conn.state ≠ .done ∧
        s ∈ currentSocks t.conn := by
  obtain ⟨r, hrun⟩ : ∃ r, Machine.run (step .default) (init Fleet.twoBackends 3) (oneRequest.take 10) =
      some r := Option.isSome_iff_exists.mp (by decide +kernel)
  exact ⟨r, hrun, left_after_reap hrun⟩

/-! ### After `_shutdown` -/

theorem mem_cleanupAll {s : Sock} : s ∈ r.cleanupAll.opened ↔ s ∈ r.fleet.os.opened ∧
    ∀ item ∈ r.connections.items, ∀ t, r.fleet.sessions[item.2]? = some t → ¬ t.conn.Owns s := by
  unfold cleanupAll
  generalize r.fleet.os = os
  generalize r.connections.items = items
  induction items generalizing os with
  | nil => simp
  | cons item rest ih =>
      rw [List.foldl_cons, ih, List.forall_mem_cons]
      cases ht : r.fleet.sessions[item.2]? with
      | none => simp
      | some t =>
          have hclosed : s ∈ (cleanup t.conn os).opened ↔ s ∈ os.opened ∧ ¬ t.conn.Owns s := by
            rw [cleanup, mem_opened_closeAll, mem_cleanup]
          simp only [hclosed, Option.some.injEq, forall_eq', and_assoc]

/-- **Shutdown.** However long the event loop has run, `_shutdown` leaves no socket open, nothing
registered and nothing for `epoll` to watch. -/
theorem closed_after_shutdown {router : Router} {fd : Nat} {events : List Event}
    (hrun : Machine.run (step cfg) (init router fd) events = some r) :
    r.shutdown.fleet.os.opened = [] ∧ (∀ s, ¬ r.shutdown.selector.Registered s) ∧
      ∀ fd, r.shutdown.fleet.os.epoll.get? fd = none := by
  obtain ⟨htracked, -, -⟩ := tracked_of_run hrun
  have htouches := touches_unregister none ⟨r.cleanupAll, r.fdToKey⟩ r.serverSock
  have hopened : ∀ s, s ∈ r.shutdown.fleet.os.opened ↔ s ∈ r.cleanupAll.opened ∧ s ≠ r.serverSock := by
    intro s
    have hsel : unregisterQuietly ⟨r.cleanupAll, r.fdToKey⟩ r.serverSock =
        (Selector.unregister r.serverSock ⟨r.cleanupAll, r.fdToKey⟩).selector := by
      rw [unregisterQuietly, unregister_except_pass]
      rfl
    rw [← htouches.opened, ← Os.mem_opened_close, ← hsel]
    rfl
  refine ⟨List.eq_nil_iff_forall_not_mem.mpr fun s hs => ?_, ?_, fun _ => rfl⟩
  · obtain ⟨hcleaned, hne⟩ := (hopened s).mp hs
    obtain ⟨hopen, hnone⟩ := mem_cleanupAll.mp hcleaned
    obtain ⟨i, cid, t, hi, ht, hs⟩ := ((htracked.opened s).mp hopen).resolve_left hne
    have hlisted := Dict.get?_eq_some_iff.mp (htracked.listed i cid t hi ht)
    exact hnone _ hlisted t ht (owns_of_mem_currentSocks hs)
  · rintro s ⟨key, hkey, -⟩
    cases hkey

/-- The loop is stopped while a request is on its way to the backend. -/
theorem closed_after_shutdown_oneRequest : ∃ r,
    Machine.run (step .default) (init Fleet.twoBackends 3) (oneRequest.take 4) = some r ∧
    r.fleet.os.opened ≠ [] ∧ r.shutdown.fleet.os.opened = [] ∧
      (∀ s, ¬ r.shutdown.selector.Registered s) ∧ ∀ fd, r.shutdown.fleet.os.epoll.get? fd = none := by
  obtain ⟨r, hrun, hcount⟩ := Option.map_eq_some_iff.mp (show
    (Machine.run (step .default) (init Fleet.twoBackends 3) (oneRequest.take 4)).map
      (fun r => r.fleet.os.opened.isEmpty) = some false by decide +kernel)
  refine ⟨r, hrun, fun hnil => ?_, closed_after_shutdown hrun⟩
  rw [hnil] at hcount
  cases hcount

end Reactor

end LoadBalancer
