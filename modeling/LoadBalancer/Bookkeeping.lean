import LoadBalancer.HandlerRules
import LoadBalancer.ReactorRules

/-! What the event loop knows about its connections. A handler never lowers the generation of a deadline,
gives every new deadline a new generation, keeps the client socket and never leaves `DONE`; the maps
`_connections` and `_conn_by_id` name connections that have not been reaped, each once. -/

namespace LoadBalancer

open Outcome

/-! ### Generations -/

/-- Deadline fields and client socket at a later moment than `c`: the deadline is the same as long as the
generation is. -/
structure Later (c : ProxyConnection) (gen : Nat) (deadline : Time) (clientSock : Sock) : Prop where
  gen_le : c.deadlineGen ≤ gen
  deadline : gen = c.deadlineGen → deadline = c.deadline
  clientSock : clientSock = c.clientSock

/-- `Later`, for the connection of a frame. -/
def LaterAt (c : ProxyConnection) (f : Frame) : Prop :=
  Later c f.conn.deadlineGen f.conn.deadline f.conn.clientSock

section Handlers

variable {cfg : Config} {c : ProxyConnection} {f : Frame}

theorem LaterAt.refreshDeadline (h : LaterAt c f) : LaterAt c (refreshDeadline cfg f) := by
  unfold LoadBalancer.refreshDeadline
  split
  · exact h
  · refine ⟨Nat.le_succ_of_le h.gen_le, fun hgen => ?_, h.clientSock⟩
    have hle := h.gen_le
    have hsucc : f.conn.deadlineGen + 1 = c.deadlineGen := hgen
    omega

theorem LaterAt.nextBackend (h : LaterAt c f) (exclude : Option (Finset Backend)) :
    LaterAt c (f.nextBackend exclude).2 := by
  rw [LaterAt, nextBackend_conn]
  exact h

theorem LaterAt.finish (h : LaterAt c f) : LaterAt c (finish f) := by
  rw [LaterAt, finish_conn]
  exact h

theorem LaterAt.abandonBackend (h : LaterAt c f) : LaterAt c (abandonBackend f) := by
  rw [LaterAt, abandonBackend_conn]
  exact h

theorem LaterAt.sendError (h : LaterAt c f) (code : Nat) (reason : String) :
    (sendError code reason f).Post (LaterAt c) (LaterAt c) := by
  unfold LoadBalancer.sendError
  split
  · exact LaterAt.finish h
  · exact LaterAt.finish h
  · exact h

theorem failover_later (cfg : Config) (c : ProxyConnection) :
    (∀ b f, LaterAt c f → (initiateBackendConnect cfg b f).Post (LaterAt c) (LaterAt c)) ∧
      ∀ f, LaterAt c f → (failBackend cfg f).Post (LaterAt c) (LaterAt c) := by
  have hbegin : ∀ f, LaterAt c f → LaterAt c (beginConnect cfg f) := fun f h =>
    LaterAt.refreshDeadline h
  apply failover_post
  case noSocket => exact fun b f h _ => hbegin f h
  case raises => exact fun b f fd h _ => hbegin f h
  case connected => exact fun b f fd h _ => LaterAt.refreshDeadline (hbegin f h)
  case inProgress => exact fun b f fd err h _ _ => hbegin f h
  case refused => exact fun b f fd err h _ _ _ => hbegin f h
  case retry => exact fun b f h _ _ => h.abandonBackend.nextBackend _
  case giveUp =>
    intro f f' h hf'
    rcases hf' with rfl | ⟨-, rfl⟩
    · exact h.abandonBackend.sendError 502 _
    · exact (h.abandonBackend.nextBackend _).sendError 502 _

theorem handleTimeout_later (h : LaterAt c f) : (handleTimeout f).Post (LaterAt c) (LaterAt c) := by
  apply handleTimeout_post
  case ended => exact fun _ => h
  case idle => exact fun _ => h.sendError 408 _
  case relaying =>
    intro _ _
    rw [LaterAt, setState_conn, releaseSlot_conn]
    exact h
  case unanswered => exact fun _ _ => h.sendError 504 _

theorem routeRequest_later (req : HttpRequest) (h : LaterAt c f) :
    (routeRequest cfg req f).Post (LaterAt c) (LaterAt c) := by
  have hpicked : LaterAt c ((storeRequest req f).nextBackend none).2 := LaterAt.nextBackend h none
  apply routeRequest_post
  case unavailable => exact fun _ => hpicked.sendError 503 _
  case routed => exact fun _ _ => (failover_later cfg c).1 _ _ hpicked

theorem handleClientReadable_later (h : LaterAt c f) :
    (handleClientReadable cfg f).Post (LaterAt c) (LaterAt c) := by
  have hreceived : ∀ bytes, LaterAt c (receiveRequest cfg bytes f) := fun _ => LaterAt.refreshDeadline h
  apply handleClientReadable_post
  case ignored => exact fun _ => h
  case blocked => exact fun _ _ => h
  case gone => exact fun _ _ => h
  case raises => exact fun _ _ => h
  case tooLarge => exact fun bytes _ _ _ _ => (hreceived bytes).sendError 413 _
  case incomplete => exact fun bytes _ _ _ _ => hreceived bytes
  case complete => exact fun bytes req _ _ _ _ => routeRequest_later req (hreceived bytes)

theorem LaterAt.recordForwarded (h : LaterAt c f) (accepted : Bytes) :
    LaterAt c (recordForwarded cfg accepted f) := by
  unfold LoadBalancer.recordForwarded
  dsimp only
  split
  · exact h
  · exact LaterAt.refreshDeadline h

theorem LaterAt.forwardRequest (h : LaterAt c f) :
    (forwardRequest cfg f).Post (LaterAt c) (LaterAt c) := by
  apply forwardRequest_post
  case blocked => exact fun _ => h
  case broken => exact fun _ => (failover_later cfg c).2 f h
  case raises => exact fun _ => h
  case sentAll => exact fun _ accepted _ _ _ => LaterAt.refreshDeadline (h.recordForwarded accepted)
  case sentSome => exact fun _ accepted _ _ _ => h.recordForwarded accepted

theorem handleBackendWritable_later (h : LaterAt c f) :
    (handleBackendWritable cfg f).Post (LaterAt c) (LaterAt c) := by
  apply handleBackendWritable_post
  case ignored => exact fun _ _ => h
  case raises => exact fun _ _ => h
  case refused => exact fun _ _ _ _ => (failover_later cfg c).2 f h
  case connected => exact fun _ _ => LaterAt.forwardRequest (LaterAt.refreshDeadline h)
  case forwarding => exact fun _ => h.forwardRequest

theorem LaterAt.prepareRelay (h : LaterAt c f) : LaterAt c (prepareRelay cfg f) :=
  LaterAt.refreshDeadline h

theorem handleBackendReadable_later (h : LaterAt c f) :
    (handleBackendReadable cfg f).Post (LaterAt c) (LaterAt c) := by
  apply handleBackendReadable_post
  case ignored => exact fun _ => h
  case blocked => exact fun _ _ => h
  case broken => exact fun _ _ => (failover_later cfg c).2 f h
  case raises => exact fun _ _ => h
  case closed =>
    intro _ _
    apply backendClosed_post
    case cutOff => exact fun _ _ => (failover_later cfg c).2 _ h
    case relay => exact LaterAt.prepareRelay h
  case received =>
    intro bytes _ _ _
    have hreceived : LaterAt c (receiveResponse cfg bytes (f.log (.backendReceived bytes))) := by
      rw [LaterAt, receiveResponse, update_conn, recordFraming_eq, recordStatus_eq]
      exact LaterAt.refreshDeadline h
    exact checkComplete_post cfg _ (fun _ => hreceived) fun _ _ _ => LaterAt.prepareRelay hreceived

theorem handleClientWritable_later (h : LaterAt c f) :
    (handleClientWritable cfg f).Post (LaterAt c) (LaterAt c) := by
  have hrelayed : ∀ accepted, LaterAt c (recordRelayed cfg accepted f) := by
    intro accepted
    unfold recordRelayed
    dsimp only
    split
    · exact h
    · exact LaterAt.refreshDeadline h
  apply handleClientWritable_post
  case ignored => exact fun _ => h
  case blocked => exact fun _ _ => h
  case gone => exact fun _ _ => h
  case raises => exact fun _ _ => h
  case sentAll => exact fun _ accepted _ _ _ _ => (hrelayed accepted).finish
  case sentSome => exact fun _ accepted _ _ _ _ => hrelayed accepted

theorem handle_later (call : Call) (h : LaterAt c f) :
    (handle cfg call f).Post (LaterAt c) (LaterAt c) := by
  cases call with
  | timeout => exact handleTimeout_later h
  | clientReadable => exact handleClientReadable_later h
  | clientWritable => exact handleClientWritable_later h
  | backendReadable => exact handleBackendReadable_later h
  | backendWritable => exact handleBackendWritable_later h

/-- Every handler ignores a connection that is `DONE`. -/
theorem handle_done (call : Call) (h : f.conn.state = .done) : handle cfg call f = .returned f := by
  cases call <;>
    simp [handle, handleTimeout, handleClientReadable, handleClientWritable, handleBackendReadable,
      handleBackendWritable, h]

end Handlers

namespace Reactor

/-! ### Steps, as far as deadlines and `DONE` go -/

/-- How a connection changes. -/
structure Advances (c c' : ProxyConnection) : Prop
    extends Later c c'.deadlineGen c'.deadline c'.clientSock where
  done : c.state = .done → c'.state = .done

theorem Advances.refl (c : ProxyConnection) : Advances c c := ⟨⟨le_rfl, fun _ => rfl, rfl⟩, fun h => h⟩

theorem Advances.trans {c c₁ c₂ : ProxyConnection} (h : Advances c c₁) (h' : Advances c₁ c₂) :
    Advances c c₂ where
  gen_le := h.gen_le.trans h'.gen_le
  deadline := by
    intro hgen
    have hkept : c₁.deadlineGen = c.deadlineGen := le_antisymm (h'.gen_le.trans_eq hgen) h.gen_le
    exact (h'.deadline (hgen.trans hkept.symm)).trans (h.deadline hkept)
  clientSock := h'.clientSock.trans h.clientSock
  done := fun hdone => h'.done (h.done hdone)

theorem handle_advances (cfg : Config) {c₀ : ProxyConnection} (c : Call) {f : Frame}
    (h : Advances c₀ f.conn) :
    (handle cfg c f).Post (fun f' => Advances c₀ f'.conn) fun f' => Advances c₀ f'.conn := by
  by_cases hdone : f.conn.state = .done
  · rw [handle_done c hdone]
    exact h
  · have hnot : c₀.state ≠ .done := fun h₀ => hdone (h.done h₀)
    exact (handle_later c h.toLater).mono (fun _ hf => ⟨hf, fun h₀ => absurd h₀ hnot⟩) fun _ hf =>
      ⟨hf, fun h₀ => absurd h₀ hnot⟩

variable {cfg : Config} {i : Nat} {r r' : Reactor}

/-- A dispatch changes its connection, and then schedules its deadline or gives it up. -/
theorem dispatch_cases {sock : Sock} {mask : Mask} {io : Call → Io}
    (h : r.step cfg (.dispatch i sock mask io) = some r') :
    ∃ r₁, Acts Advances i r r₁ ∧ (r' = r₁.scheduleDeadline i ∨ r' = r₁.markDone i) := by
  have hmaintains : Maintains cfg i (Acts Advances i r) (Acts Advances i r) :=
    maintains_acts (fun _ _ h => ⟨h.toLater, h.done⟩) (fun _ c _ h => handle_advances _ c h) r
  refine of_step_dispatch (Q := fun r' => ∃ r₁, Acts Advances i r r₁ ∧
    (r' = r₁.scheduleDeadline i ∨ r' = r₁.markDone i)) ?_ h
  exact (hmaintains.dispatch (Acts.refl Advances.refl r) sock mask io
    (Q := fun r' => ∃ r₁, Acts Advances i r r₁ ∧ (r' = r₁.scheduleDeadline i ∨ r' = r₁.markDone i))
    fun r₁ hr₁ => ⟨r₁, hr₁, Or.inl rfl⟩).mono (fun _ h => h) fun r₁ hr₁ => ⟨r₁, hr₁, Or.inr rfl⟩

theorem validEntry?_eq_some_iff {e : Deadline} {s : Session} :
    r.validEntry? e = some (i, s) ↔ r.connById.get? e.connId = some i ∧
      r.fleet.sessions[i]? = some s ∧ s.conn.state ≠ .done ∧ e.gen = s.conn.deadlineGen := by
  unfold validEntry?
  constructor
  · intro h
    split at h
    · cases h
    · next j hj =>
      split at h
      · cases h
      · next t ht =>
        split at h
        · next hvalid =>
          obtain ⟨rfl, rfl⟩ := Prod.mk.inj (Option.some.inj h)
          exact ⟨hj, ht, hvalid.1, hvalid.2⟩
        · cases h
  · rintro ⟨hi, hs, hvalid⟩
    rw [hi]
    dsimp only
    rw [hs]
    exact if_pos hvalid

/-- An entry is dropped, or its connection times out. -/
theorem expireEntry_cases {now : Time} {io : Nat → Io} {e : Deadline}
    (h : r.expireEntry cfg now io e = some r') :
    (r.validEntry? e = none ∧ r' = r) ∨ ∃ i s f, r.validEntry? e = some (i, s) ∧
      Fleet.Ends (handleTimeout (r.fleet.frame s (io i))) f ∧
      r' = { r with
        fleet := r.fleet.put i f
        timeouts := r.timeouts ++ [(now, s.conn.deadline)] } := by
  unfold expireEntry at h
  split at h
  · next hnone => exact Or.inl ⟨hnone, (Option.some.inj h).symm⟩
  · next i s hvalid =>
    obtain ⟨fleet, hstep, rfl⟩ := Option.map_eq_some_iff.mp h
    obtain ⟨s', f, hs', hends, rfl⟩ := Fleet.step_call_cases hstep
    obtain ⟨-, hs, -, -⟩ := validEntry?_eq_some_iff.mp hvalid
    obtain rfl := Option.some.inj (hs.symm.trans hs')
    exact Or.inr ⟨i, s, f, hvalid, hends, rfl⟩

theorem done_of_timeout {f f' : Frame} (h : Fleet.Ends (handleTimeout f) f') :
    f'.conn.state = .done :=
  h.of_post (P := fun f => f.conn.state = .done) ((handleTimeout_done f).mono (fun _ h => h) fun _ _ => rfl)

/-- An entry is dropped, or its connection changes and is `DONE`. -/
theorem expireEntry_acts {now : Time} {io : Nat → Io} {e : Deadline}
    (h : r.expireEntry cfg now io e = some r') :
    (r.validEntry? e = none ∧ r' = r) ∨ ∃ i s r₁, r.validEntry? e = some (i, s) ∧
      Acts Advances i r r₁ ∧ (∀ s', r₁.fleet.sessions[i]? = some s' → s'.conn.state = .done) ∧
      r' = { r₁ with timeouts := r.timeouts ++ [(now, s.conn.deadline)] } := by
  refine (expireEntry_cases h).imp_right ?_
  rintro ⟨i, s, f, hvalid, hends, rfl⟩
  obtain ⟨-, hs, -, -⟩ := validEntry?_eq_some_iff.mp hvalid
  have hadvances : Advances s.conn f.conn := by
    refine hends.of_post (P := fun f => Advances s.conn f.conn) ?_
    exact (handle_advances cfg .timeout (f := r.fleet.frame s (io i)) (Advances.refl _)).mono
      (fun _ h => h) fun _ h => ⟨h.toLater, fun _ => rfl⟩
  have hacts : Acts Advances i r { r with fleet := r.fleet.put i f } :=
    (Acts.refl Advances.refl r).put hs hadvances
  refine ⟨i, s, _, hvalid, hacts, fun t ht => ?_, rfl⟩
  rw [Fleet.put, List.getElem?_set_self (List.getElem?_eq_some_iff.mp hs).1] at ht
  exact Option.some.inj ht ▸ done_of_timeout hends

/-! ### The maps of the event loop -/

/-- The maps name connections that have not been reaped, and a reaped connection is `DONE`. -/
structure Bookkept (r : Reactor) : Prop where
  length : r.handles.length = r.fleet.sessions.length
  distinct : ∀ (i j : Nat) (cid : Nat), r.handles[i]? = some ⟨cid, false⟩ →
    r.handles[j]? = some ⟨cid, false⟩ → i = j
  reaped : ∀ (i cid : Nat) (s : Session), r.handles[i]? = some ⟨cid, true⟩ →
    r.fleet.sessions[i]? = some s → s.conn.state = .done
  listed : ∀ fd i, r.connections.get? fd = some i → ∃ s cid, r.fleet.sessions[i]? = some s ∧
    r.handles[i]? = some ⟨cid, false⟩ ∧ s.conn.clientSock.fd = fd
  byId : ∀ cid i, r.connById.get? cid = some i → r.handles[i]? = some ⟨cid, false⟩

theorem getElem?_concat_eq_some_iff {α : Type} {l : List α} {a b : α} {i : Nat} :
    (l ++ [a])[i]? = some b ↔ l[i]? = some b ∨ (i = l.length ∧ a = b) := by
  rcases lt_trichotomy i l.length with hlt | rfl | hgt
  · rw [List.getElem?_append_left hlt]
    simp [hlt.ne]
  · simp
  · have hnone : (l ++ [a])[i]? = none := List.getElem?_eq_none (by simp; omega)
    simp [hnone, hgt.ne', hgt.le]

namespace Bookkept

theorem init (router : Router) (fd : Nat) : (Reactor.init router fd).Bookkept where
  length := rfl
  distinct := by rintro i j cid ⟨⟩
  reaped := by rintro i cid s ⟨⟩
  listed := by rintro fd i ⟨⟩
  byId := by rintro cid i ⟨⟩

theorem acts (h : r.Bookkept) (hacts : Acts Advances i r r') : r'.Bookkept where
  length := by rw [hacts.handles, hacts.length, h.length]
  distinct := by
    rw [hacts.handles]
    exact h.distinct
  reaped := by
    rw [hacts.handles]
    intro j cid s' hhandle hs'
    obtain ⟨s, hs, hadvances⟩ := hacts.session Advances.refl hs'
    exact hadvances.done (h.reaped j cid s hhandle hs)
  listed := by
    rw [hacts.connections, hacts.handles]
    intro fd j hj
    obtain ⟨s, cid, hs, hhandle, hfd⟩ := h.listed fd j hj
    obtain ⟨s', hs', hadvances⟩ := hacts.session_after Advances.refl hs
    exact ⟨s', cid, hs', hhandle, by rw [hadvances.clientSock, hfd]⟩
  byId := by
    rw [hacts.connById, hacts.handles]
    exact h.byId

/-- A connection that is not `DONE` has not been reaped. -/
theorem handle_of_not_done (h : r.Bookkept) {s : Session} (hs : r.fleet.sessions[i]? = some s)
    (hdone : s.conn.state ≠ .done) : ∃ cid, r.handles[i]? = some ⟨cid, false⟩ := by
  have hlt : i < r.handles.length := by
    rw [h.length]
    exact (List.getElem?_eq_some_iff.mp hs).1
  obtain ⟨⟨cid, reaped⟩, hhandle⟩ : ∃ handle, r.handles[i]? = some handle :=
    ⟨_, List.getElem?_eq_getElem hlt⟩
  cases reaped with
  | false => exact ⟨cid, hhandle⟩
  | true => exact absurd (h.reaped i cid s hhandle hs) hdone

theorem scheduleDeadline (h : r.Bookkept) (i : Nat) : (r.scheduleDeadline i).Bookkept := by
  unfold Reactor.scheduleDeadline
  split
  · next s handle hs hhandle =>
    split
    · exact h
    · next hdone =>
      refine ⟨h.length, h.distinct, h.reaped, h.listed, fun cid j hj => ?_⟩
      rw [Dict.get?_set] at hj
      split at hj
      · next hcid =>
        obtain rfl := Option.some.inj hj
        obtain ⟨cid', hhandle'⟩ := h.handle_of_not_done hs hdone
        rw [hhandle'] at hhandle
        rw [hhandle', ← hcid, ← Option.some.inj hhandle]
      · exact h.byId cid j hj
  · exact h

theorem not_mem_aliveIds {cid : Nat} (hcid : cid ∉ r.aliveIds) : r.handles[i]? ≠ some ⟨cid, false⟩ := by
  intro hhandle
  refine hcid (List.mem_map.mpr ⟨_, List.mem_filter.mpr ⟨List.mem_of_getElem? hhandle, ?_⟩, rfl⟩)
  rfl

theorem registered (h : r.Bookkept) {fd : Nat} {addr : Bytes × Nat} {clock : List Time} {connId : Nat}
    {sel : Selector} (hfresh : connId ∉ r.aliveIds) :
    (registered cfg fd addr clock connId sel r).Bookkept where
  length := by simp [Reactor.registered, Fleet.accept, h.length]
  distinct := by
    intro i j cid hi hj
    rcases getElem?_concat_eq_some_iff.mp hi with hi | ⟨rfl, hcid⟩ <;>
      rcases getElem?_concat_eq_some_iff.mp hj with hj | ⟨rfl, hcid'⟩
    · exact h.distinct i j cid hi hj
    · exact absurd (Handle.mk.inj hcid').1 fun heq => not_mem_aliveIds hfresh (heq ▸ hi)
    · exact absurd (Handle.mk.inj hcid).1 fun heq => not_mem_aliveIds hfresh (heq ▸ hj)
    · rfl
  reaped := by
    intro i cid s hi hs
    rcases getElem?_concat_eq_some_iff.mp hi with hi | ⟨-, hfalse⟩
    · rcases getElem?_concat_eq_some_iff.mp hs with hs | ⟨rfl, -⟩
      · exact h.reaped i cid s hi hs
      · obtain ⟨hlt, -⟩ := List.getElem?_eq_some_iff.mp hi
        exact absurd hlt (by rw [h.length]; exact Nat.lt_irrefl _)
    · cases hfalse
  listed := by
    intro fd' i hi
    rw [Reactor.registered, Dict.get?_set] at hi
    split at hi
    · next hfd =>
      obtain rfl := Option.some.inj hi
      refine ⟨_, connId, getElem?_concat_eq_some_iff.mpr (Or.inr ⟨rfl, rfl⟩),
        getElem?_concat_eq_some_iff.mpr (Or.inr ⟨h.length.symm, rfl⟩), hfd⟩
    · obtain ⟨s, cid, hs, hhandle, hclient⟩ := h.listed fd' i hi
      exact ⟨s, cid, getElem?_concat_eq_some_iff.mpr (Or.inl hs),
        getElem?_concat_eq_some_iff.mpr (Or.inl hhandle), hclient⟩
  byId := fun cid i hi => getElem?_concat_eq_some_iff.mpr (Or.inl (h.byId cid i hi))

/-- What `_reap` needs of a connection that it is about to remove. -/
theorem reapOne (h : r.Bookkept) {fd : Nat}
    (hdead : ∀ i s, r.connections.get? fd = some i → r.fleet.sessions[i]? = some s →
      s.conn.state = .done) : (r.reapOne fd).Bookkept := by
  unfold Reactor.reapOne
  split
  · exact h
  · next i hi =>
    split
    · next s handle hs hhandle =>
      obtain ⟨s', cid, hs', hhandle', hfd⟩ := h.listed fd i hi
      obtain rfl := Option.some.inj (hs.symm.trans hs')
      obtain rfl := Option.some.inj (hhandle.symm.trans hhandle')
      have hset : ∀ j handle', (r.handles.set i ⟨cid, true⟩)[j]? = some handle' →
          (j = i ∧ handle' = ⟨cid, true⟩) ∨ (j ≠ i ∧ r.handles[j]? = some handle') := by
        intro j handle' hj
        by_cases hij : i = j
        · subst hij
          rw [List.getElem?_set_self (List.getElem?_eq_some_iff.mp hhandle).1] at hj
          exact Or.inl ⟨rfl, (Option.some.inj hj).symm⟩
        · rw [List.getElem?_set_ne hij] at hj
          exact Or.inr ⟨Ne.symm hij, hj⟩
      have hkept : ∀ {j : Nat} {cid' : Nat}, (r.handles.set i ⟨cid, true⟩)[j]? = some ⟨cid', false⟩ →
          r.handles[j]? = some ⟨cid', false⟩ := by
        intro j cid' hj
        rcases hset j _ hj with ⟨-, hfalse⟩ | ⟨-, hj⟩
        · cases hfalse
        · exact hj
      refine ⟨?_, ?_, ?_, ?_, ?_⟩
      · exact List.length_set.trans h.length
      · exact fun j k cid' hj hk => h.distinct j k cid' (hkept hj) (hkept hk)
      · intro j cid' s' hj hs'
        rcases hset j _ hj with ⟨rfl, -⟩ | ⟨-, hj⟩
        · exact hdead j s' hi hs'
        · exact h.reaped j cid' s' hj hs'
      · intro fd' j hj
        rw [Dict.get?_pop] at hj
        split at hj
        · cases hj
        · next hne =>
          obtain ⟨s', cid', hs', hhandle', hfd'⟩ := h.listed fd' j hj
          have hij : i ≠ j := by
            rintro rfl
            obtain rfl := Option.some.inj (hs.symm.trans hs')
            exact hne (hfd.symm.trans hfd')
          exact ⟨s', cid', hs', (List.getElem?_set_ne hij).trans hhandle', hfd'⟩
      · intro cid' j hj
        rw [Dict.get?_pop] at hj
        split at hj
        · cases hj
        · next hne =>
          have hhandle' := h.byId cid' j hj
          have hij : i ≠ j := by
            rintro rfl
            rw [hhandle] at hhandle'
            exact hne (Handle.mk.inj (Option.some.inj hhandle')).1
          exact (List.getElem?_set_ne hij).trans hhandle'
    · exact h

theorem expireEntry (h : r.Bookkept) {now : Time} {io : Nat → Io} {e : Deadline}
    (hstep : r.expireEntry cfg now io e = some r') : r'.Bookkept := by
  rcases expireEntry_acts hstep with ⟨-, rfl⟩ | ⟨i, s, r₁, -, hacts, -, rfl⟩
  · exact h
  · have h₁ := h.acts hacts
    exact ⟨h₁.length, h₁.distinct, h₁.reaped, h₁.listed, h₁.byId⟩

end Bookkept

/-! ### Steps and runs -/

theorem markDone_acts (i : Nat) (h : Acts Advances i r r') : Acts Advances i r (r'.markDone i) :=
  h.markDone fun _ _ h => ⟨h.toLater, fun _ => rfl⟩

/-- The descriptor is in `_connections` for no connection but a `DONE` one. -/
def Dead (r : Reactor) (fd : Nat) : Prop :=
  ∀ i s, r.connections.get? fd = some i → r.fleet.sessions[i]? = some s → s.conn.state = .done

theorem dead_of_mem_deadFds {fd : Nat} (hfd : fd ∈ r.deadFds) : r.Dead fd := by
  intro i s hi hs
  obtain ⟨⟨fd', j⟩, hitem, rfl⟩ := List.mem_map.mp hfd
  obtain ⟨hmem, hdone⟩ := List.mem_filter.mp hitem
  obtain rfl := Option.some.inj (hi.symm.trans (Dict.get?_eq_some_iff.mpr hmem))
  rw [hs] at hdone
  exact of_decide_eq_true hdone

theorem sessions_reapOne (r : Reactor) (fd : Nat) :
    (r.reapOne fd).fleet.sessions = r.fleet.sessions := by
  unfold reapOne
  split
  · rfl
  · split <;> rfl

theorem Dead.reapOne {fd : Nat} (h : r.Dead fd) (fd' : Nat) : (r.reapOne fd').Dead fd := by
  intro i s hi hs
  rw [sessions_reapOne] at hs
  refine h i s ?_ hs
  unfold Reactor.reapOne at hi
  split at hi
  · exact hi
  · split at hi
    · rw [Dict.get?_pop] at hi
      split at hi
      · cases hi
      · exact hi
    · exact hi

/-- What the removal of a `DONE` connection keeps, `_reap` keeps. -/
theorem reap_induction {P : Reactor → Prop} (hr : P r)
    (hone : ∀ r fd, P r → r.Dead fd → P (r.reapOne fd)) : P r.reap := by
  have main : ∀ fds : List Nat, ∀ r, (∀ fd ∈ fds, r.Dead fd) → P r → P (fds.foldl reapOne r) := by
    intro fds
    induction fds with
    | nil => exact fun r _ hr => hr
    | cons fd rest ih =>
        intro r hdead hr
        refine ih _ (fun fd' hfd' => ?_) (hone r fd hr (hdead fd List.mem_cons_self))
        exact (hdead fd' (List.mem_cons_of_mem fd hfd')).reapOne fd
  exact main r.deadFds r (fun fd hfd => dead_of_mem_deadFds hfd) hr

/-- What each popped entry keeps, `_expire_timeouts` keeps; `P` may speak of the entries still to do. -/
theorem expireTimeouts_induction {reading : Time} {io : Nat → Io} {P : List Deadline → Reactor → Prop}
    (hstep : r.expireTimeouts cfg reading io = some r')
    (hpop : P (r.deadlines.popWhile fun e => e.deadline ≤ max r.fleet.now reading).1
      { r with
        fleet := r.fleet.tick reading
        deadlines := (r.deadlines.popWhile fun e => e.deadline ≤ max r.fleet.now reading).2 })
    (hentry : ∀ e rest r₁ r₂, P (e :: rest) r₁ → e.deadline ≤ max r.fleet.now reading →
      r₁.expireEntry cfg (max r.fleet.now reading) io e = some r₂ → P rest r₂) : P [] r' := by
  have main : ∀ (popped : List Deadline) (r₁ : Reactor),
      (∀ e ∈ popped, e.deadline ≤ max r.fleet.now reading) → P popped r₁ →
      popped.foldlM (expireEntry cfg (max r.fleet.now reading) io) r₁ = some r' → P [] r' := by
    intro popped
    induction popped with
    | nil =>
        intro r₁ _ h hfold
        exact Option.some.inj hfold ▸ h
    | cons e rest ih =>
        intro r₁ hdue h hfold
        rw [List.foldlM_cons] at hfold
        obtain ⟨r₂, hfirst, hrest⟩ := Option.bind_eq_some_iff.mp hfold
        have hstep₂ := hentry e rest r₁ r₂ h (hdue e List.mem_cons_self) hfirst
        exact ih r₂ (fun e' he' => hdue e' (List.mem_cons_of_mem e he')) hstep₂ hrest
  refine main _ _ (fun e he => ?_) hpop hstep
  have hdue := HeapQueue.of_mem_popWhile he
  exact of_decide_eq_true hdue

theorem Bookkept.step (h : r.Bookkept) {e : Event} (hstep : r.step cfg e = some r') : r'.Bookkept := by
  cases e with
  | selectTimeout reading =>
      obtain rfl := Option.some.inj hstep
      exact ⟨h.length, h.distinct, h.reaped, h.listed, h.byId⟩
  | accept fd addr clock connId =>
      obtain ⟨hfresh, sel, -, rfl⟩ := accept_cases hstep
      exact (h.registered hfresh).scheduleDeadline _
  | dispatch i sock mask io =>
      obtain ⟨r₁, hacts, rfl | rfl⟩ := dispatch_cases hstep
      · exact (h.acts hacts).scheduleDeadline i
      · exact h.acts (markDone_acts i hacts)
  | expireTimeouts reading io =>
      refine expireTimeouts_induction (P := fun _ r => r.Bookkept) hstep ?_ ?_
      · exact ⟨h.length, h.distinct, h.reaped, h.listed, h.byId⟩
      · exact fun e rest r₁ r₂ h₁ _ hentry => h₁.expireEntry hentry
  | reap =>
      obtain rfl := Option.some.inj hstep
      exact reap_induction h fun r fd hr hdead => hr.reapOne hdead
  | mark m =>
      obtain rfl := Option.some.inj hstep
      exact ⟨h.length, h.distinct, h.reaped, h.listed, h.byId⟩

end Reactor

end LoadBalancer
