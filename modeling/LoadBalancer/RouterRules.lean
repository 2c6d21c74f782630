import LoadBalancer.Fleet
import LoadBalancer.HandlerRules

/-! The rule for what all connections share: the router, and the order of the calls that connections and the
health checker make on it. A property that each call of the router keeps is kept by every handler, however
often it fails over, and by every run. -/

namespace LoadBalancer

open Outcome

/-- The router when this thread gets its lock, after the marks that came first. -/
def awaited (marks : List (List Mark)) (router : Router) : Router :=
  (marks.headD []).foldl (fun router mark => router.mark mark) router

/-- What marks of a kind keep holds of the router when this thread gets its lock. -/
theorem awaited_induction {R : Router → Prop} {M : Mark → Prop}
    (hmark : ∀ router m, M m → R router → R (Router.mark m router)) {router : Router} (h : R router)
    {marks : List (List Mark)} (hmarks : ∀ ms ∈ marks, ∀ m ∈ ms, M m) : R (awaited marks router) := by
  have hnow : ∀ m ∈ marks.headD [], M m := by
    cases marks with
    | nil => exact fun m hm => absurd hm List.not_mem_nil
    | cons ms rest => exact hmarks ms List.mem_cons_self
  exact List.foldlRecOn (motive := R) (marks.headD []) (fun router mark => Router.mark mark router) h
    fun router h m hm => hmark router m (hnow m hm) h

/-- An action that does not concern the router, and no connect either. -/
def Action.IsPlain : Action → Prop
  | .nextBackend _ | .onDisconnect _ _ | .connect _ _ => False
  | _ => True

/-- `Q` is kept by the calls of the router, and `Given` holds of the backends that it gives; a backend of
which `Given` holds can be connected to. -/
structure KeptByCalls (Given : Backend → Prop) (Q : Router → List (List Mark) → List Action → Prop) :
    Prop where
  picked : ∀ router marks trace exclude, Q router marks trace →
    let picked := (awaited marks router).nextBackend exclude
    (∀ b, picked.1 = some b → Given b) ∧ Q picked.2 marks.tail (trace ++ [.nextBackend picked.1])
  released : ∀ router marks trace b, Q router marks trace →
    Q ((awaited marks router).onDisconnect b) marks.tail
      (trace ++ [.onDisconnect b ((awaited marks router).count b)])
  connected : ∀ router marks trace b sock, Given b → Q router marks trace →
    Q router marks (trace ++ [.connect b sock])
  plain : ∀ router marks trace (a : Action), a.IsPlain → Q router marks trace →
    Q router marks (trace ++ [a])

section Handlers

variable {Given : Backend → Prop} {Q : Router → List (List Mark) → List Action → Prop} {cfg : Config}
  {f f' : Frame}

/-- `Q`, of a frame. -/
def HoldsAt (Q : Router → List (List Mark) → List Action → Prop) (f : Frame) : Prop :=
  Q f.router f.io.marks f.trace

theorem HoldsAt.congr (h : HoldsAt Q f) (hrouter : f'.router = f.router)
    (hmarks : f'.io.marks = f.io.marks) (htrace : f'.trace = f.trace) : HoldsAt Q f' := by
  rw [HoldsAt, hrouter, hmarks, htrace]
  exact h

theorem HoldsAt.refreshDeadline (h : HoldsAt Q f) : HoldsAt Q (refreshDeadline cfg f) :=
  h.congr (refreshDeadline_router cfg f) (refreshDeadline_marks cfg f) (refreshDeadline_trace cfg f)

theorem KeptByCalls.log (hkept : KeptByCalls Given Q) (h : HoldsAt Q f) {a : Action} (ha : a.IsPlain) :
    HoldsAt Q (f.log a) := hkept.plain _ _ _ a ha h

theorem KeptByCalls.nextBackend (hkept : KeptByCalls Given Q) (h : HoldsAt Q f)
    (exclude : Option (Finset Backend)) :
    (∀ b, (f.nextBackend exclude).1 = some b → Given b) ∧ HoldsAt Q (f.nextBackend exclude).2 :=
  hkept.picked _ _ _ exclude h

theorem KeptByCalls.releaseSlot (hkept : KeptByCalls Given Q) (h : HoldsAt Q f) : HoldsAt Q f.releaseSlot := by
  unfold Frame.releaseSlot
  split
  · exact h
  · next b _ =>
    split
    · exact h
    · exact hkept.released _ _ _ b h

theorem KeptByCalls.finish (hkept : KeptByCalls Given Q) (h : HoldsAt Q f) : HoldsAt Q (finish f) := by
  have hread : HoldsAt Q f.readClock := h
  have hlogged : HoldsAt Q (logAccess f.readClock) := by
    unfold logAccess
    split
    · exact hkept.log hread trivial
    · exact hread
  exact hkept.releaseSlot hlogged

theorem KeptByCalls.abandonBackend (hkept : KeptByCalls Given Q) (h : HoldsAt Q f) :
    HoldsAt Q (abandonBackend f) := by
  apply (hkept.releaseSlot h).congr
  · rw [LoadBalancer.abandonBackend, noteTried_router, closeBackend_router]
  · rw [LoadBalancer.abandonBackend, noteTried_io, closeBackend_io]
  · rw [LoadBalancer.abandonBackend, noteTried_trace, closeBackend_trace]

theorem KeptByCalls.sendError (hkept : KeptByCalls Given Q) (h : HoldsAt Q f) (code : Nat)
    (reason : String) : (sendError code reason f).Post (HoldsAt Q) (HoldsAt Q) := by
  have hsent : ∀ bytes, HoldsAt Q (f.log (.errorSent code reason bytes)) := fun _ => hkept.log h trivial
  unfold LoadBalancer.sendError
  split
  · exact hkept.finish (hsent _)
  · exact hkept.finish (hsent _)
  · exact hsent _

theorem KeptByCalls.failover (hkept : KeptByCalls Given Q) :
    (∀ b f, HoldsAt Q f ∧ Given b → (initiateBackendConnect cfg b f).Post (HoldsAt Q) (HoldsAt Q)) ∧
    ∀ f, HoldsAt Q f → (failBackend cfg f).Post (HoldsAt Q) (HoldsAt Q) := by
  have hbegin : ∀ {f : Frame}, HoldsAt Q f → HoldsAt Q (beginConnect cfg f) := fun {f} h =>
    HoldsAt.refreshDeadline (f := f.setState .connectingToBackend) h
  have hopen : ∀ {b : Backend} {f : Frame} (fd), HoldsAt Q f → Given b →
      HoldsAt Q (openBackendSock b fd (beginConnect cfg f)) := fun fd h hb =>
    hkept.connected _ _ _ _ _ hb (hbegin h)
  apply failover_post
  case noSocket => exact fun b f h _ => hbegin h.1
  case raises => exact fun b f fd h _ => hopen fd h.1 h.2
  case connected =>
    intro b f fd h _
    exact HoldsAt.refreshDeadline
      (f := (openBackendSock b fd (beginConnect cfg f)).setState .forwardingRequest) (hopen fd h.1 h.2)
  case inProgress => exact fun b f fd err h _ _ => hopen fd h.1 h.2
  case refused => exact fun b f fd err h _ _ _ => hopen fd h.1 h.2
  case retry =>
    intro b f h _ picked hpicked
    obtain ⟨hgiven, hheld⟩ := hkept.nextBackend (hkept.abandonBackend h) _
    exact ⟨hheld, hgiven b hpicked⟩
  case giveUp =>
    rintro f f' h (rfl | ⟨-, rfl⟩)
    · exact hkept.sendError (hkept.abandonBackend h) 502 _
    · exact hkept.sendError (hkept.nextBackend (hkept.abandonBackend h) _).2 502 _

theorem KeptByCalls.handleClientReadable (hkept : KeptByCalls Given Q) (h : HoldsAt Q f) :
    (handleClientReadable cfg f).Post (HoldsAt Q) (HoldsAt Q) := by
  have hgrown : ∀ bytes, HoldsAt Q (receiveRequest cfg bytes f) := fun bytes =>
    HoldsAt.refreshDeadline (f := f.update fun c => { c with requestBuf := c.requestBuf ++ bytes }) h
  apply handleClientReadable_post
  case ignored => exact fun _ => h
  case blocked => exact fun _ _ => h
  case gone => exact fun _ _ => h
  case raises => exact fun _ _ => h
  case tooLarge => exact fun bytes _ _ _ _ => hkept.sendError (hgrown bytes) 413 _
  case incomplete => exact fun bytes _ _ _ _ => hgrown bytes
  case complete =>
    intro bytes req _ _ _ _
    have hpicked := hkept.nextBackend (f := storeRequest req (receiveRequest cfg bytes f)) (hgrown bytes) none
    apply routeRequest_post
    case unavailable => exact fun _ => hkept.sendError hpicked.2 503 _
    case routed => exact fun b hb => hkept.failover.1 b _ ⟨hpicked.2, hpicked.1 b hb⟩

theorem KeptByCalls.forwardRequest (hkept : KeptByCalls Given Q) (h : HoldsAt Q f) :
    (forwardRequest cfg f).Post (HoldsAt Q) (HoldsAt Q) := by
  have hsent : ∀ accepted, HoldsAt Q (recordForwarded cfg accepted f) := by
    intro accepted
    have hlogged : HoldsAt Q (f.log (.backendSent accepted)) := hkept.log h trivial
    unfold recordForwarded
    dsimp only
    split
    · exact hlogged
    · exact hlogged.refreshDeadline
  apply forwardRequest_post
  case blocked => exact fun _ => h
  case broken => exact fun _ => hkept.failover.2 f h
  case raises => exact fun _ => h
  case sentAll =>
    intro _ accepted _ _ _
    exact HoldsAt.refreshDeadline (f := (recordForwarded cfg accepted f).setState .readingResponse)
      (hsent accepted)
  case sentSome => exact fun _ accepted _ _ _ => hsent accepted

theorem KeptByCalls.handleBackendWritable (hkept : KeptByCalls Given Q) (h : HoldsAt Q f) :
    (handleBackendWritable cfg f).Post (HoldsAt Q) (HoldsAt Q) := by
  apply handleBackendWritable_post
  case ignored => exact fun _ _ => h
  case raises => exact fun _ _ => h
  case refused => exact fun _ _ _ _ => hkept.failover.2 f h
  case connected =>
    exact fun _ _ => hkept.forwardRequest (HoldsAt.refreshDeadline (f := f.setState .forwardingRequest) h)
  case forwarding => exact fun _ => hkept.forwardRequest h

theorem KeptByCalls.handleBackendReadable (hkept : KeptByCalls Given Q) (h : HoldsAt Q f) :
    (handleBackendReadable cfg f).Post (HoldsAt Q) (HoldsAt Q) := by
  have hlogged : ∀ bytes, HoldsAt Q (f.log (.backendReceived bytes)) := fun _ => hkept.log h trivial
  have hrelay : ∀ {f : Frame}, HoldsAt Q f → HoldsAt Q (prepareRelay cfg f) := fun {f} h =>
    HoldsAt.refreshDeadline (f := f.update fun c =>
      { c with relayBuf := c.responseBuf, relayOffset := 0, state := .forwardingResponse }) h
  apply handleBackendReadable_post
  case ignored => exact fun _ => h
  case blocked => exact fun _ _ => h
  case broken => exact fun _ _ => hkept.failover.2 f h
  case raises => exact fun _ _ => h
  case closed =>
    intro _ _
    apply backendClosed_post
    case cutOff => exact fun _ _ => hkept.failover.2 _ (hlogged [])
    case relay => exact hrelay (hlogged [])
  case received =>
    intro bytes _ _ _
    have hgrown : HoldsAt Q (receiveResponse cfg bytes (f.log (.backendReceived bytes))) :=
      HoldsAt.refreshDeadline (f := (f.log (.backendReceived bytes)).update fun c =>
        { c with responseBuf := c.responseBuf ++ bytes }) (hlogged bytes)
    apply checkComplete_post
    case stay => exact fun _ => hgrown
    case relay => exact fun _ _ _ => hrelay hgrown

theorem KeptByCalls.handleClientWritable (hkept : KeptByCalls Given Q) (h : HoldsAt Q f) :
    (handleClientWritable cfg f).Post (HoldsAt Q) (HoldsAt Q) := by
  have hsent : ∀ accepted, HoldsAt Q (recordRelayed cfg accepted f) := by
    intro accepted
    have hlogged : HoldsAt Q (f.log (.clientSent accepted)) := hkept.log h trivial
    unfold recordRelayed
    dsimp only
    split
    · exact hlogged
    · exact HoldsAt.refreshDeadline
        (f := (f.log (.clientSent accepted)).update fun c => { c with clientBytesSent := true }) hlogged
  apply handleClientWritable_post
  case ignored => exact fun _ => h
  case blocked => exact fun _ _ => h
  case gone => exact fun _ _ => h
  case raises => exact fun _ _ => h
  case sentAll => exact fun _ accepted _ _ _ _ => hkept.finish (hsent accepted)
  case sentSome => exact fun _ accepted _ _ _ _ => hsent accepted

/-- **The rule for one handler.** -/
theorem KeptByCalls.handle (hkept : KeptByCalls Given Q) (c : Call) (h : HoldsAt Q f) :
    (handle cfg c f).Post (HoldsAt Q) (HoldsAt Q) := by
  cases c with
  | timeout =>
      apply handleTimeout_post
      case ended => exact fun _ => h
      case idle => exact fun _ => hkept.sendError h 408 _
      case relaying => exact fun _ _ => hkept.releaseSlot h
      case unanswered => exact fun _ _ => hkept.sendError h 504 _
  | clientReadable => exact hkept.handleClientReadable h
  | clientWritable => exact hkept.handleClientWritable h
  | backendReadable => exact hkept.handleBackendReadable h
  | backendWritable => exact hkept.handleBackendWritable h

end Handlers

/-! ### Runs -/

namespace Fleet

variable {cfg : Config} {w w' : Fleet} {events : List Event}

/-- What the connection with the given index has done, nothing if there is none yet. -/
def traceOf (w : Fleet) (i : Nat) : List Action := (w.sessions[i]?.map Session.trace).getD []

theorem traceOf_of_some {i : Nat} {s : Session} (hs : w.sessions[i]? = some s) : w.traceOf i = s.trace := by
  rw [traceOf, hs]
  rfl

theorem traceOf_modify (w : Fleet) (i j : Nat) (change : Session → Session)
    (hchange : ∀ s, (change s).trace = s.trace) :
    traceOf { w with sessions := w.sessions.modify i change } j = w.traceOf j := by
  rw [traceOf, traceOf, List.getElem?_modify]
  cases w.sessions[j]? with
  | none => rfl
  | some s =>
      by_cases hij : i = j
      · simp [hij, hchange]
      · simp [hij]

theorem traceOf_accept (w : Fleet) (fd : Nat) (addr : Bytes × Nat) (clock : List Time) (i : Nat) :
    (w.accept cfg fd addr clock).traceOf i = w.traceOf i := by
  rw [traceOf, traceOf, accept]
  dsimp only
  rcases Nat.lt_trichotomy i w.sessions.length with hlt | heq | hgt
  · rw [List.getElem?_append_left hlt]
  · subst heq
    simp
  · rw [List.getElem?_append_right hgt.le, List.getElem?_eq_none hgt.le, List.getElem?_eq_none]
    exact Nat.sub_pos_of_lt hgt

theorem traceOf_put_ne {i j : Nat} (hij : i ≠ j) (f : Frame) : (w.put i f).traceOf j = w.traceOf j := by
  rw [traceOf, getElem?_put_ne hij, traceOf]

/-- What the health checker does at the event, or while it takes place, are marks of the given kind. -/
def Event.MarksOnly (M : Mark → Prop) : Event → Prop
  | .mark m => M m
  | .call _ _ io => ∀ ms ∈ io.marks, ∀ m ∈ ms, M m
  | _ => True

/-- **The rule for runs.** `R` is said of the router, `M` of the marks and `T` of what each connection has
done. -/
theorem calls_invariant {Given : Backend → Prop} {R : Router → Prop} {M : Mark → Prop}
    {T : Nat → List Action → Prop}
    (hkept : ∀ i, KeptByCalls Given fun router marks trace =>
      R router ∧ (∀ ms ∈ marks, ∀ m ∈ ms, M m) ∧ T i trace)
    (hmark : ∀ router m, M m → R router → R (Router.mark m router)) (hrouter : R w.router)
    (htraces : ∀ i, T i (w.traceOf i)) (hevents : ∀ e ∈ events, e.MarksOnly M)
    (hrun : Machine.run (step cfg) w events = some w') : R w'.router ∧ ∀ i, T i (w'.traceOf i) := by
  refine Machine.run_invariant_of_guarded (fun w => R w.router ∧ ∀ i, T i (w.traceOf i)) ?_
    ⟨hrouter, htraces⟩ (Machine.guarded_of_mem (fun e he _ => hevents e he) _) hrun
  intro w e w' ⟨hrouter, htraces⟩ he hstep
  cases e with
  | accept fd addr clock =>
      obtain rfl := Option.some.inj hstep
      refine ⟨hrouter, fun i => ?_⟩
      rw [traceOf_accept]
      exact htraces i
  | call i c io =>
      obtain ⟨s, f, hs, hends, rfl⟩ := step_call_cases hstep
      have hframe : HoldsAt (fun router marks trace =>
          R router ∧ (∀ ms ∈ marks, ∀ m ∈ ms, M m) ∧ T i trace) (w.frame s io) := by
        refine ⟨hrouter, he, ?_⟩
        have htrace := htraces i
        rwa [traceOf_of_some hs] at htrace
      have hafter := hends.of_post (P := HoldsAt _)
        (((hkept i).handle c hframe).mono (fun _ h => h) fun _ h => h)
      refine ⟨hafter.1, fun j => ?_⟩
      by_cases hij : i = j
      · subst hij
        rw [traceOf_of_some (getElem?_put_self hs f)]
        exact hafter.2.2
      · rw [traceOf_put_ne hij]
        exact htraces j
  | abort i =>
      obtain rfl := Option.some.inj hstep
      have hsame : ∀ j, (w.markDone i).traceOf j = w.traceOf j := fun j =>
        traceOf_modify w i j Session.markDone fun _ => rfl
      refine ⟨hrouter, fun j => ?_⟩
      rw [hsame]
      exact htraces j
  | unregistered i =>
      obtain rfl := Option.some.inj hstep
      have hsame : ∀ j, (w.clearPending i).traceOf j = w.traceOf j := fun j =>
        traceOf_modify w i j Session.clearPending fun _ => rfl
      refine ⟨hrouter, fun j => ?_⟩
      rw [hsame]
      exact htraces j
  | mark m =>
      obtain rfl := Option.some.inj hstep
      exact ⟨hmark _ m he hrouter, htraces⟩
  | _ =>
      obtain rfl := Option.some.inj hstep
      exact ⟨hrouter, htraces⟩

/-- The rule for a property of the router alone. -/
theorem router_invariant (R : Router → Prop) (hmark : ∀ router m, R router → R (Router.mark m router))
    (hnext : ∀ router exclude, R router → R (Router.nextBackend exclude router).2)
    (hrelease : ∀ router b, R router → R (Router.onDisconnect b router)) (hrouter : R w.router)
    (hrun : Machine.run (step cfg) w events = some w') : R w'.router := by
  have hawaited : ∀ marks router, R router → R (awaited marks router) := fun marks router h =>
    awaited_induction (M := fun _ => True) (fun router m _ h => hmark router m h) h fun _ _ _ _ => trivial
  have hkept : ∀ _ : Nat, KeptByCalls (fun _ => True) fun router marks _ =>
      R router ∧ (∀ ms ∈ marks, ∀ m ∈ ms, True) ∧ True := fun _ =>
    { picked := fun router marks _ exclude h =>
        ⟨fun _ _ => trivial, hnext _ exclude (hawaited marks router h.1), fun _ _ _ _ => trivial, trivial⟩
      released := fun router marks _ b h =>
        ⟨hrelease _ b (hawaited marks router h.1), fun _ _ _ _ => trivial, trivial⟩
      connected := fun _ _ _ _ _ _ h => h
      plain := fun _ _ _ _ _ h => h }
  have hany : ∀ e ∈ events, e.MarksOnly fun _ => True := by
    intro e _
    cases e with
    | call i c io => exact fun _ _ _ _ => trivial
    | _ => trivial
  exact (calls_invariant (T := fun _ _ => True) hkept (fun router m _ h => hmark router m h) hrouter
    (fun _ => trivial) hany hrun).1

end Fleet

end LoadBalancer
