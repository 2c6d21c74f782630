import LoadBalancer.Connection
import LoadBalancer.Machine

/-! Any number of connections that share one router and one table of sockets. A step is one handler
call on one of them, the creation of a connection, a call of the health-checker thread, or what the
reactor does between two calls; an exception that escapes a handler becomes the state `DONE`. -/

namespace LoadBalancer

/-- A connection and what it has done so far. -/
structure Session where
  conn : ProxyConnection
  trace : List Action

def Session.markDone (s : Session) : Session := { s with conn := { s.conn with state := .done } }

/-- `conn.pending_backend_unregister = None` -/
def Session.clearPending (s : Session) : Session :=
  { s with conn := { s.conn with pendingBackendUnregister := none } }

structure Fleet where
  router : Router
  os : Os
  now : Time
  sessions : List Session

namespace Fleet

inductive Event where
  /-- A connection is created for a client socket with the given number and address. -/
  | accept (fd : Nat) (addr : Bytes × Nat) (clock : List Time)
  /-- A handler call on the connection with the given index. -/
  | call (i : Nat) (c : Call) (io : Io)
  /-- The reactor gives the connection up: an exception escaped outside a handler. -/
  | abort (i : Nat)
  | mark (m : Mark)
  /-- The reactor reads the clock. -/
  | tick (reading : Time)
  /-- The reactor closes sockets or changes what `epoll` watches. -/
  | sockets (os : Os)
  /-- The reactor has unregistered the socket a failed backend left behind. -/
  | unregistered (i : Nat)

def frame (w : Fleet) (s : Session) (io : Io) : Frame := ⟨s.conn, s.trace, w.router, w.os, w.now, io⟩

def put (w : Fleet) (i : Nat) (f : Frame) : Fleet where
  router := f.router
  os := f.os
  now := f.now
  sessions := w.sessions.set i ⟨f.conn, f.trace⟩

def markDone (w : Fleet) (i : Nat) : Fleet :=
  { w with sessions := w.sessions.modify i Session.markDone }

def clearPending (w : Fleet) (i : Nat) : Fleet :=
  { w with sessions := w.sessions.modify i Session.clearPending }

/-- A reading of `time.monotonic()`. -/
def tick (w : Fleet) (reading : Time) : Fleet := { w with now := max w.now reading }

section Step

variable (cfg : Config)

/-- A handler call on a connection; without such a connection there is nothing to call. -/
def call (w : Fleet) (i : Nat) (c : Call) (io : Io) : Outcome Fleet :=
  match w.sessions[i]? with
  | none => .hung
  | some s => (handle cfg c (w.frame s io)).map (w.put i)

def accept (w : Fleet) (fd : Nat) (addr : Bytes × Nat) (clock : List Time) : Fleet :=
  let startTime := max w.now (clock.headD w.now)
  let readAt := max startTime (clock.tail.headD startTime)
  { w with
    os := w.os.openSock fd
    now := readAt
    sessions := w.sessions ++ [⟨.init cfg (w.os.newSock fd) addr startTime readAt, []⟩] }

def step (w : Fleet) : Event → Option Fleet
  | .accept fd addr clock => some (w.accept cfg fd addr clock)
  | .call i c io =>
      match w.call cfg i c io with
      | .returned w' => some w'
      | .raised w' => some (w'.markDone i)
      | .hung => none
  | .abort i => some (w.markDone i)
  | .mark m => some { w with router := w.router.mark m }
  | .tick reading => some (w.tick reading)
  | .sockets os => some { w with os := os }
  | .unregistered i => some (w.clearPending i)

/-- A fleet without connections. -/
def init (router : Router) : Fleet where
  router := router
  os := Os.init
  now := 0
  sessions := []

/-! ### What a step does to each connection -/

variable {cfg : Config}

theorem call_eq_of_getElem? {w : Fleet} {i : Nat} {s : Session} (h : w.sessions[i]? = some s)
    (c : Call) (io : Io) : w.call cfg i c io = (handle cfg c (w.frame s io)).map (w.put i) := by
  rw [call, h]

theorem markDone_put (w : Fleet) (i : Nat) (f : Frame) :
    (w.put i f).markDone i = w.put i (f.setState .done) := by
  have hsessions : (w.sessions.set i ⟨f.conn, f.trace⟩).modify i Session.markDone =
      w.sessions.set i (Session.markDone ⟨f.conn, f.trace⟩) := by
    apply List.ext_getElem?
    intro j
    rw [List.getElem?_modify, List.getElem?_set, List.getElem?_set]
    by_cases hij : i = j
    · by_cases hlt : j < w.sessions.length <;> simp [hij, hlt]
    · simp [hij]
  simp only [markDone, put, hsessions]
  rfl

/-- The frame in which a call leaves its connection, the escape of an exception being turned into the
state `DONE`. -/
def Ends (o : Outcome Frame) (f : Frame) : Prop :=
  o = .returned f ∨ ∃ f₀, o = .raised f₀ ∧ f = f₀.setState .done

theorem Ends.of_post {o : Outcome Frame} {f : Frame} (h : Ends o f) {P : Frame → Prop}
    (hpost : o.Post P fun f => P (f.setState .done)) : P f := by
  rcases h with rfl | ⟨f₀, rfl, rfl⟩
  · exact hpost
  · exact hpost

/-- A handler call that ends puts the frame it ends in back in its place. -/
theorem step_call_cases {w w' : Fleet} {i : Nat} {c : Call} {io : Io}
    (h : step cfg w (.call i c io) = some w') :
    ∃ s f, w.sessions[i]? = some s ∧ Ends (handle cfg c (w.frame s io)) f ∧ w' = w.put i f := by
  cases hs : w.sessions[i]? with
  | none => simp [step, call, hs] at h
  | some s =>
      rw [step, call_eq_of_getElem? hs] at h
      cases hhandle : handle cfg c (w.frame s io) with
      | returned f =>
          rw [hhandle] at h
          exact ⟨s, f, rfl, Or.inl hhandle, (Option.some.inj h).symm⟩
      | raised f =>
          rw [hhandle] at h
          exact ⟨s, f.setState .done, rfl, Or.inr ⟨f, hhandle, rfl⟩,
            (Option.some.inj h).symm.trans (markDone_put w i f)⟩
      | hung =>
          rw [hhandle] at h
          cases h

/-- The state of one connection, with its trace, as part of a frame. -/
def sessionOf (f : Frame) : Session := ⟨f.conn, f.trace⟩

theorem getElem?_put_self {w : Fleet} {i : Nat} {s : Session} (hs : w.sessions[i]? = some s) (f : Frame) :
    (w.put i f).sessions[i]? = some (sessionOf f) := by
  obtain ⟨hlt, -⟩ := List.getElem?_eq_some_iff.mp hs
  simp [put, hlt, sessionOf]

theorem eq_sessionOf_of_put {w : Fleet} {i : Nat} {s t : Session} {f : Frame}
    (hs : w.sessions[i]? = some s) (ht : (w.put i f).sessions[i]? = some t) : t = sessionOf f := by
  rw [getElem?_put_self hs f] at ht
  exact (Option.some.inj ht).symm

theorem getElem?_put_ne {w : Fleet} {i j : Nat} (hij : j ≠ i) (f : Frame) :
    (w.put j f).sessions[i]? = w.sessions[i]? := by
  simp [put, hij]

theorem getElem?_modify_of_some {sessions : List Session} {i j : Nat} {s : Session}
    (hs : sessions[i]? = some s) (change : Session → Session) :
    (sessions.modify j change)[i]? = some (if j = i then change s else s) := by
  rw [List.getElem?_modify, hs]
  split <;> rfl

/-- A frame that is put back as it was changes nothing. -/
theorem put_frame {w : Fleet} {i : Nat} {s : Session} (hs : w.sessions[i]? = some s) (io : Io) :
    w.put i (w.frame s io) = w := by
  have hsessions : w.sessions.set i s = w.sessions := by
    apply List.ext_getElem?
    intro j
    by_cases hij : i = j
    · subst hij
      rw [List.getElem?_set_self (List.getElem?_eq_some_iff.mp hs).1, hs]
    · rw [List.getElem?_set_ne hij]
  exact congrArg (fun sessions => { w with sessions := sessions }) hsessions

/-- A call on a connection that returns gives its frame back to its place. -/
theorem step_call_of_returned {w : Fleet} {i : Nat} {s : Session} (hs : w.sessions[i]? = some s)
    {c : Call} {io : Io} {f : Frame} (h : handle cfg c (w.frame s io) = .returned f) :
    step cfg w (.call i c io) = some (w.put i f) := by
  rw [step, call_eq_of_getElem? hs, h]
  rfl

/-- What an event makes of the connection with the given index. -/
inductive Becomes (cfg : Config) (w : Fleet) (i : Nat) (s : Session) : Event → Session → Prop where
  | called {c : Call} {io : Io} {f : Frame} (ends : Ends (handle cfg c (w.frame s io)) f) :
      Becomes cfg w i s (.call i c io) (sessionOf f)
  | aborted : Becomes cfg w i s (.abort i) s.markDone
  | unregistered : Becomes cfg w i s (.unregistered i) s.clearPending
  | kept {e : Event} (hcall : ∀ c io, e ≠ .call i c io) (habort : e ≠ .abort i) : Becomes cfg w i s e s

/-- A step keeps every connection in its place. -/
theorem becomes_of_step {w w' : Fleet} {i : Nat} {s : Session} {e : Event} (hs : w.sessions[i]? = some s)
    (hstep : step cfg w e = some w') : ∃ s', w'.sessions[i]? = some s' ∧ Becomes cfg w i s e s' := by
  cases e with
  | accept fd addr clock =>
      obtain rfl := Option.some.inj hstep
      obtain ⟨hlt, -⟩ := List.getElem?_eq_some_iff.mp hs
      refine ⟨s, ?_, .kept (fun _ _ => Event.noConfusion) Event.noConfusion⟩
      rw [accept, List.getElem?_append_left hlt, hs]
  | call j c io =>
      obtain ⟨s₀, f, hs₀, hends, rfl⟩ := step_call_cases hstep
      by_cases hij : j = i
      · subst hij
        obtain rfl := Option.some.inj (hs.symm.trans hs₀)
        exact ⟨sessionOf f, getElem?_put_self hs f, .called hends⟩
      · refine ⟨s, (getElem?_put_ne hij f).trans hs, .kept (fun c' io' heq => ?_) Event.noConfusion⟩
        injection heq with hj
        exact hij hj
  | abort j =>
      obtain rfl := Option.some.inj hstep
      refine ⟨_, getElem?_modify_of_some hs Session.markDone, ?_⟩
      by_cases hij : j = i
      · subst hij
        rw [if_pos rfl]
        exact .aborted
      · rw [if_neg hij]
        refine .kept (fun _ _ => Event.noConfusion) fun heq => hij ?_
        injection heq
  | mark m =>
      obtain rfl := Option.some.inj hstep
      exact ⟨s, hs, .kept (fun _ _ => Event.noConfusion) Event.noConfusion⟩
  | tick reading =>
      obtain rfl := Option.some.inj hstep
      exact ⟨s, hs, .kept (fun _ _ => Event.noConfusion) Event.noConfusion⟩
  | sockets os =>
      obtain rfl := Option.some.inj hstep
      exact ⟨s, hs, .kept (fun _ _ => Event.noConfusion) Event.noConfusion⟩
  | unregistered j =>
      obtain rfl := Option.some.inj hstep
      refine ⟨_, getElem?_modify_of_some hs Session.clearPending, ?_⟩
      by_cases hij : j = i
      · subst hij
        rw [if_pos rfl]
        exact .unregistered
      · rw [if_neg hij]
        exact .kept (fun _ _ => Event.noConfusion) Event.noConfusion

theorem mem_modify {sessions : List Session} {i : Nat} {change : Session → Session} {s : Session}
    (hs : s ∈ sessions.modify i change) :
    s ∈ sessions ∨ ∃ s₀, sessions[i]? = some s₀ ∧ s = change s₀ := by
  obtain ⟨j, hj⟩ := List.mem_iff_getElem?.mp hs
  rw [List.getElem?_modify, Option.map_eq_map, Option.map_eq_some_iff] at hj
  obtain ⟨s₀, hs₀, rfl⟩ := hj
  split
  · next hij =>
    subst hij
    exact Or.inr ⟨s₀, hs₀, rfl⟩
  · exact Or.inl (List.mem_of_getElem? hs₀)

/-- The step meets a guard on handler calls, and gives up no connection that fails a second guard. -/
def Meets (G : ProxyConnection → Call → Io → Prop) (A : ProxyConnection → Prop) (w : Fleet) :
    Event → Prop
  | .call i c io => ∀ s, w.sessions[i]? = some s → G s.conn c io
  | .abort i => ∀ s, w.sessions[i]? = some s → A s.conn
  | _ => True

/-- A property of single connections that holds of new ones, that every handler call meeting the guard
keeps, and that giving a connection up keeps, holds of every connection after every run whose steps
meet the guards. -/
theorem session_invariant_of_guarded (P : Session → Prop) {G : ProxyConnection → Call → Io → Prop}
    {A : ProxyConnection → Prop} (hinit : ∀ sock addr t t', P ⟨.init cfg sock addr t t', []⟩)
    (hcall : ∀ c f, P (sessionOf f) → G f.conn c f.io →
      (handle cfg c f).Post (fun f' => P (sessionOf f')) fun f' => P (sessionOf (f'.setState .done)))
    (habort : ∀ s, P s → A s.conn → P s.markDone) (hclear : ∀ s, P s → P s.clearPending)
    {w w' : Fleet} {events : List Event}
    (hw : ∀ s ∈ w.sessions, P s) (hguard : Machine.Guarded (step cfg) (Meets G A) w events)
    (hrun : Machine.run (step cfg) w events = some w') : ∀ s ∈ w'.sessions, P s := by
  refine Machine.run_invariant_of_guarded (fun w => ∀ s ∈ w.sessions, P s) ?_ hw hguard hrun
  intro w e w' hw hG hstep s hs
  cases e with
  | accept fd addr clock =>
      obtain rfl := Option.some.inj hstep
      rcases List.mem_append.mp hs with hs | hs
      · exact hw s hs
      · rw [List.mem_singleton.mp hs]
        exact hinit _ _ _ _
  | call i c io =>
      obtain ⟨s₀, f, hs₀, hends, rfl⟩ := step_call_cases hstep
      rcases List.mem_or_eq_of_mem_set hs with hs | rfl
      · exact hw s hs
      · exact hends.of_post (P := fun f => P (sessionOf f))
          (hcall c (w.frame s₀ io) (hw s₀ (List.mem_of_getElem? hs₀)) (hG s₀ hs₀))
  | abort i =>
      obtain rfl := Option.some.inj hstep
      rcases mem_modify hs with hs | ⟨s₀, hs₀, rfl⟩
      · exact hw s hs
      · exact habort s₀ (hw s₀ (List.mem_of_getElem? hs₀)) (hG s₀ hs₀)
  | mark m =>
      obtain rfl := Option.some.inj hstep
      exact hw s hs
  | tick reading =>
      obtain rfl := Option.some.inj hstep
      exact hw s hs
  | sockets os =>
      obtain rfl := Option.some.inj hstep
      exact hw s hs
  | unregistered i =>
      obtain rfl := Option.some.inj hstep
      rcases mem_modify hs with hs | ⟨s₀, hs₀, rfl⟩
      · exact hw s hs
      · exact hclear s₀ (hw s₀ (List.mem_of_getElem? hs₀))

/-- The rule for all runs: no guard. -/
theorem session_invariant (P : Session → Prop)
    (hinit : ∀ sock addr t t', P ⟨.init cfg sock addr t t', []⟩)
    (hcall : ∀ c f, P (sessionOf f) →
      (handle cfg c f).Post (fun f' => P (sessionOf f')) fun f' => P (sessionOf (f'.setState .done)))
    (habort : ∀ s, P s → P s.markDone) (hclear : ∀ s, P s → P s.clearPending)
    {w w' : Fleet} {events : List Event} (hw : ∀ s ∈ w.sessions, P s)
    (hrun : Machine.run (step cfg) w events = some w') : ∀ s ∈ w'.sessions, P s := by
  refine Machine.run_invariant (fun w => ∀ s ∈ w.sessions, P s) ?_ hw hrun
  intro w e w' hw hstep
  have hguard : Machine.Guarded (step cfg) (Meets (fun _ _ _ => True) fun _ => True) w [e] :=
    ⟨by cases e <;> simp [Meets], fun _ _ => trivial⟩
  refine session_invariant_of_guarded P hinit (fun c f h _ => hcall c f h) (fun s h _ => habort s h)
    hclear hw hguard (Machine.run_cons_eq_some.mpr ⟨w', hstep, rfl⟩)

/-- A property that holds of one connection and that every event on it keeps holds of it ever after. -/
theorem session_keeps (P : Session → Prop)
    (hcall : ∀ c f, P (sessionOf f) →
      (handle cfg c f).Post (fun f' => P (sessionOf f')) fun f' => P (sessionOf (f'.setState .done)))
    (habort : ∀ s, P s → P s.markDone) (hclear : ∀ s, P s → P s.clearPending)
    {w w' : Fleet} {i : Nat} {s : Session} {events : List Event} (hs : w.sessions[i]? = some s) (hP : P s)
    (hrun : Machine.run (step cfg) w events = some w') : ∃ s', w'.sessions[i]? = some s' ∧ P s' := by
  refine Machine.run_invariant (fun w => ∃ s, w.sessions[i]? = some s ∧ P s) ?_ ⟨s, hs, hP⟩ hrun
  rintro w e w' ⟨s, hs, hP⟩ hstep
  obtain ⟨s', hs', hbecomes⟩ := becomes_of_step hs hstep
  refine ⟨s', hs', ?_⟩
  cases hbecomes with
  | called hends =>
      exact hends.of_post (P := fun f => P (sessionOf f)) (hcall _ (w.frame s _) hP)
  | aborted => exact habort s hP
  | unregistered => exact hclear s hP
  | kept => exact hP

end Step

/-! ### A run with one request -/

/-- The answers during a call in which the client and the backend do nothing. -/
def quiet : Io where
  recv := .blocked
  send := .blocked
  sendall := .sent
  soError := .errno 0
  connect := fun _ => .errno 9 0
  clock := []
  marks := []

def localBackend : Backend := ⟨"127.0.0.1", 9001⟩

def twoBackends : Router := .roundRobin (.init [localBackend, ⟨"127.0.0.1", 9002⟩])

/-- A client sends a request, the backend accepts the connection at once and answers, and the first
`send` of the response to the client ends as given. -/
def oneRequest (answer : SendResult) : List Event :=
  [.accept 7 (PyText.ascii "10.0.0.1", 50000) [],
    .call 0 .clientReadable { quiet with recv := .data (PyText.ascii "GET / HTTP/1.1\r\n\r\n") },
    .call 0 .backendWritable { quiet with send := .sent 4096 },
    .call 0 .backendReadable
      { quiet with recv := .data (PyText.ascii "HTTP/1.1 200 OK\r\nContent-Length: 0\r\n\r\n") },
    .call 0 .clientWritable { quiet with send := answer }]

end Fleet

end LoadBalancer
