import LoadBalancer.Accounting
import LoadBalancer.Quarantine

/-! Where requests go in the running system: to configured backends only; and with the least-connections
router, each new request to a healthy backend that no other healthy backend has fewer connections than. -/

namespace LoadBalancer

open Outcome

/-- The mark is that of a listed backend, as those of the health checker are. -/
def Mark.OnListed (backends : List Backend) : Mark → Prop
  | .healthy b | .unhealthy b => b ∈ backends

namespace Router

variable {r : Router} {backends : List Backend}

/-- Only listed backends are in the pool. -/
def Lists (backends : List Backend) (r : Router) : Prop := ∀ b ∈ r.getHealthyBackends, b ∈ backends

theorem Lists.mark (h : Lists backends r) {m : Mark} (hm : m.OnListed backends) :
    Lists backends (r.mark m) := by
  intro b hb
  by_contra hnot
  refine not_mem_mark (fun hmem => hnot (h b hmem)) (fun heq => ?_) hb
  rw [heq] at hm
  exact hnot hm

theorem Lists.nextBackend (h : Lists backends r) (exclude : Option (Finset Backend)) :
    Lists backends (r.nextBackend exclude).2 := by
  rw [Lists, getHealthyBackends_nextBackend]
  exact h

theorem Lists.onDisconnect (h : Lists backends r) (b : Backend) : Lists backends (r.onDisconnect b) := by
  rw [Lists, getHealthyBackends_onDisconnect]
  exact h

end Router

/-- Only listed backends have been chosen. -/
def ChoosesOnly (backends : List Backend) (trace : List Action) : Prop :=
  ∀ a ∈ trace, ∀ b, chooses b a = true → b ∈ backends

theorem ChoosesOnly.concat {backends : List Backend} {trace : List Action} (h : ChoosesOnly backends trace)
    {a : Action} (ha : ∀ b, chooses b a = true → b ∈ backends) : ChoosesOnly backends (trace ++ [a]) := by
  intro a' ha'
  rcases List.mem_append.mp ha' with ha' | ha'
  · exact h a' ha'
  · rw [List.mem_singleton.mp ha']
    exact ha

/-- The pool stays one of configured backends, and only these are chosen. -/
theorem keptByCalls_configured (backends : List Backend) :
    KeptByCalls (· ∈ backends) fun router marks trace => router.Lists backends ∧
      (∀ ms ∈ marks, ∀ m ∈ ms, m.OnListed backends) ∧ ChoosesOnly backends trace where
  picked := by
    intro router marks trace exclude ⟨hpool, hmarks, hchosen⟩ picked
    have hawaited : (awaited marks router).Lists backends :=
      awaited_induction (fun _ _ hm h => h.mark hm) hpool hmarks
    have hlisted : ∀ b, picked.1 = some b → b ∈ backends := fun b hb =>
      hawaited b (Router.mem_nextBackend hb)
    exact ⟨hlisted, hawaited.nextBackend exclude, fun ms hms => hmarks ms (List.mem_of_mem_tail hms),
      hchosen.concat fun b hb => hlisted b (of_decide_eq_true hb)⟩
  released := by
    intro router marks trace b' ⟨hpool, hmarks, hchosen⟩
    have hawaited : (awaited marks router).Lists backends :=
      awaited_induction (fun _ _ hm h => h.mark hm) hpool hmarks
    exact ⟨hawaited.onDisconnect b', fun ms hms => hmarks ms (List.mem_of_mem_tail hms),
      hchosen.concat fun b hb => absurd hb Bool.false_ne_true⟩
  connected := by
    intro router marks trace b' sock hb' ⟨hpool, hmarks, hchosen⟩
    refine ⟨hpool, hmarks, hchosen.concat fun b hb => ?_⟩
    rw [← of_decide_eq_true hb]
    exact hb'
  plain := by
    intro router marks trace a ha ⟨hpool, hmarks, hchosen⟩
    refine ⟨hpool, hmarks, hchosen.concat fun b hb => ?_⟩
    cases a with
    | nextBackend | onDisconnect | connect => cases ha
    | _ => cases hb

/-! ### The shortest queue -/

/-- What has been done is never taken back. -/
theorem keptByCalls_begins (done : List Action) :
    KeptByCalls (fun _ => True) fun _ _ trace => done <+: trace where
  picked := fun _ _ _ _ h => ⟨fun _ _ => trivial, h.trans (List.prefix_append _ _)⟩
  released := fun _ _ _ _ h => h.trans (List.prefix_append _ _)
  connected := fun _ _ _ _ _ _ h => h.trans (List.prefix_append _ _)
  plain := fun _ _ _ _ _ h => h.trans (List.prefix_append _ _)

section Handlers

variable {cfg : Config} {f : Frame}

/-- If the first thing done since `done` was to ask the router for a backend, it gave `given`. -/
def AsksFirst (done : List Action) (given : Option Backend) (f : Frame) : Prop :=
  ∀ given', done ++ [.nextBackend given'] <+: f.trace → given' = given

theorem asksFirst_of_begins {done : List Action} {given : Option Backend} {a : Action}
    (h : done ++ [a] <+: f.trace) (ha : ∀ given', a = .nextBackend given' → given' = given) :
    AsksFirst done given f := by
  intro given' h'
  have hsame : done ++ [.nextBackend given'] = done ++ [a] :=
    List.IsPrefix.eq_of_length (List.prefix_of_prefix_length_le h' h (by simp)) (by simp)
  have hlast := List.append_cancel_left hsame
  exact ha given' (List.cons.inj hlast).1.symm

theorem asksFirst_of_trace_eq {done : List Action} {given : Option Backend} (h : f.trace = done) :
    AsksFirst done given f := by
  intro given' h'
  have hlength := h'.length_le
  rw [h, List.length_append, List.length_singleton] at hlength
  omega

/-- An error that is answered comes before the rest of what is done. -/
theorem sendError_begins (code : Nat) (reason : String) (f : Frame) :
    (sendError code reason f).Post
      (fun f' => ∃ bytes, f.trace ++ [.errorSent code reason bytes] <+: f'.trace)
      fun f' => ∃ bytes, f.trace ++ [.errorSent code reason bytes] <+: f'.trace := by
  have hfinished : ∀ f₀ f' : Frame, f₀.trace = f'.trace → f'.trace <+: (finish f₀).trace := by
    intro f₀ f' htrace
    have hstart : HoldsAt (fun _ _ trace => f'.trace <+: trace) f₀ := htrace ▸ List.prefix_rfl
    exact (keptByCalls_begins f'.trace).finish hstart
  unfold sendError
  split
  · exact ⟨_, hfinished _ (f.log (.errorSent code reason (errorResponse code reason))) rfl⟩
  · next n _ => exact ⟨_, hfinished _ (f.log (.errorSent code reason ((errorResponse code reason).take n))) rfl⟩
  · exact ⟨_, List.prefix_rfl⟩

theorem handleClientReadable_asksFirst (cfg : Config) (f : Frame) :
    let picked := (awaited f.io.marks f.router).nextBackend none
    (handleClientReadable cfg f).Post (AsksFirst f.trace picked.1) (AsksFirst f.trace picked.1) := by
  intro picked
  have hgrown : ∀ bytes, (receiveRequest cfg bytes f).trace = f.trace := fun bytes =>
    refreshDeadline_trace cfg _
  apply handleClientReadable_post
  case ignored => exact fun _ => asksFirst_of_trace_eq rfl
  case blocked => exact fun _ _ => asksFirst_of_trace_eq rfl
  case gone => exact fun _ _ => asksFirst_of_trace_eq rfl
  case raises => exact fun _ _ => asksFirst_of_trace_eq rfl
  case tooLarge =>
    intro bytes _ _ _ _
    have hanswered : ∀ f' : Frame, (∃ sent, (receiveRequest cfg bytes f).trace ++
        [.errorSent 413 "Request Entity Too Large" sent] <+: f'.trace) → AsksFirst f.trace picked.1 f' := by
      intro f' ⟨sent, hprefix⟩
      rw [hgrown] at hprefix
      exact asksFirst_of_begins hprefix fun _ => Action.noConfusion
    exact (sendError_begins 413 _ _).mono hanswered hanswered
  case incomplete => exact fun bytes _ _ _ _ => asksFirst_of_trace_eq (hgrown bytes)
  case complete =>
    intro bytes req _ _ _ _
    let asking := storeRequest req (receiveRequest cfg bytes f)
    have hgiven : (asking.nextBackend none).1 = picked.1 := by
      show ((awaited (receiveRequest cfg bytes f).io.marks (receiveRequest cfg bytes f).router).nextBackend
        none).1 = picked.1
      rw [receiveRequest, refreshDeadline_marks, refreshDeadline_router]
      rfl
    have hasked : (asking.nextBackend none).2.trace = f.trace ++ [.nextBackend picked.1] := by
      rw [← hgiven, ← hgrown bytes]
      rfl
    have hkept := keptByCalls_begins (f.trace ++ [.nextBackend picked.1])
    have hfirst : ∀ f' : Frame, f.trace ++ [.nextBackend picked.1] <+: f'.trace →
        AsksFirst f.trace picked.1 f' := fun f' hprefix =>
      asksFirst_of_begins hprefix fun given' heq => (Action.nextBackend.inj heq).symm
    have hstart : HoldsAt (fun _ _ trace => f.trace ++ [.nextBackend picked.1] <+: trace)
        (asking.nextBackend none).2 := by
      rw [HoldsAt, hasked]
    have hassigned : ∀ b, HoldsAt (fun _ _ trace => f.trace ++ [.nextBackend picked.1] <+: trace)
        (assignFirst b (asking.nextBackend none).2) := fun _ => hstart
    apply routeRequest_post
    case unavailable => exact fun _ => (hkept.sendError hstart 503 _).mono hfirst hfirst
    case routed => exact fun b hb => (hkept.failover.1 b _ ⟨hassigned b, trivial⟩).mono hfirst hfirst

end Handlers

namespace Fleet

variable {cfg : Config} {w w' : Fleet} {events : List Event}

/-- **Only configured backends are used.** As long as the health checker marks the configured backends only,
as it does, no connection is given another backend or connects to one, and none is in the pool. -/
theorem configured_of_run {algorithm : String} {backends : List Backend} {router : Router}
    (hcreate : Router.create algorithm backends = some router)
    (hmarks : ∀ e ∈ events, e.MarksOnly (Mark.OnListed backends))
    (hrun : Machine.run (step cfg) (init router) events = some w) :
    (∀ b ∈ w.router.getHealthyBackends, b ∈ backends) ∧
      ∀ s ∈ w.sessions, ∀ a ∈ s.trace, ∀ b, chooses b a = true → b ∈ backends := by
  obtain ⟨hpool, htraces⟩ := calls_invariant (T := fun _ trace => ChoosesOnly backends trace)
    (fun _ => keptByCalls_configured backends) (fun _ _ hm h => h.mark hm)
    (Router.listed_create hcreate) (fun i a ha => absurd ha List.not_mem_nil) hmarks hrun
  refine ⟨hpool, fun s hs => ?_⟩
  obtain ⟨i, hi⟩ := List.mem_iff_getElem?.mp hs
  have htrace := htraces i
  rwa [traceOf_of_some hi] at htrace

/-- The heap of the router covers the pool in every state. -/
theorem covered_of_run {backends : List Backend}
    (hrun : Machine.run (step cfg) (init (.leastConnections (.init backends))) events = some w) :
    ∃ r, w.router = .leastConnections r ∧ r.Covered := by
  refine router_invariant (fun router => ∃ r, router = .leastConnections r ∧ r.Covered) ?_ ?_ ?_
    ⟨_, rfl, LeastConnectionsRouter.covered_init backends⟩ hrun
  · rintro _ m ⟨r, rfl, h⟩
    cases m with
    | healthy b => exact ⟨_, rfl, h.markHealthy b⟩
    | unhealthy b => exact ⟨_, rfl, h.perform (.markUnhealthy b)⟩
  · rintro _ exclude ⟨r, rfl, h⟩
    exact ⟨_, rfl, h.nextBackend exclude⟩
  · rintro _ b ⟨r, rfl, h⟩
    exact ⟨_, rfl, h.perform (.onDisconnect b)⟩

/-- **The shortest queue.** With the least-connections router, after every run: when a connection asks the
router for a backend for its request, it gets one exactly if the pool is not empty at that moment, and then
one of the pool to which no more connections are assigned than to any other of the pool. -/
theorem shortest_queue {backends : List Backend}
    (hrun : Machine.run (step cfg) (init (.leastConnections (.init backends))) events = some w) {i : Nat}
    {s s' : Session} (hs : w.sessions[i]? = some s) {io : Io}
    (hstep : step cfg w (.call i .clientReadable io) = some w') (hs' : w'.sessions[i]? = some s')
    {given : Option Backend} (hasked : s.trace ++ [.nextBackend given] <+: s'.trace) :
    let pool := (awaited io.marks w.router).getHealthyBackends
    (given = none ↔ pool = ∅) ∧
      ∀ b, given = some b → b ∈ pool ∧ ∀ b' ∈ pool,
        (w.sessions.countP fun s => s.conn.held = some b) ≤
          w.sessions.countP fun s => s.conn.held = some b' := by
  intro pool
  have hgiven : given = ((awaited io.marks w.router).nextBackend none).1 := by
    obtain ⟨s₀, f, hs₀, hends, rfl⟩ := step_call_cases hstep
    obtain rfl := Option.some.inj (hs.symm.trans hs₀)
    obtain rfl := eq_sessionOf_of_put hs hs'
    have hfirst : AsksFirst s.trace ((awaited io.marks w.router).nextBackend none).1 f :=
      hends.of_post (P := AsksFirst s.trace _)
        ((handleClientReadable_asksFirst cfg (w.frame s io)).mono (fun _ h => h) fun _ h => h)
    exact hfirst given hasked
  have hbalanced : Balanced False w :=
    balanced_of_run (Machine.guarded_of_forall (fun _ _ => False.elim) _ _) hrun
  -- the marks change neither the counts nor the cover
  obtain ⟨r, hr, hcovered⟩ : ∃ r, awaited io.marks w.router = .leastConnections r ∧ r.Covered := by
    refine awaited_induction (R := fun router => ∃ r, router = .leastConnections r ∧ r.Covered)
      (M := fun _ => True) ?_ (covered_of_run hrun) fun _ _ _ _ => trivial
    rintro _ m - ⟨r, rfl, h⟩
    cases m with
    | healthy b => exact ⟨_, rfl, h.markHealthy b⟩
    | unhealthy b => exact ⟨_, rfl, h.perform (.markUnhealthy b)⟩
  have hcounts : (awaited io.marks w.router).Counts fun b => (w.holders.count (some b) : Nat) :=
    hbalanced.counts.marks _
  have hload : ∀ b, r.count b = (w.sessions.countP fun s => s.conn.held = some b : Nat) := by
    intro b
    have hcount := hcounts.count_eq b
    rw [hr, count_holders_eq] at hcount
    exact hcount
  have hpool : pool = r.healthySet := congrArg Router.getHealthyBackends hr
  have hpick : given = (r.nextBackend none).1 := by rw [hgiven, hr]; rfl
  refine ⟨?_, fun b hb => ?_⟩
  · rw [hpick, hcovered.nextBackend_eq_none_iff, hpool, Finset.eq_empty_iff_forall_notMem]
    exact forall₂_congr fun b _ => iff_of_false (Finset.notMem_empty b) id
  · obtain ⟨⟨hhealthy, -, hleast⟩, -⟩ := hcovered.exists_pick (hpick.symm.trans hb)
    refine ⟨hpool ▸ hhealthy, fun b' hb' => ?_⟩
    have hle := hleast b' (hpool ▸ hb') (Finset.notMem_empty b')
    rw [hload, hload] at hle
    exact Int.ofNat_le.mp hle

/-- A client whose request the backend is working on, and a second client. -/
def twoClients : List Event :=
  [.accept 7 (PyText.ascii "10.0.0.1", 50000) [],
    .call 0 .clientReadable
      { quiet with
        recv := .data (PyText.ascii "GET / HTTP/1.1\r\n\r\n")
        connect := fun n => .errno (8 + n) 115 },
    .accept 10 (PyText.ascii "10.0.0.2", 50000) []]

/-- One backend is configured twice, and marked unhealthy once. -/
theorem configured_of_run_twoClients : ∃ w,
    Machine.run (step .default) (init (.roundRobin (.init [localBackend, localBackend])))
      (.mark (.unhealthy localBackend) :: twoClients) = some w ∧
    ∀ s ∈ w.sessions, ∀ a ∈ s.trace, ∀ b, chooses b a = true → b ∈ [localBackend, localBackend] := by
  obtain ⟨w, hrun⟩ : ∃ w, Machine.run (step .default)
      (init (.roundRobin (.init [localBackend, localBackend])))
      (.mark (.unhealthy localBackend) :: twoClients) = some w :=
    Option.isSome_iff_exists.mp (by decide +kernel)
  have hcreate : Router.create "round_robin" [localBackend, localBackend] =
      some (.roundRobin (.init [localBackend, localBackend])) := rfl
  refine ⟨w, hrun, (configured_of_run hcreate (fun e he => ?_) hrun).2⟩
  simp only [twoClients, List.mem_cons, List.not_mem_nil, or_false] at he
  rcases he with rfl | rfl | rfl | rfl
  · exact List.mem_cons_self
  · trivial
  · exact fun ms hms => absurd hms List.not_mem_nil
  · trivial

/-- The second client is sent to the other backend. -/
theorem shortest_queue_twoClients :
    let other : Backend := ⟨"127.0.0.1", 9002⟩
    let request : Event := .call 1 .clientReadable
      { quiet with
        recv := .data (PyText.ascii "GET / HTTP/1.1\r\n\r\n")
        connect := fun n => .errno (11 + n) 115 }
    ∃ w w' s s',
      Machine.run (step .default) (init (.leastConnections (.init [localBackend, other]))) twoClients =
        some w ∧
      step .default w request = some w' ∧ w.sessions[1]? = some s ∧ w'.sessions[1]? = some s' ∧
      s.trace ++ [.nextBackend (some other)] <+: s'.trace ∧
      ∀ b' ∈ (awaited [] w.router).getHealthyBackends,
        (w.sessions.countP fun s => s.conn.held = some other) ≤
          w.sessions.countP fun s => s.conn.held = some b' := by
  intro other request
  let start := init (.leastConnections (.init [localBackend, other]))
  obtain ⟨w, hrun, hview⟩ := Option.map_eq_some_iff.mp (show
    (Machine.run (step .default) start twoClients).map (fun w =>
      (w.sessions[1]?.map fun s => s.trace.length, ((step .default w request).bind fun w' =>
        w'.sessions[1]?).map fun s' => acquired (s'.trace.take 1))) =
          some (some 0, some [other]) by decide +kernel)
  obtain ⟨hbefore, hafter⟩ := Prod.mk.inj hview
  obtain ⟨s, hs, hnone⟩ := Option.map_eq_some_iff.mp hbefore
  obtain ⟨s', hreached, htaken⟩ := Option.map_eq_some_iff.mp hafter
  obtain ⟨w', hstep, hs'⟩ := Option.bind_eq_some_iff.mp hreached
  have hasked : s.trace ++ [.nextBackend (some other)] <+: s'.trace := by
    rw [List.length_eq_zero_iff.mp hnone, List.nil_append]
    cases htrace : s'.trace with
    | nil => rw [htrace] at htaken; cases htaken
    | cons a rest =>
        rw [htrace] at htaken
        cases a with
        | nextBackend given =>
            cases given with
            | none => cases htaken
            | some b =>
                obtain rfl : b = other := (List.cons.inj htaken).1
                exact List.prefix_append _ rest
        | _ => cases htaken
  exact ⟨w, w', s, s', hrun, hstep, hs, hs', hasked,
    ((shortest_queue hrun hs hstep hs' hasked).2 other rfl).2⟩

end Fleet

end LoadBalancer
