import LoadBalancer.Clocks
import LoadBalancer.Patience

/-! How long a connection can stay. A deadline is renewed before it is swept, so each comes at most one timeout
and the lag of the sweep after the one before; and deadlines are paid for with bytes. Hence the age of a
connection at work is bounded by the bytes that have moved for it. -/

namespace LoadBalancer

open Outcome Protocol

/-! ### Between two sweeps -/

namespace Fleet

/-- What holds of a connection at the time `now` when the last sweep was at `swept`: its deadline has not been
swept, and as long as no more than `lag` has gone by since, it is one of a series in which each is at most
`longest + lag` after the one before. -/
structure Paced (cfg : Config) (longest lag swept now : Time) (s : Session) : Prop extends OnClock cfg now s where
  ahead : s.conn.state ≠ .done → swept ≤ s.conn.deadline
  series : now ≤ swept + lag → s.conn.state ≠ .done →
    s.conn.deadline ≤ s.conn.startTime + s.conn.deadlineGen * (longest + lag)

/-- No timeout is negative, and none is longer than `longest`. -/
def Bounds (cfg : Config) (longest : Time) : Prop :=
  ∀ state timeout, timeoutForState cfg state = some timeout → 0 ≤ timeout ∧ timeout ≤ longest

variable {cfg : Config} {longest lag swept : Time}

theorem exists_timeoutForState (cfg : Config) {state : State} (h : state ≠ .done) :
    ∃ timeout, timeoutForState cfg state = some timeout := by
  cases state with
  | done => exact absurd rfl h
  | _ => exact ⟨_, rfl⟩

/-- A handler call renews the deadline in time or leaves it as it was. -/
theorem paced_handle (hbounds : Bounds cfg longest) (hlag : 0 ≤ lag) (c : Call) {f : Frame}
    (hswept : swept ≤ f.now) (h : Paced cfg longest lag swept f.now (sessionOf f)) :
    (handle cfg c f).Post
      (fun f' => f.now ≤ f'.now ∧ Paced cfg longest lag swept f'.now (sessionOf f'))
      fun f' => f.now ≤ f'.now ∧ Paced cfg longest lag swept f'.now (sessionOf (f'.setState .done)) := by
  have hkept : Kept cfg swept f.now f.conn.startTime f := by
    refine ⟨⟨hswept, le_rfl, rfl, h.started, h.latencies⟩, fun timeout htimeout =>
      ⟨h.due timeout htimeout, fun _ => h.ahead fun hdone => ?_⟩⟩
    rw [show f.conn.state = .done from hdone] at htimeout
    cases htimeout
  have hafter : ∀ f', Kept cfg swept f.now f.conn.startTime f' → Reactor.Advances f.conn f'.conn →
      f.now ≤ f'.now ∧ Paced cfg longest lag swept f'.now (sessionOf f') := by
    intro f' hkept' hadvances
    obtain ⟨⟨-, hlater, haccepted, hstarted, hlatencies⟩, hdue⟩ := hkept'
    refine ⟨hlater, ⟨hstarted, hlatencies, fun timeout htimeout => (hdue timeout htimeout).1⟩, ?_, ?_⟩
    · intro hwork
      obtain ⟨timeout, htimeout⟩ := exists_timeoutForState cfg hwork
      exact (hdue timeout htimeout).2 (hbounds _ _ htimeout).1
    · intro hprompt hwork
      have hbefore : f.conn.state ≠ .done := fun hdone => hwork (hadvances.done hdone)
      have hold : f.conn.deadline ≤ f.conn.startTime + f.conn.deadlineGen * (longest + lag) :=
        h.series (hlater.trans hprompt) hbefore
      show f'.conn.deadline ≤ f'.conn.startTime + f'.conn.deadlineGen * (longest + lag)
      rw [haccepted]
      rcases hadvances.gen_le.eq_or_lt with hgen | hgen
      · rw [hadvances.deadline hgen.symm, ← hgen]
        exact hold
      · obtain ⟨timeout, htimeout⟩ := exists_timeoutForState cfg hwork
        obtain ⟨hpos, hle⟩ := hbounds _ _ htimeout
        have hspan : 0 ≤ longest + lag := add_nonneg (hpos.trans hle) hlag
        have hnext : ((f.conn.deadlineGen + 1 : Nat) : Time) ≤ f'.conn.deadlineGen := Nat.cast_le.mpr hgen
        calc f'.conn.deadline ≤ f'.now + timeout := (hdue timeout htimeout).1
          _ ≤ (swept + lag) + longest := add_le_add hprompt hle
          _ ≤ (f.conn.deadline + lag) + longest := by
              have hahead : swept ≤ f.conn.deadline := h.ahead hbefore
              linarith
          _ ≤ f.conn.startTime + (f.conn.deadlineGen + 1 : Nat) * (longest + lag) := by
              push_cast
              linarith
          _ ≤ f.conn.startTime + f'.conn.deadlineGen * (longest + lag) := by
              have hmul := mul_le_mul_of_nonneg_right hnext hspan
              linarith
  have hadvances := Reactor.handle_advances cfg c (f := f) (Reactor.Advances.refl f.conn)
  exact ((handle_kept c hkept).and hadvances).mono (fun f' hf => hafter f' hf.1 hf.2)
    fun f' hf => hafter (f'.setState .done) hf.1 ⟨hf.2.toLater, fun _ => rfl⟩

/-- Between two sweeps. -/
theorem paced_of_run (hbounds : Bounds cfg longest) (hlag : 0 ≤ lag) {w w' : Fleet} {events : List Event}
    (hswept : swept ≤ w.now) (hw : ∀ s ∈ w.sessions, Paced cfg longest lag swept w.now s)
    (hrun : Machine.run (step cfg) w events = some w') :
    swept ≤ w'.now ∧ ∀ s ∈ w'.sessions, Paced cfg longest lag swept w'.now s := by
  refine timed_invariant (Paced cfg longest lag swept) swept ?_ ?_ ?_ ?_ ?_ hswept hw hrun
  · intro n n' s hle h
    exact ⟨h.toOnClock.later hle, h.ahead, fun hprompt => h.series (hle.trans hprompt)⟩
  · intro sock addr t t' hswept hle
    obtain ⟨hpos, hidle⟩ := hbounds .readingRequest _ rfl
    refine ⟨⟨hle, fun line hline => absurd hline List.not_mem_nil, fun timeout htimeout => ?_⟩, fun _ => ?_,
      fun hprompt _ => ?_⟩
    · obtain rfl := Option.some.inj htimeout
      exact le_rfl
    · exact (hswept.trans hle).trans (le_add_of_nonneg_right hpos)
    · show t' + cfg.clientIdleTimeout ≤ t + ((1 : Nat) : Time) * (longest + lag)
      rw [Nat.cast_one, one_mul]
      linarith
  · exact fun c f hswept h => paced_handle hbounds hlag c hswept h
  · intro n s h
    refine ⟨⟨h.started, h.latencies, fun timeout htimeout => ?_⟩, fun hwork => absurd rfl hwork,
      fun _ hwork => absurd rfl hwork⟩
    cases htimeout
  · exact fun n s h => ⟨⟨h.started, h.latencies, h.due⟩, h.ahead, h.series⟩

end Fleet

/-! ### An event loop that sweeps in time -/

namespace Reactor

/-- The event loop, with the time that `_expire_timeouts` read last. -/
structure Swept where
  reactor : Reactor
  swept : Time

namespace Swept

def init (router : Router) (fd : Nat) : Swept := ⟨Reactor.init router fd, 0⟩

def sweptAfter (p : Swept) : Event → Time
  | .expireTimeouts reading _ => max p.reactor.fleet.now reading
  | _ => p.swept

/-- A step after which the clock is no more than `lag` ahead of the last sweep. -/
def step (cfg : Config) (lag : Time) (p : Swept) (e : Event) : Option Swept :=
  (p.reactor.step cfg e).bind fun r =>
    if r.fleet.now ≤ p.sweptAfter e + lag then some ⟨r, p.sweptAfter e⟩ else none

/-- What holds after every step. -/
structure InTime (cfg : Config) (longest lag : Time) (p : Swept) : Prop where
  bookkept : p.reactor.Bookkept
  scheduled : Scheduled [] none p.reactor
  prompt : p.reactor.fleet.now ≤ p.swept + lag
  swept : p.swept ≤ p.reactor.fleet.now
  paced : ∀ s ∈ p.reactor.fleet.sessions, Fleet.Paced cfg longest lag p.swept p.reactor.fleet.now s

variable {cfg : Config} {longest lag : Time} {p p' : Swept} {r : Reactor}

/-- A sweep ends connections, and leaves the others as they were. -/
theorem session_of_expireTimeouts {reading : Time} {io : Nat → Io}
    (hexpire : p.reactor.expireTimeouts cfg reading io = some r) {i : Nat} {s : Session}
    (hs : r.fleet.sessions[i]? = some s) (hwork : s.conn.state ≠ .done) :
    p.reactor.fleet.sessions[i]? = some s := by
  have hkept : ∀ (j : Nat) (t : Session), r.fleet.sessions[j]? = some t →
      t.conn.state = .done ∨ p.reactor.fleet.sessions[j]? = some t := by
    refine expireTimeouts_induction (P := fun _ (r : Reactor) => ∀ (j : Nat) (t : Session),
      r.fleet.sessions[j]? = some t → t.conn.state = .done ∨ p.reactor.fleet.sessions[j]? = some t) hexpire
      (fun j t ht => Or.inr ht) ?_
    intro e rest r₁ r₂ h _ hentry j t ht
    rcases expireEntry_cases hentry with ⟨-, rfl⟩ | ⟨k, s₀, f, hvalid, hends, rfl⟩
    · exact h j t ht
    · obtain ⟨-, hs₀, -, -⟩ := validEntry?_eq_some_iff.mp hvalid
      by_cases hkj : k = j
      · subst hkj
        rw [Fleet.eq_sessionOf_of_put hs₀ ht]
        exact Or.inl (done_of_timeout hends)
      · rw [Fleet.getElem?_put_ne hkj] at ht
        exact h j t ht
  exact (hkept i s hs).resolve_left hwork

theorem InTime.expireTimeouts (h : InTime cfg longest lag p) {reading : Time} {io : Nat → Io}
    (hexpire : p.reactor.expireTimeouts cfg reading io = some r) :
    max p.reactor.fleet.now reading ≤ r.fleet.now ∧ ∀ s ∈ r.fleet.sessions,
      Fleet.Paced cfg longest lag (max p.reactor.fleet.now reading) r.fleet.now s := by
  have hticked : Reaches cfg (p.reactor.fleet.tick reading) { p.reactor with
      fleet := p.reactor.fleet.tick reading
      deadlines := (p.reactor.deadlines.popWhile fun e =>
        e.deadline ≤ max p.reactor.fleet.now reading).2 } := ⟨[], rfl⟩
  obtain ⟨events, hrun⟩ := foldlM_reaches hticked hexpire
  have hstart : ∀ s ∈ (p.reactor.fleet.tick reading).sessions,
      Fleet.OnClock cfg (p.reactor.fleet.tick reading).now s := fun s hs =>
    (h.paced s hs).toOnClock.later (le_max_left _ _)
  obtain ⟨hlater, honClock⟩ := Fleet.onClock_of_onClock le_rfl hstart hrun
  obtain ⟨hscheduled, hahead⟩ := h.scheduled.expireTimeouts hexpire
  have hbook : r.Bookkept := h.bookkept.step (e := .expireTimeouts reading io) hexpire
  refine ⟨hlater, fun s hs => ⟨honClock s hs, fun hwork => ?_, fun _ hwork => ?_⟩⟩
  · obtain ⟨i, hi⟩ := List.mem_iff_getElem?.mp hs
    obtain ⟨cid, -, -, hentry⟩ := hscheduled.entry_mem hbook hi hwork
    exact (hahead _ hentry).le
  · obtain ⟨i, hi⟩ := List.mem_iff_getElem?.mp hs
    have hbefore := session_of_expireTimeouts hexpire hi hwork
    exact (h.paced s (List.mem_of_getElem? hbefore)).series h.prompt hwork

theorem InTime.step (hbounds : Fleet.Bounds cfg longest) (hlag : 0 ≤ lag) (h : InTime cfg longest lag p)
    {e : Event} (hstep : p.step cfg lag e = some p') : InTime cfg longest lag p' := by
  obtain ⟨r, hreached, hprompt⟩ := Option.bind_eq_some_iff.mp hstep
  obtain ⟨hle, heq⟩ := Option.ite_none_right_eq_some.mp hprompt
  obtain rfl := Option.some.inj heq
  have hpaced : p.sweptAfter e ≤ r.fleet.now ∧
      ∀ s ∈ r.fleet.sessions, Fleet.Paced cfg longest lag (p.sweptAfter e) r.fleet.now s := by
    obtain ⟨events, hrun⟩ := step_reaches (Reaches.refl cfg p.reactor) hreached
    cases e with
    | expireTimeouts reading io => exact h.expireTimeouts hreached
    | _ => exact Fleet.paced_of_run hbounds hlag h.swept h.paced hrun
  exact ⟨h.bookkept.step hreached, h.scheduled.step h.bookkept hreached, hle, hpaced.1, hpaced.2⟩

theorem inTime_of_run (hbounds : Fleet.Bounds cfg longest) (hlag : 0 ≤ lag) {router : Router} {fd : Nat}
    {events : List Event} (hrun : Machine.run (step cfg lag) (init router fd) events = some p) :
    InTime cfg longest lag p :=
  Machine.run_invariant (InTime cfg longest lag) (fun _ _ _ h hstep => h.step hbounds hlag hstep)
    { bookkept := Bookkept.init router fd
      scheduled := by rintro i cid s ⟨⟩
      prompt := (zero_add lag).symm ▸ hlag
      swept := le_rfl
      paced := fun _ hs => absurd hs List.not_mem_nil } hrun

/-- Without the times of the sweeps it is a run of the event loop, hence one of the fleet. -/
theorem fleet_of_run {router : Router} {fd : Nat} {events : List Event}
    (hrun : Machine.run (step cfg lag) (init router fd) events = some p) :
    ∃ events', Machine.run (Fleet.step cfg) (Fleet.init router) events' = some p.reactor.fleet := by
  have hreactor : ∀ p (e : Event) p', step cfg lag p e = some p' →
      ∃ events', Machine.run (Reactor.step cfg) p.reactor events' = some p'.reactor := by
    intro p e p' hstep
    obtain ⟨r, hreached, hprompt⟩ := Option.bind_eq_some_iff.mp hstep
    obtain ⟨-, heq⟩ := Option.ite_none_right_eq_some.mp hprompt
    obtain rfl := Option.some.inj heq
    exact ⟨[e], Machine.run_cons_eq_some.mpr ⟨r, hreached, rfl⟩⟩
  obtain ⟨events', hrun'⟩ := Machine.run_simulates Swept.reactor hreactor hrun
  exact Reactor.fleet_of_run hrun'

/-- **A connection stays only as long as it moves bytes.** In every run of an event loop whose clock never gets
more than `lag` ahead of the last `_expire_timeouts`: the age of a connection that is not `DONE` is at most the
longest timeout and the lag, once for each byte that has been received from its client or has moved since,
three times for each attempt that it is allowed, and twice more, and a lag on top. -/
theorem lifetime_bounded (hbounds : Fleet.Bounds cfg longest) (hlag : 0 ≤ lag) {router : Router} {fd : Nat}
    {events : List Event} (hrun : Machine.run (step cfg lag) (init router fd) events = some p) :
    ∀ s ∈ p.reactor.fleet.sessions, s.conn.state ≠ .done →
      p.reactor.fleet.now - s.conn.startTime ≤
        ((2 + s.conn.requestBuf.length + traffic s.trace + 3 * (1 + cfg.maxBackendRetries) : Nat) : Time) *
          (longest + lag) + lag := by
  intro s hs hwork
  have hin := inTime_of_run hbounds hlag hrun
  have hpaid : s.conn.deadlineGen ≤
      2 + s.conn.requestBuf.length + traffic s.trace + 3 * (1 + cfg.maxBackendRetries) := by
    obtain ⟨events', hrun'⟩ := fleet_of_run hrun
    exact (Fleet.solvent_of_run hrun' s hs).gen_le
  obtain ⟨hpos, hle⟩ := hbounds .readingRequest _ rfl
  have hspan : 0 ≤ longest + lag := add_nonneg (hpos.trans hle) hlag
  have hahead := (hin.paced s hs).ahead hwork
  have hseries := (hin.paced s hs).series hin.prompt hwork
  have hcast : (s.conn.deadlineGen : Time) ≤
      (2 + s.conn.requestBuf.length + traffic s.trace + 3 * (1 + cfg.maxBackendRetries) : Nat) :=
    Nat.cast_le.mpr hpaid
  have hmul := mul_le_mul_of_nonneg_right hcast hspan
  linarith [hin.prompt]

/-- A client that has been connected for four seconds, the last of which it has spent on its response. -/
theorem lifetime_bounded_oneRequest : ∃ p,
    Machine.run (step .default 5) (init Fleet.twoBackends 3) (oneRequest.take 9) = some p ∧
    ∀ s ∈ p.reactor.fleet.sessions, s.conn.state ≠ .done →
      p.reactor.fleet.now - s.conn.startTime ≤
        ((2 + s.conn.requestBuf.length + traffic s.trace + 3 * (1 + Config.default.maxBackendRetries) : Nat) :
          Time) * (30 + 5) + 5 := by
  obtain ⟨p, hrun⟩ : ∃ p,
      Machine.run (step .default 5) (init Fleet.twoBackends 3) (oneRequest.take 9) = some p :=
    Option.isSome_iff_exists.mp (by decide +kernel)
  have hbounds : Fleet.Bounds .default 30 := by
    intro state timeout htimeout
    cases state with
    | done => cases htimeout
    | connectingToBackend =>
        obtain rfl : 5 = timeout := Option.some.inj htimeout
        norm_num
    | _ =>
        obtain rfl : 30 = timeout := Option.some.inj htimeout
        norm_num
  exact ⟨p, hrun, lifetime_bounded hbounds (by norm_num) hrun⟩

end Swept

end Reactor

end LoadBalancer
