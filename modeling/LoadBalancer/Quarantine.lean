import LoadBalancer.Dispatcher
import LoadBalancer.HealthChecker

/-! What a mark of the health checker means for the running system. From the moment a backend is marked
unhealthy until it is marked healthy again, no connection is given it, whichever router is used and however
the connections and the health checker interleave; a connect to it can only follow if the handler was given
the backend before the mark came. -/

namespace LoadBalancer

open Outcome

/-- The action chooses the backend: the router gives it, or a connect to it is started. -/
def chooses (b : Backend) : Action → Bool
  | .nextBackend given => given = some b
  | .connect backend _ => backend = b
  | _ => false

/-- How often the backend has been chosen. -/
def choices (b : Backend) (trace : List Action) : Nat := trace.countP (chooses b)

theorem choices_concat {b : Backend} (trace : List Action) {a : Action} (ha : chooses b a = false) :
    choices b (trace ++ [a]) = choices b trace := by
  simp [choices, ha]

namespace Router

variable {r : Router} {b : Backend}

/-- Only one mark brings a backend back. -/
theorem not_mem_mark (h : b ∉ r.getHealthyBackends) {m : Mark} (hm : m ≠ .healthy b) :
    b ∉ (r.mark m).getHealthyBackends := by
  cases m with
  | healthy b' =>
      rw [mem_mark_healthy, not_or]
      exact ⟨fun heq => hm (congrArg Mark.healthy heq.symm), h⟩
  | unhealthy b' =>
      cases r with
      | roundRobin r =>
          rw [mark, getHealthyBackends, List.mem_toFinset, RoundRobinRouter.healthy_markUnhealthy]
          exact fun hmem => h (List.mem_toFinset.mpr (List.mem_of_mem_erase hmem))
      | leastConnections r => exact fun hmem => h (Finset.mem_of_mem_erase hmem)

theorem not_mem_awaited (h : b ∉ r.getHealthyBackends) {marks : List (List Mark)}
    (hmarks : ∀ ms ∈ marks, ∀ m ∈ ms, m ≠ .healthy b) : b ∉ (awaited marks r).getHealthyBackends :=
  awaited_induction (R := fun router => b ∉ getHealthyBackends router)
    (fun _ _ hm h => not_mem_mark h hm) h hmarks

theorem Distinct.mark (h : r.Distinct) (m : Mark) : (r.mark m).Distinct := by
  cases m with
  | healthy b' => exact h.operate (.call (.markHealthy b'))
  | unhealthy b' => exact h.operate (.call (.markUnhealthy b'))

end Router

/-- A backend out of the pool that no mark to come brings back stays out, and is chosen no more. -/
theorem keptByCalls_quarantine (b : Backend) (n : Nat) :
    KeptByCalls (· ≠ b) fun router marks trace => b ∉ router.getHealthyBackends ∧
      (∀ ms ∈ marks, ∀ m ∈ ms, m ≠ .healthy b) ∧ choices b trace = n where
  picked := by
    rintro router marks trace exclude ⟨hout, hmarks, hchoices⟩ picked
    have hawaited := Router.not_mem_awaited hout hmarks
    have hother : ∀ b', picked.1 = some b' → b' ≠ b := by
      rintro b' hb' rfl
      exact hawaited (Router.mem_nextBackend hb')
    refine ⟨hother, ?_, fun ms hms => hmarks ms (List.mem_of_mem_tail hms), ?_⟩
    · rw [Router.getHealthyBackends_nextBackend]
      exact hawaited
    · rw [choices_concat, hchoices]
      exact decide_eq_false fun heq => hother b heq rfl
  released := by
    rintro router marks trace b' ⟨hout, hmarks, hchoices⟩
    refine ⟨?_, fun ms hms => hmarks ms (List.mem_of_mem_tail hms), ?_⟩
    · rw [Router.getHealthyBackends_onDisconnect]
      exact Router.not_mem_awaited hout hmarks
    · rw [choices_concat _ rfl, hchoices]
  connected := by
    rintro router marks trace b' sock hb' ⟨hout, hmarks, hchoices⟩
    refine ⟨hout, hmarks, ?_⟩
    rw [choices_concat, hchoices]
    exact decide_eq_false hb'
  plain := by
    rintro router marks trace a ha ⟨hout, hmarks, hchoices⟩
    refine ⟨hout, hmarks, ?_⟩
    rw [choices_concat, hchoices]
    cases a with
    | nextBackend | onDisconnect | connect => cases ha
    | _ => rfl

namespace Dispatcher

variable {d d' : Dispatcher} {b : Backend}

theorem distinct_of_run {router : Router} (hrouter : router.Distinct) {events : List Event}
    (hrun : Machine.run step (start router) events = some d) : d.router.Distinct := by
  refine Machine.run_invariant (fun d => d.router.Distinct) ?_ hrouter hrun
  intro d e d' h hstep
  cases e with
  | mark m =>
      obtain rfl := Option.some.inj hstep
      exact h.mark m
  | ask i =>
      obtain ⟨-, heq⟩ := Option.ite_none_right_eq_some.mp hstep
      obtain rfl := Option.some.inj heq
      exact h.operate (.call (.nextBackend _))
  | release i b =>
      obtain ⟨-, heq⟩ := Option.ite_none_right_eq_some.mp hstep
      obtain rfl := Option.some.inj heq
      exact h.operate (.call (.onDisconnect b))

theorem choices_tell (i j : Nat) (router : Router) {a : Action} (ha : chooses b a = false) :
    choices b ((d.tell i router a).told j) = choices b (d.told j) := by
  by_cases hij : j = i
  · subst hij
    rw [told_tell_self, choices_concat _ ha]
  · rw [told_tell_of_ne d hij]

/-- One call leaves a backend alone that is not in the pool. -/
theorem quarantine_step (hout : b ∉ d.router.getHealthyBackends) {e : Event} (he : e ≠ .mark (.healthy b))
    (hstep : step d e = some d') : b ∉ d'.router.getHealthyBackends ∧
      ∀ i, choices b (d'.told i) = choices b (d.told i) := by
  cases e with
  | mark m =>
      obtain rfl := Option.some.inj hstep
      exact ⟨Router.not_mem_mark hout fun heq => he (congrArg Event.mark heq), fun _ => rfl⟩
  | ask i =>
      obtain ⟨-, heq⟩ := Option.ite_none_right_eq_some.mp hstep
      obtain rfl := Option.some.inj heq
      refine ⟨?_, fun j => choices_tell i j _ (decide_eq_false fun hgiven => ?_)⟩
      · rw [tell, pick, Router.getHealthyBackends_nextBackend]
        exact hout
      · exact hout (Router.mem_nextBackend hgiven)
  | release i b' =>
      obtain ⟨-, heq⟩ := Option.ite_none_right_eq_some.mp hstep
      obtain rfl := Option.some.inj heq
      refine ⟨?_, fun j => choices_tell i j _ rfl⟩
      rw [tell, Router.getHealthyBackends_onDisconnect]
      exact hout

theorem quarantine_of_run (hdistinct : d.router.Distinct) {after : List Event} (hout : .mark (.healthy b) ∉ after)
    (hrun : Machine.run step d (.mark (.unhealthy b) :: after) = some d') :
    b ∉ d'.router.getHealthyBackends ∧ ∀ i, choices b (d'.told i) = choices b (d.told i) := by
  obtain ⟨d₁, hmark, hafter⟩ := Machine.run_cons_eq_some.mp hrun
  obtain rfl := Option.some.inj hmark
  have hother : ∀ e ∈ after, ∀ _ : Dispatcher, e ≠ .mark (.healthy b) := by
    rintro e he - rfl
    exact hout he
  refine Machine.run_invariant_of_guarded
    (fun d' => b ∉ d'.router.getHealthyBackends ∧ ∀ i, choices b (d'.told i) = choices b (d.told i)) ?_
    ⟨fun hmem => ((Router.mem_mark_unhealthy hdistinct).mp hmem).1 rfl, fun _ => rfl⟩
    (Machine.guarded_of_mem (G := fun _ e => e ≠ .mark (.healthy b)) hother _) hafter
  intro d₁ e d₂ h he hstep
  obtain ⟨hpool, htold⟩ := quarantine_step h.1 he hstep
  exact ⟨hpool, fun i => (htold i).trans (h.2 i)⟩

end Dispatcher

namespace Fleet

variable {cfg : Config} {w w' : Fleet} {b : Backend}

/-- A mark between two events: no connect follows either. -/
theorem quarantine_between (hpool : w.router.Distinct) {after : List Event}
    (hout : ∀ e ∈ after, e.MarksOnly (· ≠ .healthy b))
    (hafter : Machine.run (step cfg) { w with router := w.router.mark (.unhealthy b) } after = some w') :
    b ∉ w'.router.getHealthyBackends ∧
      ∀ i, choices b (w'.traceOf i) = choices b (w.traceOf i) := by
  have hmarked : b ∉ (w.router.mark (.unhealthy b)).getHealthyBackends := fun hmem =>
    ((Router.mem_mark_unhealthy hpool).mp hmem).1 rfl
  exact calls_invariant (R := fun router => b ∉ router.getHealthyBackends)
    (T := fun i trace => choices b trace = choices b (w.traceOf i))
    (w := { w with router := w.router.mark (.unhealthy b) })
    (fun i => keptByCalls_quarantine b (choices b (w.traceOf i))) (fun _ _ hm h => Router.not_mem_mark h hm)
    hmarked (fun _ => rfl) hout hafter

/-- **A backend marked unhealthy is left alone.** In the order in which the router serves the connections and
the health checker, a backend that is marked unhealthy and not marked healthy again is not in the pool, and no
connection has been given it since. If the mark comes between two events, no connection has begun to connect
to it since. -/
theorem quarantine (cfg : Config) {algorithm : String} {backends : List Backend}
    (hdistinct : backends.Nodup) {router : Router} (hcreate : Router.create algorithm backends = some router)
    {events : List Event} {w : Fleet} (hrun : Machine.run (step cfg) (init router) events = some w)
    (b : Backend) :
    (∀ before after, callsOfRun cfg (init router) events = before ++ .mark (.unhealthy b) :: after →
      .mark (.healthy b) ∉ after → b ∉ w.router.getHealthyBackends ∧
        ∃ d, Machine.run Dispatcher.step (Dispatcher.start router) before = some d ∧
          ∀ i, choices b (routerCalls (w.traceOf i)) = choices b (d.told i)) ∧
    ∀ before after w₀, events = before ++ .mark (.unhealthy b) :: after →
      (∀ e ∈ after, e.MarksOnly (· ≠ .healthy b)) →
      Machine.run (step cfg) (init router) before = some w₀ → b ∉ w.router.getHealthyBackends ∧
        ∀ i, choices b (w.traceOf i) = choices b (w₀.traceOf i) := by
  have hstart : router.Distinct := (Router.over_create hdistinct hcreate).distinct
  refine ⟨fun before after hcalls hout => ?_, ?_⟩
  · have hserved := dispatcher_of_run cfg router hrun
    rw [hcalls, Machine.run_append] at hserved
    obtain ⟨d, hbefore, hafter⟩ := Option.bind_eq_some_iff.mp hserved
    obtain ⟨hpool, htold⟩ := Dispatcher.quarantine_of_run (Dispatcher.distinct_of_run hstart hbefore) hout hafter
    exact ⟨hpool, d, hbefore, htold⟩
  · rintro before after w₀ rfl hout hbefore
    rw [Machine.run_append, hbefore] at hrun
    refine quarantine_between ?_ hout hrun
    exact router_invariant Router.Distinct
      (fun router m h => h.mark m) (fun router exclude h => h.operate (.call (.nextBackend exclude)))
      (fun router b' h => h.operate (.call (.onDisconnect b'))) hstart hbefore

/-- The first mark comes in the middle of a call, before the router has answered it; the second one between two
calls. -/
def markedTwice : List Event :=
  [.accept 7 (PyText.ascii "10.0.0.1", 50000) [],
    .call 0 .clientReadable
      { quiet with
        recv := .data (PyText.ascii "GET / HTTP/1.1\r\n\r\n")
        connect := fun n => .errno (8 + n) 115
        marks := [[.unhealthy localBackend]] },
    .mark (.unhealthy ⟨"127.0.0.1", 9002⟩),
    .accept 10 (PyText.ascii "10.0.0.2", 50000) [],
    .call 1 .clientReadable { quiet with recv := .data (PyText.ascii "GET / HTTP/1.1\r\n\r\n") }]

theorem quarantine_markedTwice : ∃ w w₀,
    Machine.run (step .default) (init twoBackends) markedTwice = some w ∧
    Machine.run (step .default) (init twoBackends) (markedTwice.take 2) = some w₀ ∧
    (localBackend ∉ w.router.getHealthyBackends ∧
      ∀ i, choices localBackend (routerCalls (w.traceOf i)) = 0) ∧
    ⟨"127.0.0.1", 9002⟩ ∉ w.router.getHealthyBackends ∧
      ∀ i, choices ⟨"127.0.0.1", 9002⟩ (w.traceOf i) = choices ⟨"127.0.0.1", 9002⟩ (w₀.traceOf i) := by
  obtain ⟨w, hrun⟩ : ∃ w, Machine.run (step .default) (init twoBackends) markedTwice = some w :=
    Option.isSome_iff_exists.mp (by decide +kernel)
  obtain ⟨w₀, hbefore⟩ : ∃ w, Machine.run (step .default) (init twoBackends) (markedTwice.take 2) = some w :=
    Option.isSome_iff_exists.mp (by decide +kernel)
  have hcreate : Router.create "round_robin" [localBackend, ⟨"127.0.0.1", 9002⟩] = some twoBackends := rfl
  have hcalls : callsOfRun .default (init twoBackends) markedTwice =
      [] ++ .mark (.unhealthy localBackend) :: [.ask 0, .mark (.unhealthy ⟨"127.0.0.1", 9002⟩), .ask 1] := by
    decide +kernel
  refine ⟨w, w₀, hrun, hbefore, ?_, ?_⟩
  · obtain ⟨hpool, d, hstart, htold⟩ :=
      (quarantine .default (by decide) hcreate hrun localBackend).1 _ _ hcalls (by decide)
    obtain rfl := Option.some.inj hstart
    exact ⟨hpool, htold⟩
  · refine (quarantine .default (by decide) hcreate hrun ⟨"127.0.0.1", 9002⟩).2 (markedTwice.take 2)
      (markedTwice.drop 3) w₀ rfl (fun e he => ?_) hbefore
    rcases List.mem_pair.mp he with rfl | rfl
    · trivial
    · exact fun ms hms => absurd hms List.not_mem_nil

end Fleet

end LoadBalancer
