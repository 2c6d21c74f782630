import Mathlib.Logic.Function.Basic
import LoadBalancer.Attempts
import LoadBalancer.Lifecycle
import LoadBalancer.RouterRules
import LoadBalancer.Slots

/-! What the router is for, and that the connections use it so. A dispatcher has a router and remembers what it
has told each connection. It serves one call after another: a connection asks only when it holds no backend,
and is never given one that it has had before; it gives back only what it holds. Every run of the connections,
however their handlers and the marks of the health checker come between each other, is a run of a dispatcher. -/

namespace LoadBalancer

open Outcome

/-- A call of the router by a connection. -/
def Action.isRouterCall : Action → Bool
  | .nextBackend _ | .onDisconnect _ _ => true
  | _ => false

def routerCalls (trace : List Action) : List Action := trace.filter Action.isRouterCall

theorem acquired_routerCalls (trace : List Action) : acquired (routerCalls trace) = acquired trace := by
  rw [acquired, routerCalls, List.filterMap_filter]
  refine List.filterMap_congr fun a _ => ?_
  cases a <;> rfl

theorem released_routerCalls (trace : List Action) : released (routerCalls trace) = released trace := by
  rw [released, routerCalls, List.filterMap_filter]
  refine List.filterMap_congr fun a _ => ?_
  cases a <;> rfl

theorem routerCalls_concat (trace : List Action) {a : Action} (ha : a.isRouterCall = true) :
    routerCalls (trace ++ [a]) = routerCalls trace ++ [a] := by
  rw [routerCalls, List.filter_append, List.filter_cons_of_pos ha]
  rfl

theorem routerCalls_concat_plain (trace : List Action) {a : Action} (ha : a.isRouterCall = false) :
    routerCalls (trace ++ [a]) = routerCalls trace := by
  rw [routerCalls, List.filter_append, List.filter_cons_of_neg (by simp [ha]), List.filter_nil,
    List.append_nil]
  rfl

/-- Without an exclusion is with an empty one. -/
theorem Router.nextBackend_none (router : Router) : router.nextBackend none = router.nextBackend (some ∅) := by
  cases router <;> rfl

/-! ### The dispatcher -/

structure Dispatcher where
  router : Router
  /-- The answers that each connection has had, in order. -/
  told : Nat → List Action

namespace Dispatcher

inductive Event where
  | mark (m : Mark)
  | ask (i : Nat)
  | release (i : Nat) (b : Backend)
  deriving DecidableEq

def start (router : Router) : Dispatcher := ⟨router, fun _ => []⟩

def tell (d : Dispatcher) (i : Nat) (router : Router) (a : Action) : Dispatcher :=
  ⟨router, Function.update d.told i (d.told i ++ [a])⟩

theorem told_tell_self (d : Dispatcher) (i : Nat) (router : Router) (a : Action) :
    (d.tell i router a).told i = d.told i ++ [a] := Function.update_self ..

theorem told_tell_of_ne (d : Dispatcher) {i j : Nat} (hij : j ≠ i) (router : Router) (a : Action) :
    (d.tell i router a).told j = d.told j := Function.update_of_ne hij ..

/-- The backend that the router picks for a connection, none that it has had before. -/
def pick (d : Dispatcher) (i : Nat) : Option Backend × Router :=
  d.router.nextBackend (some (acquired (d.told i)).toFinset)

/-- A connection that asks has given back all that it was given, and one that gives back has all but the last. -/
def step (d : Dispatcher) : Event → Option Dispatcher
  | .mark m => some { d with router := d.router.mark m }
  | .ask i =>
      if acquired (d.told i) = released (d.told i) then
        some (d.tell i (d.pick i).2 (.nextBackend (d.pick i).1))
      else none
  | .release i b =>
      if acquired (d.told i) = released (d.told i) ++ [b] then
        some (d.tell i (d.router.onDisconnect b) (.onDisconnect b (d.router.count b)))
      else none

/-- All that was given is different, and all of it has been given back, but perhaps the last. -/
def OneAtATime (told : List Action) : Prop :=
  (acquired told).Nodup ∧ ∃ held : Option Backend, acquired told = released told ++ held.toList

theorem OneAtATime.step {d d' : Dispatcher} {i : Nat} (h : OneAtATime (d.told i)) {e : Event}
    (hstep : step d e = some d') : OneAtATime (d'.told i) := by
  cases e with
  | mark m =>
      obtain rfl := Option.some.inj hstep
      exact h
  | ask j =>
      obtain ⟨hfree, heq⟩ := Option.ite_none_right_eq_some.mp hstep
      obtain rfl := Option.some.inj heq
      by_cases hij : i = j
      · subst hij
        have hgiven : ∀ given : Option Backend, acquired [.nextBackend given] = given.toList := by
          rintro (_ | b) <;> rfl
        rw [OneAtATime, told_tell_self, acquired_append, released_append, hgiven, ← hfree]
        refine ⟨?_, (d.pick i).1, congrArg (· ++ _) (List.append_nil _).symm⟩
        refine List.nodup_append.mpr ⟨h.1, by cases (d.pick i).1 <;> simp, ?_⟩
        rintro b hb _ hb' rfl
        exact Router.not_mem_of_nextBackend (Option.mem_toList.mp hb') (List.mem_toFinset.mpr hb)
      · rwa [told_tell_of_ne d hij]
  | release j b =>
      obtain ⟨hheld, heq⟩ := Option.ite_none_right_eq_some.mp hstep
      obtain rfl := Option.some.inj heq
      by_cases hij : i = j
      · subst hij
        rw [OneAtATime, told_tell_self, acquired_append, released_append]
        refine ⟨by simpa [acquired] using h.1, none, ?_⟩
        simpa [acquired, released] using hheld
      · rwa [told_tell_of_ne d hij]

/-- The call that an answer answers. -/
def Event.answered (i : Nat) : Action → List Event
  | .nextBackend _ => [.ask i]
  | .onDisconnect b _ => [.release i b]
  | _ => []

theorem answered_routerCalls (i : Nat) (trace : List Action) :
    (routerCalls trace).flatMap (Event.answered i) = trace.flatMap (Event.answered i) := by
  induction trace with
  | nil => rfl
  | cons a trace ih =>
      rw [List.flatMap_cons, ← ih]
      cases a <;> rfl

/-- The call is one of connection `i`. -/
def Event.isOf (i : Nat) : Event → Bool
  | .mark _ => false
  | .ask j => j = i
  | .release j _ => j = i

def Event.mark? : Event → Option Mark
  | .mark m => some m
  | _ => none

theorem answered_tell (d : Dispatcher) (i j : Nat) (router : Router) (a : Action) :
    ((d.tell j router a).told i).flatMap (Event.answered i) =
      (d.told i).flatMap (Event.answered i) ++ if j = i then Event.answered j a else [] := by
  by_cases hij : j = i
  · subst hij
    rw [told_tell_self, List.flatMap_append, List.flatMap_singleton, if_pos rfl]
  · rw [told_tell_of_ne d (Ne.symm hij), if_neg hij, List.append_nil]

/-- Every call is answered, to the connection that has made it. -/
theorem answers_of_step {d d' : Dispatcher} {e : Event} (hstep : step d e = some d') (i : Nat) :
    (d'.told i).flatMap (Event.answered i) = (d.told i).flatMap (Event.answered i) ++ [e].filter (Event.isOf i) := by
  cases e with
  | mark m =>
      obtain rfl := Option.some.inj hstep
      exact (List.append_nil _).symm
  | ask j =>
      obtain ⟨-, heq⟩ := Option.ite_none_right_eq_some.mp hstep
      obtain rfl := Option.some.inj heq
      rw [answered_tell]
      by_cases hij : j = i <;> simp [Event.isOf, Event.answered, hij]
  | release j b =>
      obtain ⟨-, heq⟩ := Option.ite_none_right_eq_some.mp hstep
      obtain rfl := Option.some.inj heq
      rw [answered_tell]
      by_cases hij : j = i <;> simp [Event.isOf, Event.answered, hij]

theorem answers_of_run {d d' : Dispatcher} {calls : List Event} (hrun : Machine.run step d calls = some d')
    (i : Nat) : (d'.told i).flatMap (Event.answered i) =
      (d.told i).flatMap (Event.answered i) ++ calls.filter (Event.isOf i) := by
  induction calls generalizing d with
  | nil =>
      obtain rfl := Option.some.inj hrun
      exact (List.append_nil _).symm
  | cons e calls ih =>
      obtain ⟨d₁, hstep, hrest⟩ := Machine.run_cons_eq_some.mp hrun
      rw [ih hrest, answers_of_step hstep, List.append_assoc, ← List.filter_append, List.singleton_append]

/-- The calls that a handler has had these answers to, each one behind the marks that come before it. -/
def weave (i : Nat) : List (List Mark) → List Action → List Event
  | _, [] => []
  | marks, a :: answers => (marks.headD []).map .mark ++ (Event.answered i a ++ weave i marks.tail answers)

theorem weave_concat (i : Nat) (marks : List (List Mark)) (answers : List Action) (a : Action) :
    weave i marks (answers ++ [a]) = weave i marks answers ++
      (((marks.drop answers.length).headD []).map .mark ++ Event.answered i a) := by
  induction answers generalizing marks with
  | nil => simp [weave]
  | cons a' answers ih =>
      rw [List.cons_append, weave, ih, weave]
      simp

/-- The marks among them are those that the answers had to wait for. -/
theorem marks_weave (i : Nat) (marks : List (List Mark)) (answers : List Action) :
    (weave i marks answers).filterMap Event.mark? = (marks.take answers.length).flatten := by
  induction answers generalizing marks with
  | nil => rfl
  | cons a answers ih =>
      have hmarks : ∀ ms : List Mark, (ms.map Event.mark).filterMap Event.mark? = ms := fun ms => by
        rw [List.filterMap_map]
        exact List.filterMap_some
      have hanswered : (Event.answered i a).filterMap Event.mark? = [] := by
        cases a <;> rfl
      rw [weave, List.filterMap_append, List.filterMap_append, hmarks, hanswered, ih]
      cases marks <;> simp

theorem run_marks (ms : List Mark) (d : Dispatcher) :
    Machine.run step d (ms.map .mark) = some { d with router := ms.foldl (fun r m => r.mark m) d.router } := by
  induction ms generalizing d with
  | nil => rfl
  | cons m ms ih => exact ih { d with router := d.router.mark m }

/-- The calls of a handler, in their order, lead to the given router and answers; `marks` are still to come. -/
def Served (allMarks : List (List Mark)) (d : Dispatcher) (i : Nat) (router : Router)
    (marks : List (List Mark)) (told : List Action) : Prop :=
  ∃ answers, told = d.told i ++ answers ∧ marks = allMarks.drop answers.length ∧
    Machine.run step d (weave i allMarks answers) = some ⟨router, Function.update d.told i told⟩

section Served

variable {allMarks marks : List (List Mark)} {d : Dispatcher} {i : Nat} {router : Router} {told : List Action}

theorem served_refl (allMarks : List (List Mark)) (d : Dispatcher) (i : Nat) :
    Served allMarks d i d.router allMarks (d.told i) :=
  ⟨[], (List.append_nil _).symm, rfl, by rw [Function.update_eq_self]; rfl⟩

/-- One more call, once the lock is there. -/
theorem Served.then (h : Served allMarks d i router marks told) {a : Action} {e : Event}
    (ha : Event.answered i a = [e]) {router' : Router}
    (hstep : step ⟨awaited marks router, Function.update d.told i told⟩ e =
      some ⟨router', Function.update d.told i (told ++ [a])⟩) :
    Served allMarks d i router' marks.tail (told ++ [a]) := by
  obtain ⟨answers, rfl, rfl, hrun⟩ := h
  refine ⟨answers ++ [a], List.append_assoc .., ?_, ?_⟩
  · rw [List.tail_drop, List.length_append, List.length_singleton]
  · rw [weave_concat, Machine.run_append, hrun, Option.bind_some, Machine.run_append, run_marks, ha]
    exact Machine.run_cons_eq_some.mpr ⟨_, hstep, rfl⟩

theorem Served.ask (h : Served allMarks d i router marks told) (hfree : acquired told = released told) :
    Served allMarks d i ((awaited marks router).nextBackend (some (acquired told).toFinset)).2 marks.tail
      (told ++ [.nextBackend ((awaited marks router).nextBackend (some (acquired told).toFinset)).1]) := by
  apply h.then rfl
  refine (if_pos (by simpa using hfree)).trans ?_
  simp [tell, pick]

theorem Served.release (h : Served allMarks d i router marks told) {b : Backend}
    (hheld : acquired told = released told ++ [b]) :
    Served allMarks d i ((awaited marks router).onDisconnect b) marks.tail
      (told ++ [.onDisconnect b ((awaited marks router).count b)]) := by
  apply h.then rfl
  refine (if_pos (by simpa using hheld)).trans ?_
  simp [tell]

end Served

end Dispatcher

/-! ### Handlers -/

open Dispatcher

/-- What a connection remembers of the answers `told` that it has had: what it holds, and every backend that it
was given. -/
structure Remembers (told : List Action) (backendAddr : Option Backend) (disconnectNotified : Bool)
    (triedBackends : Finset Backend) (backendAttempts : Nat) : Prop where
  ledger : acquired told = released told ++ (if disconnectNotified then none else backendAddr).toList
  known : backendAddr.elim triedBackends (insert · triedBackends) = (acquired told).toFinset
  unasked : backendAttempts = 0 → backendAddr = none
  ungiven : backendAddr = none → acquired told = []

def ProxyConnection.Remembers (c : ProxyConnection) (told : List Action) : Prop :=
  LoadBalancer.Remembers told c.backendAddr c.disconnectNotified c.triedBackends c.backendAttempts

/-- The router and a connection in the middle of a call. -/
def ServingAt (allMarks : List (List Mark)) (d : Dispatcher) (i : Nat) (f : Frame) : Prop :=
  Served allMarks d i f.router f.io.marks (routerCalls f.trace) ∧ f.conn.Remembers (routerCalls f.trace)

section Calls

variable {told : List Action} {backendAddr : Option Backend} {disconnectNotified : Bool}
  {triedBackends triedBackends' : Finset Backend} {backendAttempts backendAttempts' : Nat} {b : Backend}

/-- A connection that holds nothing has given back all that it was given. -/
theorem Remembers.free
    (h : Remembers told backendAddr disconnectNotified triedBackends backendAttempts)
    (hheld : (if disconnectNotified then none else backendAddr) = none) : acquired told = released told := by
  have hledger := h.ledger
  rwa [hheld, Option.toList_none, List.append_nil] at hledger

/-- What is held is given back once. -/
theorem Remembers.release (h : Remembers told (some b) false triedBackends backendAttempts) (count : Int) :
    Remembers (told ++ [.onDisconnect b count]) (some b) true triedBackends backendAttempts := by
  have hacquired : acquired (told ++ [.onDisconnect b count]) = acquired told := by
    rw [acquired_append]
    exact List.append_nil _
  exact
    { ledger := by
        rw [hacquired, h.ledger, released_append]
        exact (List.append_nil _).symm
      known := hacquired.symm ▸ h.known
      unasked := h.unasked
      ungiven := fun hnone => absurd hnone (Option.some_ne_none b) }

theorem Remembers.refused
    (h : Remembers told backendAddr disconnectNotified triedBackends backendAttempts)
    (hheld : (if disconnectNotified then none else backendAddr) = none) :
    Remembers (told ++ [.nextBackend none]) backendAddr disconnectNotified triedBackends backendAttempts := by
  have hacquired : acquired (told ++ [.nextBackend none]) = acquired told := by
    rw [acquired_append]
    exact List.append_nil _
  exact
    { ledger := by
        rw [hacquired, hheld, released_append, h.free hheld]
        simp [released]
      known := hacquired.symm ▸ h.known
      unasked := h.unasked
      ungiven := fun haddr => hacquired.trans (h.ungiven haddr) }

/-- What it is given, it holds. -/
theorem Remembers.given
    (h : Remembers told backendAddr disconnectNotified triedBackends backendAttempts)
    (hheld : (if disconnectNotified then none else backendAddr) = none)
    (hknown : insert b triedBackends' = insert b (acquired told).toFinset)
    (hattempts : backendAttempts' ≠ 0) :
    Remembers (told ++ [.nextBackend (some b)]) (some b) false triedBackends' backendAttempts' := by
  have hacquired : acquired (told ++ [.nextBackend (some b)]) = acquired told ++ [b] := acquired_append _ _
  exact
    { ledger := by
        rw [hacquired, released_append, h.free hheld]
        simp [released]
      known := by
        rw [hacquired, List.toFinset_append]
        exact hknown.trans (by simp)
      unasked := fun hzero => absurd hzero hattempts
      ungiven := fun hnone => absurd hnone (Option.some_ne_none b) }

end Calls

section Handlers

variable {marks : List (List Mark)} {d : Dispatcher} {i : Nat} {cfg : Config} {f f' : Frame}

theorem ServingAt.congr (h : ServingAt marks d i f) (hrouter : f'.router = f.router)
    (hmarks : f'.io.marks = f.io.marks) (htrace : f'.trace = f.trace)
    (haddr : f'.conn.backendAddr = f.conn.backendAddr)
    (hnotified : f'.conn.disconnectNotified = f.conn.disconnectNotified)
    (htried : f'.conn.triedBackends = f.conn.triedBackends)
    (hattempts : f'.conn.backendAttempts = f.conn.backendAttempts) : ServingAt marks d i f' := by
  refine ⟨?_, ?_⟩
  · rw [hrouter, hmarks, htrace]
    exact h.1
  · rw [ProxyConnection.Remembers, htrace, haddr, hnotified, htried, hattempts]
    exact h.2

theorem ServingAt.refreshDeadline (h : ServingAt marks d i f) : ServingAt marks d i (refreshDeadline cfg f) := by
  refine h.congr (refreshDeadline_router cfg f) (refreshDeadline_marks cfg f) (refreshDeadline_trace cfg f)
    ?_ ?_ ?_ ?_
  all_goals rw [refreshDeadline_conn]

theorem ServingAt.log (h : ServingAt marks d i f) {a : Action} (ha : a.isRouterCall = false) :
    ServingAt marks d i (f.log a) := by
  refine ⟨?_, ?_⟩ <;> rw [log_trace, routerCalls_concat_plain _ ha]
  · exact h.1
  · exact h.2

theorem ServingAt.releaseSlot (h : ServingAt marks d i f) : ServingAt marks d i f.releaseSlot := by
  unfold Frame.releaseSlot
  split
  · exact h
  · next b haddr =>
    split
    · exact h
    · next hnotified =>
      have hremembers := h.2
      rw [ProxyConnection.Remembers, haddr, Bool.eq_false_iff.mpr hnotified] at hremembers
      refine ⟨?_, ?_⟩ <;> rw [log_trace, routerCalls_concat _ rfl]
      · exact h.1.release hremembers.ledger
      · have hreleased := hremembers.release ((awaited f.io.marks f.router).count b)
        rw [← haddr] at hreleased
        exact hreleased

theorem ServingAt.finish (h : ServingAt marks d i f) : ServingAt marks d i (finish f) := by
  have hread : ServingAt marks d i f.readClock := h
  have hlogged : ServingAt marks d i (logAccess f.readClock) := by
    unfold logAccess
    split
    · exact hread.log rfl
    · exact hread
  exact hlogged.releaseSlot

theorem ServingAt.sendError (h : ServingAt marks d i f) (code : Nat) (reason : String) :
    (sendError code reason f).Post (ServingAt marks d i) (ServingAt marks d i) := by
  have hsent : ∀ bytes, ServingAt marks d i (f.log (.errorSent code reason bytes)) := fun _ => h.log rfl
  unfold LoadBalancer.sendError
  split
  · exact ServingAt.finish (hsent _)
  · exact ServingAt.finish (hsent _)
  · exact hsent _

/-- The backend that has failed is given back and remembered. -/
theorem ServingAt.abandonBackend (h : ServingAt marks d i f) : ServingAt marks d i (abandonBackend f) := by
  obtain ⟨hserved, hledger, hknown, hunasked, hungiven⟩ := h.releaseSlot
  have haddr : (LoadBalancer.abandonBackend f).conn.backendAddr = f.releaseSlot.conn.backendAddr := by
    rw [abandonBackend_conn, releaseSlot_conn]
  have hnotified : (LoadBalancer.abandonBackend f).conn.disconnectNotified =
      f.releaseSlot.conn.disconnectNotified := by
    rw [abandonBackend_conn, releaseSlot_conn]
  have htried : (LoadBalancer.abandonBackend f).conn.triedBackends =
      f.releaseSlot.conn.backendAddr.elim f.releaseSlot.conn.triedBackends
        (insert · f.releaseSlot.conn.triedBackends) := by
    rw [abandonBackend_conn, releaseSlot_conn]
  have hattempts : (LoadBalancer.abandonBackend f).conn.backendAttempts =
      f.releaseSlot.conn.backendAttempts := by
    rw [abandonBackend_conn, releaseSlot_conn]
  have hrouter : (LoadBalancer.abandonBackend f).router = f.releaseSlot.router := by
    rw [LoadBalancer.abandonBackend, noteTried_router, closeBackend_router]
  have hio : (LoadBalancer.abandonBackend f).io = f.releaseSlot.io := by
    rw [LoadBalancer.abandonBackend, noteTried_io, closeBackend_io]
  have htrace : (LoadBalancer.abandonBackend f).trace = f.releaseSlot.trace := by
    rw [LoadBalancer.abandonBackend, noteTried_trace, closeBackend_trace]
  refine ⟨by rw [hrouter, hio, htrace]; exact hserved, ?_⟩
  rw [ProxyConnection.Remembers, htrace, haddr, hnotified, htried, hattempts]
  refine ⟨hledger, ?_, hunasked, hungiven⟩
  rw [← hknown]
  cases f.releaseSlot.conn.backendAddr with
  | none => rfl
  | some b => exact Finset.insert_idem b _

theorem ServingAt.tried_abandonBackend (h : ServingAt marks d i f) :
    (LoadBalancer.abandonBackend f).conn.triedBackends =
      (acquired (routerCalls (LoadBalancer.abandonBackend f).trace)).toFinset := by
  have hknown := h.abandonBackend.2.known
  rw [← hknown, abandonBackend_conn]
  cases f.conn.backendAddr with
  | none => rfl
  | some b => exact (Finset.insert_idem b _).symm

theorem routerCalls_nextBackend {exclude : Option (Finset Backend)} :
    routerCalls (f.nextBackend exclude).2.trace =
      routerCalls f.trace ++ [.nextBackend (f.nextBackend exclude).1] := routerCalls_concat _ rfl

/-- A connection that holds nothing asks, all that it was given being excluded. -/
theorem ServingAt.ask (h : ServingAt marks d i f) (hheld : f.conn.held = none)
    {exclude : Option (Finset Backend)} (hexclude : ∀ router : Router, router.nextBackend exclude =
      router.nextBackend (some (acquired (routerCalls f.trace)).toFinset)) :
    Served marks d i (f.nextBackend exclude).2.router (f.nextBackend exclude).2.io.marks
      (routerCalls (f.nextBackend exclude).2.trace) := by
  have hasked := h.1.ask (h.2.free hheld)
  rw [← hexclude] at hasked
  rw [routerCalls_nextBackend]
  exact hasked

/-- It is refused. -/
theorem ServingAt.refused (h : ServingAt marks d i f) (hheld : f.conn.held = none)
    {exclude : Option (Finset Backend)} (hexclude : ∀ router : Router, router.nextBackend exclude =
      router.nextBackend (some (acquired (routerCalls f.trace)).toFinset))
    (hnone : (f.nextBackend exclude).1 = none) : ServingAt marks d i (f.nextBackend exclude).2 := by
  refine ⟨h.ask hheld hexclude, ?_⟩
  rw [routerCalls_nextBackend, hnone]
  exact h.2.refused hheld

theorem failover_serves :
    (∀ b f, ServingAt marks d i f →
      (initiateBackendConnect cfg b f).Post (ServingAt marks d i) (ServingAt marks d i)) ∧
    ∀ f, ServingAt marks d i f → (failBackend cfg f).Post (ServingAt marks d i) (ServingAt marks d i) := by
  have hbegin : ∀ {f : Frame}, ServingAt marks d i f → ServingAt marks d i (beginConnect cfg f) := fun {f} h =>
    ServingAt.refreshDeadline (f := f.setState .connectingToBackend) h
  have hopen : ∀ (b : Backend) {f : Frame} (fd), ServingAt marks d i f →
      ServingAt marks d i (openBackendSock b fd (beginConnect cfg f)) := by
    intro b f fd h
    have hbegun : ServingAt marks d i ((beginConnect cfg f).log (.connect b ((beginConnect cfg f).os.newSock fd))) :=
      (hbegin h).log rfl
    exact hbegun
  have hexclude : ∀ {f : Frame}, ServingAt marks d i f → ∀ router : Router,
      router.nextBackend (some (abandonBackend f).conn.triedBackends) =
        router.nextBackend (some (acquired (routerCalls (abandonBackend f).trace)).toFinset) :=
    fun h router => by rw [h.tried_abandonBackend]
  apply failover_post
  case noSocket => exact fun b f h _ => hbegin h
  case raises => exact fun b f fd h _ => hopen b fd h
  case connected =>
    intro b f fd h _
    exact ServingAt.refreshDeadline
      (f := (openBackendSock b fd (beginConnect cfg f)).setState .forwardingRequest) (hopen b fd h)
  case inProgress => exact fun b f fd err h _ _ => hopen b fd h
  case refused => exact fun b f fd err h _ _ _ => hopen b fd h
  case retry =>
    intro b f h _ picked hpicked
    have hknown : insert b (abandonBackend f).conn.triedBackends =
        insert b (acquired (routerCalls (abandonBackend f).trace)).toFinset := by
      rw [h.tried_abandonBackend]
    have htrace : routerCalls (resetForRetry b picked.2).trace =
        routerCalls (abandonBackend f).trace ++ [.nextBackend (some b)] := by
      rw [← hpicked]
      exact routerCalls_concat _ rfl
    refine ⟨h.abandonBackend.ask held_abandonBackend (hexclude h), ?_⟩
    rw [htrace]
    exact h.abandonBackend.2.given held_abandonBackend hknown
      (Nat.succ_ne_zero (abandonBackend f).conn.backendAttempts)
  case giveUp =>
    rintro f f' h (rfl | ⟨hnone, rfl⟩)
    · exact h.abandonBackend.sendError 502 _
    · exact (h.abandonBackend.refused held_abandonBackend (hexclude h) hnone).sendError 502 _

theorem handleClientReadable_serves (h : ServingAt marks d i f)
    (hreading : f.conn.state = .readingRequest → f.conn.backendAttempts = 0) :
    (handleClientReadable cfg f).Post (ServingAt marks d i) (ServingAt marks d i) := by
  have hgrown : ∀ bytes, ServingAt marks d i (receiveRequest cfg bytes f) := fun bytes =>
    ServingAt.refreshDeadline (f := f.update fun c => { c with requestBuf := c.requestBuf ++ bytes }) h
  apply handleClientReadable_post
  case ignored => exact fun _ => h
  case blocked => exact fun _ _ => h
  case gone => exact fun _ _ => h
  case raises => exact fun _ _ => h
  case tooLarge => exact fun bytes _ _ _ _ => (hgrown bytes).sendError 413 _
  case incomplete => exact fun bytes _ _ _ _ => hgrown bytes
  case complete =>
    intro bytes req hstate _ _ _
    -- Nothing has been asked yet, so that nothing has to be excluded.
    have hlocked : ServingAt marks d i (storeRequest req (receiveRequest cfg bytes f)) := hgrown bytes
    have haddr : (storeRequest req (receiveRequest cfg bytes f)).conn.backendAddr = none := by
      refine hlocked.2.unasked ?_
      rw [storeRequest, update_conn, receiveRequest_conn]
      exact hreading hstate
    have hnothing := hlocked.2.ungiven haddr
    have hheld : (storeRequest req (receiveRequest cfg bytes f)).conn.held = none := held_of_backendAddr haddr
    have hexclude : ∀ router : Router, router.nextBackend none =
        router.nextBackend (some
          (acquired (routerCalls (storeRequest req (receiveRequest cfg bytes f)).trace)).toFinset) := by
      intro router
      rw [hnothing]
      exact router.nextBackend_none
    have hknown := hlocked.2.known
    rw [haddr] at hknown
    apply routeRequest_post
    case unavailable => exact fun hnone => (hlocked.refused hheld hexclude hnone).sendError 503 _
    case routed =>
      intro b hb
      have htrace : routerCalls (assignFirst b
          ((storeRequest req (receiveRequest cfg bytes f)).nextBackend none).2).trace =
          routerCalls (storeRequest req (receiveRequest cfg bytes f)).trace ++ [.nextBackend (some b)] := by
        rw [← hb]
        exact routerCalls_concat _ rfl
      refine failover_serves.1 b _ ⟨hlocked.ask hheld hexclude, ?_⟩
      rw [htrace]
      exact hlocked.2.given hheld (congrArg (insert b) hknown) Nat.one_ne_zero

theorem forwardRequest_serves (h : ServingAt marks d i f) :
    (forwardRequest cfg f).Post (ServingAt marks d i) (ServingAt marks d i) := by
  have hsent : ∀ accepted, ServingAt marks d i (recordForwarded cfg accepted f) := by
    intro accepted
    have hlogged : ServingAt marks d i (f.log (.backendSent accepted)) := h.log rfl
    unfold recordForwarded
    dsimp only
    split
    · exact hlogged
    · exact hlogged.refreshDeadline
  apply forwardRequest_post
  case blocked => exact fun _ => h
  case broken => exact fun _ => failover_serves.2 f h
  case raises => exact fun _ => h
  case sentAll =>
    intro _ accepted _ _ _
    exact ServingAt.refreshDeadline (f := (recordForwarded cfg accepted f).setState .readingResponse)
      (hsent accepted)
  case sentSome => exact fun _ accepted _ _ _ => hsent accepted

theorem handleBackendWritable_serves (h : ServingAt marks d i f) :
    (handleBackendWritable cfg f).Post (ServingAt marks d i) (ServingAt marks d i) := by
  apply handleBackendWritable_post
  case ignored => exact fun _ _ => h
  case raises => exact fun _ _ => h
  case refused => exact fun _ _ _ _ => failover_serves.2 f h
  case connected =>
    exact fun _ _ => forwardRequest_serves
      (ServingAt.refreshDeadline (f := f.setState .forwardingRequest) h)
  case forwarding => exact fun _ => forwardRequest_serves h

theorem handleBackendReadable_serves (h : ServingAt marks d i f) :
    (handleBackendReadable cfg f).Post (ServingAt marks d i) (ServingAt marks d i) := by
  have hlogged : ∀ bytes, ServingAt marks d i (f.log (.backendReceived bytes)) := fun _ => h.log rfl
  have hrelay : ∀ {f : Frame}, ServingAt marks d i f → ServingAt marks d i (prepareRelay cfg f) := fun {f} h =>
    ServingAt.refreshDeadline (f := f.update fun c =>
      { c with relayBuf := c.responseBuf, relayOffset := 0, state := .forwardingResponse }) h
  apply handleBackendReadable_post
  case ignored => exact fun _ => h
  case blocked => exact fun _ _ => h
  case broken => exact fun _ _ => failover_serves.2 f h
  case raises => exact fun _ _ => h
  case closed =>
    intro _ _
    apply backendClosed_post
    case cutOff => exact fun _ _ => failover_serves.2 _ (hlogged [])
    case relay => exact hrelay (hlogged [])
  case received =>
    intro bytes _ _ _
    have hgrown : ServingAt marks d i (receiveResponse cfg bytes (f.log (.backendReceived bytes))) := by
      refine (hlogged bytes).congr (refreshDeadline_router _ _) (refreshDeadline_marks _ _)
        (refreshDeadline_trace _ _) ?_ ?_ ?_ ?_
      all_goals rw [receiveResponse_conn]
    apply checkComplete_post
    case stay => exact fun _ => hgrown
    case relay => exact fun _ _ _ => hrelay hgrown

theorem handleClientWritable_serves (h : ServingAt marks d i f) :
    (handleClientWritable cfg f).Post (ServingAt marks d i) (ServingAt marks d i) := by
  have hsent : ∀ accepted, ServingAt marks d i (recordRelayed cfg accepted f) := by
    intro accepted
    have hlogged : ServingAt marks d i (f.log (.clientSent accepted)) := h.log rfl
    unfold recordRelayed
    dsimp only
    split
    · exact hlogged
    · exact ServingAt.refreshDeadline
        (f := (f.log (.clientSent accepted)).update fun c => { c with clientBytesSent := true }) hlogged
  apply handleClientWritable_post
  case ignored => exact fun _ => h
  case blocked => exact fun _ _ => h
  case gone => exact fun _ _ => h
  case raises => exact fun _ _ => h
  case sentAll => exact fun _ accepted _ _ _ _ => (hsent accepted).finish
  case sentSome => exact fun _ accepted _ _ _ _ => hsent accepted

/-- **One call.** What a handler does with the router, a dispatcher can serve. -/
theorem handle_serves (c : Call) (h : ServingAt marks d i f)
    (hreading : f.conn.state = .readingRequest → f.conn.backendAttempts = 0) :
    (handle cfg c f).Post (ServingAt marks d i) (ServingAt marks d i) := by
  cases c with
  | timeout =>
      apply handleTimeout_post
      case ended => exact fun _ => h
      case idle => exact fun _ => h.sendError 408 _
      case relaying => exact fun _ _ => h.releaseSlot
      case unanswered => exact fun _ _ => h.sendError 504 _
  | clientReadable => exact handleClientReadable_serves h hreading
  | clientWritable => exact handleClientWritable_serves h
  | backendReadable => exact handleBackendReadable_serves h
  | backendWritable => exact handleBackendWritable_serves h

end Handlers

/-! ### Runs -/

namespace Fleet

variable {cfg : Config} {router : Router} {w w' : Fleet} {events : List Event}

/-- What a dispatcher would know. -/
def dispatcher (w : Fleet) : Dispatcher := ⟨w.router, fun i => routerCalls (w.traceOf i)⟩

/-- The calls that an event makes on the router, in the order in which the router serves them. -/
def calls (w : Fleet) (e : Event) (w' : Fleet) : List Dispatcher.Event :=
  match e with
  | .call i _ io =>
      weave i io.marks ((routerCalls (w'.traceOf i)).drop (routerCalls (w.traceOf i)).length)
  | .mark m => [.mark m]
  | _ => []

/-- The calls of a run, one after another. -/
def callsOfRun (cfg : Config) (w : Fleet) (events : List Event) : List Dispatcher.Event :=
  Machine.trail (step cfg) calls w events

theorem remembers_of_run (hrun : Machine.run (step cfg) (init router) events = some w) :
    ∀ s ∈ w.sessions, s.conn.Remembers (routerCalls s.trace) := by
  refine fun s hs => (session_invariant (fun s => s.conn.Remembers (routerCalls s.trace) ∧ s.conn.Waits)
    ?_ ?_ ?_ (fun _ h => h) (by rintro s ⟨⟩) hrun s hs).1
  · exact fun _ _ _ _ => ⟨⟨rfl, rfl, fun _ => rfl, fun _ => rfl⟩, fun _ => ⟨rfl, rfl⟩⟩
  · intro c f ⟨hremembers, hwaits⟩
    have hserving : ServingAt f.io.marks ⟨f.router, fun _ => routerCalls f.trace⟩ 0 f :=
      ⟨served_refl f.io.marks ⟨f.router, fun _ => routerCalls f.trace⟩ 0, hremembers⟩
    have hserved : (handle cfg c f).Post (ServingAt f.io.marks ⟨f.router, fun _ => routerCalls f.trace⟩ 0)
        (ServingAt f.io.marks ⟨f.router, fun _ => routerCalls f.trace⟩ 0) :=
      handle_serves c hserving fun hstate => (hwaits hstate).1
    exact (hserved.and (handle_onward c (f := f) hwaits)).mono
      (fun _ hret => ⟨hret.1.2, hret.2.waits⟩) fun _ hexc => ⟨hexc.1.2, hexc.2.waits⟩
  · exact fun s h => ⟨h.1, by rintro ⟨⟩⟩

/-- **One event.** What it does with the router, a dispatcher can serve. -/
theorem dispatcher_of_step (hremembers : ∀ s ∈ w.sessions, s.conn.Remembers (routerCalls s.trace))
    (hwaits : ∀ s ∈ w.sessions, s.conn.Waits) {e : Event} (hstep : step cfg w e = some w') :
    Machine.run Dispatcher.step w.dispatcher (w.calls e w') = some w'.dispatcher := by
  cases e with
  | accept fd addr clock =>
      obtain rfl := Option.some.inj hstep
      refine congrArg some (congrArg (Dispatcher.mk w.router) (funext fun j => ?_))
      rw [traceOf_accept]
  | call i c io =>
      obtain ⟨s, f, hs, hends, rfl⟩ := step_call_cases hstep
      have hmem := List.mem_of_getElem? hs
      have hserving : ServingAt io.marks w.dispatcher i (w.frame s io) := by
        refine ⟨?_, hremembers s hmem⟩
        have hrefl := served_refl io.marks w.dispatcher i
        have htold : w.dispatcher.told i = routerCalls s.trace := congrArg routerCalls (traceOf_of_some hs)
        rwa [htold] at hrefl
      obtain ⟨⟨answers, htold, -, hrun⟩, -⟩ := hends.of_post (P := ServingAt io.marks w.dispatcher i)
        ((handle_serves c hserving fun hstate => (hwaits s hmem hstate).1).mono (fun _ h => h) fun _ h => h)
      have hnew : (routerCalls ((w.put i f).traceOf i)).drop (routerCalls (w.traceOf i)).length = answers := by
        rw [traceOf_of_some (getElem?_put_self hs f)]
        exact htold ▸ List.drop_left
      rw [calls, hnew, hrun]
      refine congrArg some (congrArg (Dispatcher.mk f.router) (funext fun j => ?_))
      by_cases hij : i = j
      · subst hij
        rw [Function.update_self, traceOf_of_some (getElem?_put_self hs f)]
        rfl
      · rw [Function.update_of_ne (Ne.symm hij), traceOf_put_ne hij]
        rfl
  | abort i =>
      obtain rfl := Option.some.inj hstep
      refine congrArg some (congrArg (Dispatcher.mk w.router) (funext fun j => ?_))
      rw [show (w.markDone i).traceOf j = w.traceOf j from traceOf_modify w i j Session.markDone fun _ => rfl]
  | unregistered i =>
      obtain rfl := Option.some.inj hstep
      refine congrArg some (congrArg (Dispatcher.mk w.router) (funext fun j => ?_))
      rw [show (w.clearPending i).traceOf j = w.traceOf j from
        traceOf_modify w i j Session.clearPending fun _ => rfl]
  | _ =>
      obtain rfl := Option.some.inj hstep
      rfl

/-- The marks that an event brings. -/
def Event.marks : Event → List Mark
  | .mark m => [m]
  | .call _ _ io => io.marks.flatten
  | _ => []

theorem marks_callsOfRun (cfg : Config) (w : Fleet) (events : List Event) :
    ((callsOfRun cfg w events).filterMap Dispatcher.Event.mark?).Sublist (events.flatMap Event.marks) := by
  induction events generalizing w with
  | nil => exact List.Sublist.refl []
  | cons e events ih =>
      rw [callsOfRun, Machine.trail, List.flatMap_cons]
      split
      · exact List.nil_sublist _
      · next w' _ =>
        rw [List.filterMap_append]
        refine List.Sublist.append ?_ (ih w')
        cases e with
        | call i c io =>
            rw [calls, marks_weave]
            exact (List.take_sublist _ _).flatten
        | _ => exact List.Sublist.refl _

/-- In every run, the calls of the connections and
the marks of the health checker, in the order in which the router serves them, are a run of a dispatcher, which
ends with the router of the run and with what each connection has been told. -/
theorem dispatcher_of_run (cfg : Config) (router : Router) {events : List Event} {w : Fleet}
    (hrun : Machine.run (step cfg) (init router) events = some w) :
    Machine.run Dispatcher.step (Dispatcher.start router) (callsOfRun cfg (init router) events) =
      some w.dispatcher := by
  refine Machine.run_trail dispatcher
    (fun w => ∃ before, Machine.run (step cfg) (init router) before = some w) ?_ ?_ ⟨[], rfl⟩ hrun
  · rintro w e w' ⟨before, hbefore⟩ hstep
    refine ⟨before ++ [e], ?_⟩
    rw [Machine.run_append, hbefore]
    exact Machine.run_cons_eq_some.mpr ⟨w', hstep, rfl⟩
  · rintro w e w' ⟨before, hbefore⟩ hstep
    exact dispatcher_of_step (remembers_of_run hbefore) (waits_of_run hbefore) hstep

/-- **The router serves one call after another.** The calls of the connections and the marks of the health
checker, one event after another, are a run of a dispatcher. The calls of each connection come in the order in
which it has made them, and the marks are some of those of the run, in their order. No connection is given a
backend twice, and none holds more than the last one that it was given. -/
theorem linearizes (cfg : Config) (router : Router) {events : List Event} {w : Fleet}
    (hrun : Machine.run (step cfg) (init router) events = some w) :
    Machine.run Dispatcher.step (Dispatcher.start router) (callsOfRun cfg (init router) events) =
      some w.dispatcher ∧
    (∀ i, (callsOfRun cfg (init router) events).filter (Dispatcher.Event.isOf i) =
      (w.traceOf i).flatMap (Event.answered i)) ∧
    ((callsOfRun cfg (init router) events).filterMap Dispatcher.Event.mark?).Sublist (events.flatMap Event.marks) ∧
    ∀ i, OneAtATime (w.traceOf i) := by
  have hserved := dispatcher_of_run cfg router hrun
  refine ⟨hserved, fun i => ?_, marks_callsOfRun cfg (init router) events, fun i => ?_⟩
  · rw [← answered_routerCalls]
    exact (answers_of_run hserved i).symm
  · rw [OneAtATime, ← acquired_routerCalls, ← released_routerCalls]
    refine Machine.run_invariant (fun d : Dispatcher => OneAtATime (d.told i)) (fun _ _ _ h => h.step) ?_ hserved
    exact ⟨List.nodup_nil, none, rfl⟩

/-- The backend that refuses is given back before another one is asked for. -/
theorem linearizes_refusedOnce : ∃ w,
    Machine.run (step .default) (init twoBackends) refusedOnce = some w ∧
    Machine.run Dispatcher.step (Dispatcher.start twoBackends) [.ask 0, .release 0 localBackend, .ask 0] =
      some w.dispatcher ∧ ∀ i, OneAtATime (w.traceOf i) := by
  obtain ⟨w, hrun⟩ : ∃ w, Machine.run (step .default) (init twoBackends) refusedOnce = some w :=
    Option.isSome_iff_exists.mp (by decide +kernel)
  obtain ⟨hserved, -, -, hheld⟩ := linearizes .default twoBackends hrun
  have hcalls : callsOfRun .default (init twoBackends) refusedOnce = [.ask 0, .release 0 localBackend, .ask 0] := by
    decide +kernel
  rw [hcalls] at hserved
  exact ⟨w, hrun, hserved, hheld⟩

end Fleet

end LoadBalancer
