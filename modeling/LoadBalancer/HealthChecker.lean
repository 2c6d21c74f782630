import LoadBalancer.HeapGrowth
import LoadBalancer.PyText
import LoadBalancer.RoundRobin

/-! The health-checker thread. A pass probes every backend once and marks it; between its calls the
reactor thread makes its own. Each call is one critical section of the router's lock, so the two threads
interleave call by call. -/

namespace LoadBalancer

open PyText

/-! ### Either router, as the two threads see it -/

namespace Router

/-- `create_router`; `none` where it raises `ValueError`. -/
def create (algorithm : String) (backends : List Backend) : Option Router :=
  if algorithm = "round_robin" then some (roundRobin (.init backends))
  else if algorithm = "least_connections" then some (leastConnections (.init backends))
  else none

def getAllBackends : Router → List Backend
  | roundRobin r => r.allBackends
  | leastConnections r => r.allBackends

/-- `get_healthy_backends`, as a set. -/
def getHealthyBackends : Router → Finset Backend
  | roundRobin r => r.healthy.toFinset
  | leastConnections r => r.healthySet

def operate (r : Router) : Operation → Router
  | .call (.nextBackend exclude) => (r.nextBackend exclude).2
  | .call (.onDisconnect backend) => r.onDisconnect backend
  | .call (.markUnhealthy backend) => r.mark (.unhealthy backend)
  | .call (.markHealthy backend) => r.mark (.healthy backend)
  | .onConnect _ => r

/-- The pool has no duplicates. -/
def Distinct : Router → Prop
  | roundRobin r => r.healthy.Nodup
  | leastConnections _ => True

variable {r : Router} {b b' : Backend}

theorem mem_nextBackend {exclude : Option (Finset Backend)} (h : (r.nextBackend exclude).1 = some b) :
    b ∈ r.getHealthyBackends := by
  cases r with
  | roundRobin r => exact List.mem_toFinset.mpr (RoundRobinRouter.pick_some h).1
  | leastConnections r => exact (LeastConnectionsRouter.nextBackend_mem h).1

@[simp] theorem getHealthyBackends_nextBackend (r : Router) (exclude : Option (Finset Backend)) :
    (r.nextBackend exclude).2.getHealthyBackends = r.getHealthyBackends := by
  cases r with
  | roundRobin r => exact congrArg List.toFinset (RoundRobinRouter.healthy_nextBackend exclude r)
  | leastConnections r => exact LeastConnectionsRouter.healthySet_nextBackend r exclude

@[simp] theorem getHealthyBackends_onDisconnect (r : Router) (b : Backend) :
    (r.onDisconnect b).getHealthyBackends = r.getHealthyBackends := by
  cases r <;> rfl

theorem mem_mark_healthy :
    b ∈ (r.mark (.healthy b')).getHealthyBackends ↔ b = b' ∨ b ∈ r.getHealthyBackends := by
  cases r with
  | roundRobin r =>
      rw [mark, getHealthyBackends, getHealthyBackends, List.mem_toFinset, List.mem_toFinset]
      exact RoundRobinRouter.mem_markHealthy
  | leastConnections r => exact LeastConnectionsRouter.mem_healthySet_markHealthy

theorem mem_mark_unhealthy (h : r.Distinct) :
    b ∈ (r.mark (.unhealthy b')).getHealthyBackends ↔ b ≠ b' ∧ b ∈ r.getHealthyBackends := by
  cases r with
  | roundRobin r =>
      rw [mark, getHealthyBackends, getHealthyBackends, List.mem_toFinset, List.mem_toFinset,
        RoundRobinRouter.healthy_markUnhealthy]
      exact List.Nodup.mem_erase_iff h
  | leastConnections r => exact Finset.mem_erase

theorem Distinct.operate (h : r.Distinct) (op : Operation) : (r.operate op).Distinct := by
  cases r with
  | roundRobin r =>
      have hnodup : (r.operate op).healthy.Nodup := RoundRobinRouter.nodup_operate h op
      cases op with
      | onConnect backend => exact hnodup
      | call c => cases c <;> exact hnodup
  | leastConnections r =>
      cases op with
      | onConnect backend => trivial
      | call c => cases c <;> trivial

@[simp] theorem getAllBackends_operate (r : Router) (op : Operation) :
    (r.operate op).getAllBackends = r.getAllBackends := by
  cases op with
  | onConnect backend => rfl
  | call c =>
      cases r with
      | roundRobin r =>
          cases c with
          | nextBackend exclude => exact RoundRobinRouter.allBackends_nextBackend r exclude
          | onDisconnect backend => rfl
          | markUnhealthy backend =>
              change (r.markUnhealthy backend).allBackends = r.allBackends
              rw [RoundRobinRouter.markUnhealthy]
              split <;> rfl
          | markHealthy backend =>
              change (r.markHealthy backend).allBackends = r.allBackends
              rw [RoundRobinRouter.markHealthy]
              split <;> rfl
      | leastConnections r =>
          cases c with
          | nextBackend exclude => exact LeastConnectionsRouter.allBackends_nextBackend r exclude
          | onDisconnect backend => rfl
          | markUnhealthy backend => rfl
          | markHealthy backend =>
              change (r.markHealthy backend).allBackends = r.allBackends
              rw [LeastConnectionsRouter.markHealthy]
              split <;> rfl

/-- A router over the given backends, with no others in its pool. -/
structure Over (backends : List Backend) (r : Router) : Prop where
  all : r.getAllBackends = backends
  distinct : r.Distinct
  listed : ∀ b ∈ r.getHealthyBackends, b ∈ backends

variable {backends : List Backend}

theorem Over.operate (h : Over backends r) {op : Operation} (hop : op.OnListed backends) :
    Over backends (r.operate op) := by
  refine ⟨(getAllBackends_operate r op).trans h.all, h.distinct.operate op, fun b hb => ?_⟩
  cases op with
  | onConnect backend => exact h.listed b hb
  | call c =>
      cases c with
      | nextBackend exclude => exact h.listed b (getHealthyBackends_nextBackend r exclude ▸ hb)
      | onDisconnect backend => exact h.listed b (getHealthyBackends_onDisconnect r backend ▸ hb)
      | markUnhealthy backend => exact h.listed b ((mem_mark_unhealthy h.distinct).mp hb).2
      | markHealthy backend =>
          rcases mem_mark_healthy.mp hb with rfl | hb
          · exact hop
          · exact h.listed b hb

theorem listed_create {algorithm : String} (h : create algorithm backends = some r) :
    ∀ b ∈ r.getHealthyBackends, b ∈ backends := by
  intro b hb
  unfold create at h
  split at h
  · obtain rfl := Option.some.inj h
    exact List.mem_toFinset.mp hb
  · obtain ⟨-, heq⟩ := Option.ite_none_right_eq_some.mp h
    obtain rfl := Option.some.inj heq
    exact List.mem_toFinset.mp (LeastConnectionsRouter.healthySet_init backends ▸ hb)

theorem over_create {algorithm : String} (hdistinct : backends.Nodup)
    (h : create algorithm backends = some r) : Over backends r := by
  have hlisted := listed_create h
  unfold create at h
  split at h
  · obtain rfl := Option.some.inj h
    exact ⟨rfl, hdistinct, hlisted⟩
  · obtain ⟨-, heq⟩ := Option.ite_none_right_eq_some.mp h
    obtain rfl := Option.some.inj heq
    exact ⟨LeastConnectionsRouter.allBackends_init backends, trivial, hlisted⟩

end Router

/-! ### The checker thread -/

/-- What a probe comes to: an `OSError` on the way, or what its `recv` returns. -/
inductive ProbeAnswer where
  | osError
  | data (bytes : Bytes)

/-- `_probe` -/
def probe : ProbeAnswer → Bool
  | .osError => false
  | .data bytes => !bytes.isEmpty && (ascii "HTTP/").isPrefixOf bytes

/-- The router call that a probe leads to. -/
def Mark.found (backend : Backend) (healthy : Bool) : Mark :=
  if healthy then .healthy backend else .unhealthy backend

/-- A router call of the reactor thread. -/
inductive ReactorCall where
  | nextBackend (exclude : Option (Finset Backend))
  | onConnect (backend : Backend)
  | onDisconnect (backend : Backend)

def ReactorCall.operation : ReactorCall → Operation
  | nextBackend exclude => .call (.nextBackend exclude)
  | onConnect backend => .onConnect backend
  | onDisconnect backend => .call (.onDisconnect backend)

/-- The router, and how far the checker thread is in its pass: the backends it has yet to probe, and those
it has probed with what it found. -/
structure HealthChecker where
  router : Router
  pending : List Backend
  probed : List (Backend × Bool)

namespace HealthChecker

/-- `allBackends` is the call at the head of the `while` loop, `probe` a turn of the `for` loop. -/
inductive Event where
  | allBackends
  | probe (answer : ProbeAnswer)
  | reactor (call : ReactorCall)

def beginPass (router : Router) : HealthChecker := ⟨router, router.getAllBackends, []⟩

/-- `_run` and the reactor thread, one router call at a time. -/
def step (s : HealthChecker) : Event → Option HealthChecker
  | .allBackends =>
      match s.pending with
      | [] => some (beginPass s.router)
      | _ :: _ => none
  | .probe answer =>
      match s.pending with
      | [] => none
      | backend :: pending =>
          let healthy := probe answer
          some
            { router := s.router.mark (.found backend healthy)
              pending := pending
              probed := s.probed ++ [(backend, healthy)] }
  | .reactor call => some { s with router := s.router.operate call.operation }

/-- In a pass over `backends`: what has been probed is in the pool as it was found. -/
structure Sweeping (backends : List Backend) (s : HealthChecker) : Prop where
  backed : Router.Over backends s.router
  swept : s.probed.map Prod.fst ++ s.pending = backends
  agree : ∀ p ∈ s.probed, (p.1 ∈ s.router.getHealthyBackends ↔ p.2 = true)

variable {backends : List Backend} {s s' : HealthChecker}

theorem sweeping_beginPass {router : Router} (h : Router.Over backends router) :
    Sweeping backends (beginPass router) := ⟨h, h.all, nofun⟩

@[simp] theorem getHealthyBackends_reactor (r : Router) (call : ReactorCall) :
    (r.operate call.operation).getHealthyBackends = r.getHealthyBackends := by
  cases call with
  | nextBackend exclude => exact Router.getHealthyBackends_nextBackend r exclude
  | onConnect backend => rfl
  | onDisconnect backend => exact Router.getHealthyBackends_onDisconnect r backend

theorem Sweeping.reactor (h : Sweeping backends s) (call : ReactorCall) :
    Sweeping backends { s with router := s.router.operate call.operation } := by
  refine ⟨h.backed.operate (by cases call <;> trivial), h.swept, fun p hp => ?_⟩
  rw [getHealthyBackends_reactor]
  exact h.agree p hp

/-- Marking a backend leaves the others in the pool, or out of it. -/
theorem mem_mark {r : Router} {b b' : Backend} (hdistinct : r.Distinct) (healthy : Bool) :
    b ∈ (r.mark (.found b' healthy)).getHealthyBackends ↔
      if b = b' then healthy = true else b ∈ r.getHealthyBackends := by
  cases healthy with
  | true =>
      rw [Mark.found, if_pos rfl, Router.mem_mark_healthy]
      split <;> simp_all
  | false =>
      rw [Mark.found, if_neg Bool.false_ne_true, Router.mem_mark_unhealthy hdistinct]
      split <;> simp_all

theorem Sweeping.probe (hdistinct : backends.Nodup) (h : Sweeping backends s) {backend : Backend}
    {pending : List Backend} (hpending : s.pending = backend :: pending) (healthy : Bool) :
    Sweeping backends
      { router := s.router.mark (.found backend healthy)
        pending := pending
        probed := s.probed ++ [(backend, healthy)] } := by
  have hswept : s.probed.map Prod.fst ++ backend :: pending = backends := hpending ▸ h.swept
  have hlisted : backend ∈ backends := hswept ▸ List.mem_append_right _ List.mem_cons_self
  refine ⟨?_, ?_, fun p hp => ?_⟩
  · cases healthy with
    | true =>
        have hop : (Operation.call (.markHealthy backend)).OnListed backends := hlisted
        exact h.backed.operate hop
    | false =>
        have hop : (Operation.call (.markUnhealthy backend)).OnListed backends := hlisted
        exact h.backed.operate hop
  · rw [List.map_append, List.append_assoc]
    exact hswept
  · rw [mem_mark h.backed.distinct]
    rcases List.mem_append.mp hp with hp | hp
    · -- a backend is pending once, so it is not among those probed
      have hne : p.1 ≠ backend := by
        rintro heq
        rw [← hswept] at hdistinct
        exact (List.nodup_append.mp hdistinct).2.2 p.1 (List.mem_map_of_mem hp) backend
          List.mem_cons_self heq
      rw [if_neg hne]
      exact h.agree p hp
    · obtain rfl := List.mem_singleton.mp hp
      rw [if_pos rfl]

theorem Sweeping.step (hdistinct : backends.Nodup) {e : Event} (h : Sweeping backends s)
    (hstep : s.step e = some s') : Sweeping backends s' := by
  cases e with
  | allBackends =>
      rw [HealthChecker.step] at hstep
      split at hstep
      · obtain rfl := Option.some.inj hstep
        exact sweeping_beginPass h.backed
      · cases hstep
  | probe answer =>
      rw [HealthChecker.step] at hstep
      split at hstep
      · cases hstep
      · rename_i backend pending hpending
        obtain rfl := Option.some.inj hstep
        exact h.probe hdistinct hpending (LoadBalancer.probe answer)
  | reactor call =>
      obtain rfl := Option.some.inj hstep
      exact h.reactor call

end HealthChecker

end LoadBalancer
