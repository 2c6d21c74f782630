import Mathlib.Data.Finset.Basic
import Mathlib.Data.Prod.Lex
import Mathlib.Data.String.Basic
import LoadBalancer.Dict
import LoadBalancer.HeapQueue

/-! The two routing algorithms. Each call is one critical section of the router's lock, so a router is
a state and a call is a function on it. `heapq` is assumed to pop a least tuple. -/

namespace LoadBalancer

/-- `(host, port)` -/
structure Backend where
  host : String
  port : Nat
  deriving DecidableEq

instance : LinearOrder Backend :=
  LinearOrder.lift' (fun b => toLex (b.host, b.port)) fun b b' h => by
    obtain ⟨hhost, hport⟩ := Prod.mk.inj (toLex.injective h)
    cases b; cases b'; simp_all

/-! ### Round-robin -/

structure RoundRobinRouter where
  allBackends : List Backend
  healthy : List Backend
  index : Nat

namespace RoundRobinRouter

def init (backends : List Backend) : RoundRobinRouter where
  allBackends := backends
  healthy := backends
  index := 0

/-- The `for _ in range(n)` loop of `next_backend`. -/
def pick (skip : Finset Backend) : Nat → RoundRobinRouter → Option Backend × RoundRobinRouter
  | 0, r => (none, r)
  | tries + 1, r =>
      match r.healthy[r.index % r.healthy.length]? with
      | none => (none, r)
      | some backend =>
          let r := { r with index := r.index + 1 }
          if backend ∈ skip then pick skip tries r else (some backend, r)

def nextBackend (exclude : Option (Finset Backend)) (r : RoundRobinRouter) :
    Option Backend × RoundRobinRouter :=
  pick (exclude.getD ∅) r.healthy.length r

def markUnhealthy (backend : Backend) (r : RoundRobinRouter) : RoundRobinRouter :=
  if backend ∈ r.healthy then { r with healthy := r.healthy.erase backend } else r

def markHealthy (backend : Backend) (r : RoundRobinRouter) : RoundRobinRouter :=
  if backend ∈ r.healthy then r else { r with healthy := r.healthy ++ [backend] }

end RoundRobinRouter

/-! ### Least connections -/

/-- A heap tuple `(active_count, tiebreak, (host, port))`. -/
structure Entry where
  count : Int
  tiebreak : Nat
  backend : Backend
  deriving DecidableEq

namespace Entry

def key (e : Entry) : Int ×ₗ Nat ×ₗ Backend := toLex (e.count, toLex (e.tiebreak, e.backend))

theorem key_injective : Function.Injective key := by
  rintro ⟨count, tiebreak, backend⟩ ⟨count', tiebreak', backend'⟩ h
  obtain ⟨hcount, hrest⟩ := Prod.mk.inj (toLex.injective h)
  obtain ⟨htiebreak, hbackend⟩ := Prod.mk.inj (toLex.injective hrest)
  simp_all

instance : LinearOrder Entry := LinearOrder.lift' key key_injective

theorem count_le_of_le {e e' : Entry} (h : e ≤ e') : e.count ≤ e'.count := by
  have hkey : e.key ≤ e'.key := h
  exact Prod.Lex.monotone_fst_ofLex hkey

end Entry

structure LeastConnectionsRouter where
  allBackends : List Backend
  counts : Dict Backend Int
  tiebreak : Nat
  heap : HeapQueue Entry
  healthySet : Finset Backend

namespace LeastConnectionsRouter

/-- `_counts.get(backend, 0)` -/
def count (r : LeastConnectionsRouter) (backend : Backend) : Int := (r.counts.get? backend).getD 0

/-- Take the next tiebreak and push an entry with it. -/
def pushEntry (count : Int) (backend : Backend) (r : LeastConnectionsRouter) :
    LeastConnectionsRouter :=
  { r with
    tiebreak := r.tiebreak + 1
    heap := r.heap.push ⟨count, r.tiebreak + 1, backend⟩ }

/-- Write a count and push the entry that says it. -/
def recordCount (count : Int) (backend : Backend) (r : LeastConnectionsRouter) :
    LeastConnectionsRouter :=
  { r with counts := r.counts.set backend count }.pushEntry count backend

def init (backends : List Backend) : LeastConnectionsRouter :=
  backends.foldl (fun r backend => r.pushEntry 0 backend)
    { allBackends := backends
      counts := backends.foldl (fun counts backend => counts.set backend 0) Dict.empty
      tiebreak := 0
      heap := HeapQueue.empty
      healthySet := backends.toFinset }

/-- What the loop of `next_backend` does with a popped entry. -/
def verdict (r : LeastConnectionsRouter) (skip : Finset Backend) (e : Entry) : HeapQueue.Verdict :=
  if e.backend ∉ r.healthySet then .drop
  else if e.count ≠ r.count e.backend then .drop
  else if e.backend ∈ skip then .defer
  else .take

def nextBackend (exclude : Option (Finset Backend)) (r : LeastConnectionsRouter) :
    Option Backend × LeastConnectionsRouter :=
  let found := r.heap.search (r.verdict (exclude.getD ∅))
  match found.1 with
  | none => (none, { r with heap := found.2 })
  | some chosen =>
      (some chosen.backend, { r with heap := found.2 }.recordCount (chosen.count + 1) chosen.backend)

def onDisconnect (backend : Backend) (r : LeastConnectionsRouter) : LeastConnectionsRouter :=
  r.recordCount (max 0 (r.count backend - 1)) backend

def markUnhealthy (backend : Backend) (r : LeastConnectionsRouter) : LeastConnectionsRouter :=
  { r with healthySet := r.healthySet.erase backend }

def markHealthy (backend : Backend) (r : LeastConnectionsRouter) : LeastConnectionsRouter :=
  if backend ∈ r.healthySet then r
  else
    { r with
      healthySet := insert backend r.healthySet
      counts := r.counts.setDefault backend 0 }.pushEntry (r.count backend) backend

/-! The count of every backend after each operation. -/

section Count

variable (r : LeastConnectionsRouter) (b b' : Backend)

@[simp] theorem count_pushEntry (n : Int) : (r.pushEntry n b).count b' = r.count b' := rfl

theorem count_recordCount (n : Int) :
    (r.recordCount n b).count b' = if b = b' then n else r.count b' := by
  simp only [count, recordCount, pushEntry, Dict.get?_set]
  split <;> rfl

@[simp] theorem count_markUnhealthy : (r.markUnhealthy b).count b' = r.count b' := rfl

@[simp] theorem count_markHealthy : (r.markHealthy b).count b' = r.count b' := by
  unfold markHealthy
  split
  · rfl
  · simp only [count, pushEntry, Dict.get?_setDefault]
    split
    · next h =>
      subst h
      cases r.counts.get? b <;> rfl
    · rfl

theorem count_onDisconnect :
    (r.onDisconnect b).count b' = if b = b' then max 0 (r.count b - 1) else r.count b' :=
  r.count_recordCount b b' _

end Count

end LeastConnectionsRouter

/-! ### Either router -/

/-- `RoundRobinRouter | LeastConnectionsRouter` -/
inductive Router where
  | roundRobin (r : RoundRobinRouter)
  | leastConnections (r : LeastConnectionsRouter)

/-- A call of the health-checker thread. -/
inductive Mark where
  | healthy (backend : Backend)
  | unhealthy (backend : Backend)
  deriving DecidableEq

namespace Router

def nextBackend (exclude : Option (Finset Backend)) : Router → Option Backend × Router
  | roundRobin r => ((r.nextBackend exclude).1, roundRobin (r.nextBackend exclude).2)
  | leastConnections r => ((r.nextBackend exclude).1, leastConnections (r.nextBackend exclude).2)

/-- A no-op for round-robin. -/
def onDisconnect (backend : Backend) : Router → Router
  | roundRobin r => roundRobin r
  | leastConnections r => leastConnections (r.onDisconnect backend)

def mark : Mark → Router → Router
  | .healthy backend, roundRobin r => roundRobin (r.markHealthy backend)
  | .healthy backend, leastConnections r => leastConnections (r.markHealthy backend)
  | .unhealthy backend, roundRobin r => roundRobin (r.markUnhealthy backend)
  | .unhealthy backend, leastConnections r => leastConnections (r.markUnhealthy backend)

/-- The `_counts` value of a backend; round-robin keeps none. -/
def count (backend : Backend) : Router → Int
  | roundRobin _ => 0
  | leastConnections r => r.count backend

end Router

end LoadBalancer
