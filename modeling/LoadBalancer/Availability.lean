import LoadBalancer.Cyclic
import LoadBalancer.LeastConnections

/-! The two routing algorithms are interchangeable for availability. They choose differently, but one
keeps as a list what the other keeps as a set, and each finds a backend exactly when there is one: the
cyclic search because it visits every place of the list, the heap search because every healthy backend
has a current entry. -/

namespace LoadBalancer

/-- The calls that both routers answer. -/
inductive Operation where
  | call (c : RouterCall)
  /-- A no-op of both. -/
  | onConnect (backend : Backend)

namespace LeastConnectionsRouter

def operate (r : LeastConnectionsRouter) : Operation → LeastConnectionsRouter
  | .call c => r.perform c
  | .onConnect _ => r

@[simp] theorem healthySet_nextBackend (r : LeastConnectionsRouter) (exclude : Option (Finset Backend)) :
    (r.nextBackend exclude).2.healthySet = r.healthySet := by
  cases hfound : (r.heap.search (r.verdict (exclude.getD ∅))).1 with
  | none => rw [nextBackend_of_none hfound]
  | some e =>
      rw [nextBackend_of_some hfound]
      rfl

theorem mem_healthySet_markHealthy {r : LeastConnectionsRouter} {backend b : Backend} :
    b ∈ (r.markHealthy backend).healthySet ↔ b = backend ∨ b ∈ r.healthySet := by
  unfold markHealthy
  split
  · next hmem => exact ⟨Or.inr, fun h => h.elim (fun heq => heq ▸ hmem) id⟩
  · exact Finset.mem_insert

end LeastConnectionsRouter

namespace RoundRobinRouter

def operate (r : RoundRobinRouter) : Operation → RoundRobinRouter
  | .call (.nextBackend exclude) => (r.nextBackend exclude).2
  | .call (.onDisconnect _) => r
  | .call (.markUnhealthy backend) => r.markUnhealthy backend
  | .call (.markHealthy backend) => r.markHealthy backend
  | .onConnect _ => r

/-! ### The cyclic search -/

@[simp] theorem healthy_pick (skip : Finset Backend) (tries : Nat) (r : RoundRobinRouter) :
    (pick skip tries r).2.healthy = r.healthy := by
  induction tries generalizing r with
  | zero => rfl
  | succ tries ih =>
      unfold pick
      split
      · rfl
      · dsimp only
        split
        · exact ih _
        · rfl

@[simp] theorem healthy_nextBackend (exclude : Option (Finset Backend)) (r : RoundRobinRouter) :
    (r.nextBackend exclude).2.healthy = r.healthy := healthy_pick _ _ r

theorem pick_some {skip : Finset Backend} {tries : Nat} {r : RoundRobinRouter} {b : Backend}
    (h : (pick skip tries r).1 = some b) : b ∈ r.healthy ∧ b ∉ skip := by
  induction tries generalizing r with
  | zero => cases h
  | succ tries ih =>
      unfold pick at h
      split at h
      · cases h
      · next backend hget =>
        dsimp only at h
        split at h
        · exact ih (r := { r with index := r.index + 1 }) h
        · next hskip =>
          obtain rfl := Option.some.inj h
          exact ⟨List.mem_of_getElem? hget, hskip⟩

/-- A search that finds nothing has passed the next `tries` places, and skipped what is there. -/
theorem pick_none {skip : Finset Backend} {tries : Nat} {r : RoundRobinRouter}
    (hpool : r.healthy ≠ []) (h : (pick skip tries r).1 = none) {k : Nat} (hk : k < tries) {b : Backend}
    (hb : r.healthy[(r.index + k) % r.healthy.length]? = some b) : b ∈ skip := by
  induction tries generalizing r k with
  | zero => exact absurd hk (Nat.not_lt_zero k)
  | succ tries ih =>
      have hlt : r.index % r.healthy.length < r.healthy.length :=
        Nat.mod_lt _ (List.length_pos_of_ne_nil hpool)
      rw [pick, List.getElem?_eq_getElem hlt] at h
      dsimp only at h
      split at h
      · next hskip =>
        cases k with
        | zero =>
            rw [Nat.add_zero, List.getElem?_eq_getElem hlt] at hb
            exact Option.some.inj hb ▸ hskip
        | succ k =>
            refine ih (r := { r with index := r.index + 1 }) hpool h (Nat.lt_of_succ_lt_succ hk) ?_
            rwa [show r.index + 1 + k = r.index + (k + 1) by omega]
      · cases h

/-- The search finds a backend exactly when the pool has one outside `exclude`. -/
theorem nextBackend_eq_none {exclude : Option (Finset Backend)} {r : RoundRobinRouter} :
    (r.nextBackend exclude).1 = none ↔ ∀ b ∈ r.healthy, b ∈ exclude.getD ∅ := by
  constructor
  · intro hnone b hb
    obtain ⟨j, hj, hget⟩ := List.mem_iff_getElem.mp hb
    have hk := Cyclic.gap_lt (Nat.zero_lt_of_lt hj) j r.index
    refine pick_none (List.ne_nil_of_mem hb) hnone hk ?_
    rw [Cyclic.add_gap_mod hj, List.getElem?_eq_getElem hj, hget]
  · intro hall
    cases hpick : (r.nextBackend exclude).1 with
    | none => rfl
    | some b =>
        obtain ⟨hmem, hskip⟩ := pick_some hpick
        exact absurd (hall b hmem) hskip

/-! ### The pool -/

theorem mem_markHealthy {r : RoundRobinRouter} {backend b : Backend} :
    b ∈ (r.markHealthy backend).healthy ↔ b = backend ∨ b ∈ r.healthy := by
  unfold markHealthy
  split
  · next hmem => exact ⟨Or.inr, fun h => h.elim (fun heq => heq ▸ hmem) id⟩
  · simp [or_comm]

theorem nodup_markHealthy {r : RoundRobinRouter} (h : r.healthy.Nodup) (backend : Backend) :
    (r.markHealthy backend).healthy.Nodup := by
  unfold markHealthy
  split
  · exact h
  · next hnot => exact List.nodup_append.mpr ⟨h, List.nodup_singleton _, by
      rintro a ha b hb rfl
      exact hnot (List.mem_singleton.mp hb ▸ ha)⟩

theorem healthy_markUnhealthy (r : RoundRobinRouter) (backend : Backend) :
    (r.markUnhealthy backend).healthy = r.healthy.erase backend := by
  unfold markUnhealthy
  split
  · rfl
  · next hnot => exact (List.erase_of_not_mem hnot).symm

theorem nodup_operate {r : RoundRobinRouter} (h : r.healthy.Nodup) (op : Operation) :
    (r.operate op).healthy.Nodup := by
  cases op with
  | onConnect backend => exact h
  | call c =>
      cases c with
      | nextBackend exclude =>
          rw [operate, healthy_nextBackend]
          exact h
      | onDisconnect backend => exact h
      | markUnhealthy backend =>
          rw [operate, healthy_markUnhealthy]
          exact h.erase backend
      | markHealthy backend => exact nodup_markHealthy h backend

end RoundRobinRouter

/-! ### The simulation -/

/-- The two routers have the same pool. -/
structure Agree (rr : RoundRobinRouter) (lc : LeastConnectionsRouter) : Prop where
  nodup : rr.healthy.Nodup
  pool : ∀ b, b ∈ rr.healthy ↔ b ∈ lc.healthySet
  covered : lc.Covered

section Simulation

variable {rr : RoundRobinRouter} {lc : LeastConnectionsRouter}

theorem agree_init {backends : List Backend} (hdistinct : backends.Nodup) :
    Agree (.init backends) (.init backends) where
  nodup := hdistinct
  pool b := by
    rw [LeastConnectionsRouter.init, (LeastConnectionsRouter.pushAll_init backends _).1]
    exact List.mem_toFinset.symm
  covered := LeastConnectionsRouter.covered_init backends

theorem Agree.operate (h : Agree rr lc) (op : Operation) : Agree (rr.operate op) (lc.operate op) := by
  cases op with
  | onConnect backend => exact h
  | call c =>
      refine ⟨RoundRobinRouter.nodup_operate h.nodup (.call c), fun b => ?_, h.covered.perform c⟩
      cases c with
      | nextBackend exclude =>
          rw [RoundRobinRouter.operate, RoundRobinRouter.healthy_nextBackend, h.pool b]
          exact iff_of_eq (congrArg (b ∈ ·) (lc.healthySet_nextBackend exclude).symm)
      | onDisconnect backend => exact h.pool b
      | markUnhealthy backend =>
          rw [RoundRobinRouter.operate, RoundRobinRouter.healthy_markUnhealthy,
            h.nodup.mem_erase_iff, h.pool b]
          exact Finset.mem_erase.symm
      | markHealthy backend =>
          exact RoundRobinRouter.mem_markHealthy.trans ((or_congr_right (h.pool b)).trans
            LeastConnectionsRouter.mem_healthySet_markHealthy.symm)

theorem agree_after {backends : List Backend} (hdistinct : backends.Nodup) (ops : List Operation) :
    Agree (ops.foldl RoundRobinRouter.operate (.init backends))
      (ops.foldl LeastConnectionsRouter.operate (.init backends)) := by
  suffices h : ∀ rr lc, Agree rr lc →
      Agree (ops.foldl RoundRobinRouter.operate rr) (ops.foldl LeastConnectionsRouter.operate lc) from
    h _ _ (agree_init hdistinct)
  induction ops with
  | nil => exact fun _ _ h => h
  | cons op ops ih => exact fun rr lc h => ih _ _ (h.operate op)

/-- What either router returns is in the pool and not excluded, and they fail together. -/
theorem Agree.nextBackend (h : Agree rr lc) (exclude : Option (Finset Backend)) :
    ((rr.nextBackend exclude).1 = none ↔ (lc.nextBackend exclude).1 = none) ∧
    ∀ b, ((rr.nextBackend exclude).1 = some b ∨ (lc.nextBackend exclude).1 = some b) →
      b ∈ rr.healthy ∧ b ∉ exclude.getD ∅ := by
  refine ⟨RoundRobinRouter.nextBackend_eq_none.trans ?_, ?_⟩
  · rw [h.covered.nextBackend_eq_none_iff]
    exact forall_congr' fun b => by rw [h.pool b]
  · rintro b (hb | hb)
    · exact RoundRobinRouter.pick_some hb
    · obtain ⟨hhealthy, hskip⟩ := LeastConnectionsRouter.nextBackend_mem hb
      exact ⟨(h.pool b).mpr hhealthy, hskip⟩

/-- **The routers are interchangeable for availability.** After any operations on a round-robin and a
least-connections router over the same distinct backends, the healthy pools have the same backends, the
round-robin one each of them once; `next_backend` fails in one exactly when it fails in the other, and
what either returns is healthy and not excluded. -/
theorem routers_interchangeable {backends : List Backend} (hdistinct : backends.Nodup)
    (ops : List Operation) :
    let rr := ops.foldl RoundRobinRouter.operate (.init backends)
    let lc := ops.foldl LeastConnectionsRouter.operate (.init backends)
    rr.healthy.toFinset = lc.healthySet ∧ rr.healthy.Nodup ∧
    ∀ exclude, ((rr.nextBackend exclude).1 = none ↔ (lc.nextBackend exclude).1 = none) ∧
      ∀ b, ((rr.nextBackend exclude).1 = some b ∨ (lc.nextBackend exclude).1 = some b) →
        b ∈ rr.healthy ∧ b ∈ lc.healthySet ∧ b ∉ exclude.getD ∅ := by
  intro rr lc
  have h : Agree rr lc := agree_after hdistinct ops
  refine ⟨Finset.ext fun b => List.mem_toFinset.trans (h.pool b), h.nodup, fun exclude => ?_⟩
  obtain ⟨hnone, hsome⟩ := h.nextBackend exclude
  refine ⟨hnone, fun b hb => ?_⟩
  obtain ⟨hmem, hskip⟩ := hsome b hb
  exact ⟨hmem, (h.pool b).mp hmem, hskip⟩

theorem routers_interchangeable_pair :
    let backends : List Backend := [⟨"127.0.0.1", 9001⟩, ⟨"127.0.0.1", 9002⟩]
    let ops : List Operation := [.call (.nextBackend none), .call (.markUnhealthy ⟨"127.0.0.1", 9001⟩)]
    let rr := ops.foldl RoundRobinRouter.operate (.init backends)
    let lc := ops.foldl LeastConnectionsRouter.operate (.init backends)
    rr.healthy.toFinset = lc.healthySet ∧ rr.healthy.Nodup ∧
    ∀ exclude, ((rr.nextBackend exclude).1 = none ↔ (lc.nextBackend exclude).1 = none) ∧
      ∀ b, ((rr.nextBackend exclude).1 = some b ∨ (lc.nextBackend exclude).1 = some b) →
        b ∈ rr.healthy ∧ b ∈ lc.healthySet ∧ b ∉ exclude.getD ∅ :=
  routers_interchangeable (by decide) _

end Simulation

end LoadBalancer
