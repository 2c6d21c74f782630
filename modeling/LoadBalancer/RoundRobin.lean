import Mathlib.Data.Nat.Factorial.Basic
import LoadBalancer.Availability

/-! Round-robin over whole runs. While the pool stays as it is, each backend gets its turn equally often.
While it changes under the cursor, the place of a backend that stays in the pool never grows, and as long
as it is the same the backend gets its turn at the next index that is this place modulo every size that
the pool can have. -/

namespace LoadBalancer

/-- The health calls are about backends of the list. -/
def Operation.OnListed (backends : List Backend) : Operation → Prop
  | .call (.markUnhealthy b) => b ∈ backends
  | .call (.markHealthy b) => b ∈ backends
  | _ => True

namespace RoundRobinRouter

/-- What an operation returns, if it is a `next_backend`. -/
def given (r : RoundRobinRouter) : Operation → List (Option Backend)
  | .call (.nextBackend exclude) => [(r.nextBackend exclude).1]
  | _ => []

/-- What the `next_backend` calls among the operations return. -/
def handedOut : RoundRobinRouter → List Operation → List (Option Backend)
  | _, [] => []
  | r, op :: ops => r.given op ++ handedOut (r.operate op) ops

/-- The operation does not exclude `a`, and changes the health of other backends of the list only. -/
def Spares (backends : List Backend) (a : Backend) : Operation → Prop
  | .call (.nextBackend exclude) => a ∉ exclude.getD ∅
  | .call (.markUnhealthy b) => b ∈ backends ∧ b ≠ a
  | .call (.markHealthy b) => b ∈ backends ∧ b ≠ a
  | _ => True

/-- Calls that follow each other in what a run hands out belong to a part of the run. -/
theorem handedOut_eq_append {r : RoundRobinRouter} {ops : List Operation} {xs ys : List (Option Backend)}
    (h : handedOut r ops = xs ++ ys) : ∃ ops₁ ops₂, ops = ops₁ ++ ops₂ ∧ handedOut r ops₁ = xs ∧
      handedOut (ops₁.foldl operate r) ops₂ = ys := by
  induction ops generalizing r xs with
  | nil =>
      obtain ⟨rfl, rfl⟩ := List.append_eq_nil_iff.mp h.symm
      exact ⟨[], [], rfl, rfl, rfl⟩
  | cons op ops ih =>
      cases xs with
      | nil => exact ⟨[], op :: ops, rfl, rfl, h⟩
      | cons x xs =>
          rw [handedOut] at h
          have hgiven : r.given op = [] ∨ ∃ y, r.given op = [y] := by
            unfold given
            split
            · exact .inr ⟨_, rfl⟩
            · exact .inl rfl
          rcases hgiven with hnil | ⟨y, hone⟩
          · rw [hnil, List.nil_append] at h
            obtain ⟨ops₁, ops₂, rfl, hfirst, hrest⟩ := ih h
            exact ⟨op :: ops₁, ops₂, rfl, by rw [handedOut, hnil, hfirst, List.nil_append], hrest⟩
          · rw [hone, List.singleton_append, List.cons_append] at h
            obtain ⟨rfl, htail⟩ := List.cons.inj h
            obtain ⟨ops₁, ops₂, rfl, hfirst, hrest⟩ := ih htail
            exact ⟨op :: ops₁, ops₂, rfl, by rw [handedOut, hone, hfirst, List.singleton_append], hrest⟩

@[simp] theorem allBackends_nextBackend (r : RoundRobinRouter) (exclude : Option (Finset Backend)) :
    (r.nextBackend exclude).2.allBackends = r.allBackends := by
  rw [nextBackend]
  generalize r.healthy.length = tries
  induction tries generalizing r with
  | zero => rfl
  | succ tries ih =>
      unfold pick
      split
      · rfl
      · dsimp only
        split
        · exact ih _
        · rfl

/-! ### The pool -/

/-- The pool has backends of the list, each once. -/
structure Pool (backends : List Backend) (r : RoundRobinRouter) : Prop where
  nodup : r.healthy.Nodup
  listed : ∀ b ∈ r.healthy, b ∈ backends

variable {backends : List Backend} {r : RoundRobinRouter} {a : Backend}

theorem Pool.operate (h : Pool backends r) {op : Operation} (hop : op.OnListed backends) :
    Pool backends (r.operate op) := by
  refine ⟨nodup_operate h.nodup op, fun b hb => ?_⟩
  cases op with
  | onConnect backend => exact h.listed b hb
  | call c =>
      cases c with
      | nextBackend exclude =>
          rw [RoundRobinRouter.operate, healthy_nextBackend] at hb
          exact h.listed b hb
      | onDisconnect backend => exact h.listed b hb
      | markUnhealthy backend =>
          rw [RoundRobinRouter.operate, healthy_markUnhealthy] at hb
          exact h.listed b (List.mem_of_mem_erase hb)
      | markHealthy backend =>
          rcases mem_markHealthy.mp hb with rfl | hb
          · exact hop
          · exact h.listed b hb

theorem pool_after (hdistinct : backends.Nodup) {ops : List Operation}
    (hops : ∀ op ∈ ops, op.OnListed backends) : Pool backends (ops.foldl operate (.init backends)) :=
  List.foldlRecOn ops operate ⟨hdistinct, fun _ hb => hb⟩ fun _ h op hop => h.operate (hops op hop)

theorem Spares.onListed {op : Operation} (h : Spares backends a op) : op.OnListed backends := by
  cases op with
  | onConnect backend => trivial
  | call c =>
      cases c with
      | nextBackend exclude => trivial
      | onDisconnect backend => trivial
      | markUnhealthy backend => exact h.1
      | markHealthy backend => exact h.1

theorem Pool.length_le (h : Pool backends r) : r.healthy.length ≤ backends.length :=
  (h.nodup.subperm h.listed).length_le

/-! ### No starvation -/

/-- The number of steps of the index until `a` is at hand for every size of the pool, if its place stays. -/
def ahead (m : Nat) (a : Backend) (r : RoundRobinRouter) : Nat := Cyclic.gap m (r.healthy.idxOf a) r.index

/-- How long `a` may still have to wait: its place counts for `m` calls each. -/
def patience (m : Nat) (a : Backend) (r : RoundRobinRouter) : Nat := r.healthy.idxOf a * m + ahead m a r

variable {m : Nat}

/-- A search that passes `a` by comes nearer to it. -/
theorem ahead_pick {skip : Finset Backend} {tries : Nat} (hm : 0 < m) (hdvd : r.healthy.length ∣ m)
    (ha : a ∈ r.healthy) (hskip : a ∉ skip) (hmiss : (pick skip tries r).1 ≠ some a) :
    ahead m a (pick skip tries r).2 ≤ ahead m a r ∧
      (0 < tries → ahead m a (pick skip tries r).2 < ahead m a r) := by
  induction tries generalizing r with
  | zero => exact ⟨le_rfl, fun h => absurd h (Nat.lt_irrefl 0)⟩
  | succ tries ih =>
      have hlt : r.index % r.healthy.length < r.healthy.length :=
        Nat.mod_lt _ (List.length_pos_of_mem ha)
      rw [pick, List.getElem?_eq_getElem hlt] at hmiss ⊢
      dsimp only at hmiss ⊢
      have hne : r.healthy[r.index % r.healthy.length] ≠ a := by
        intro heq
        rw [heq, if_neg hskip] at hmiss
        exact hmiss rfl
      have hgap : ahead m a r ≠ 0 := by
        intro hzero
        have hplace := Cyclic.mod_eq_of_gap hdvd (List.idxOf_lt_length_of_mem ha) hm hzero
        refine hne ?_
        simp only [hplace, List.getElem_idxOf]
      have hstep : ahead m a { r with index := r.index + 1 } + 1 = ahead m a r := Cyclic.gap_succ hm hgap
      split at hmiss
      · next hin =>
        rw [if_pos hin]
        obtain ⟨hle, -⟩ := ih (r := { r with index := r.index + 1 }) hdvd ha hmiss
        exact ⟨by omega, fun _ => by omega⟩
      · next hout =>
        rw [if_neg hout]
        exact ⟨by dsimp only; omega, fun _ => by dsimp only; omega⟩

/-- The removal of another backend does not bring `a` further back. -/
theorem idxOf_erase_le {l : List Backend} {b : Backend} (hne : b ≠ a) :
    (l.erase b).idxOf a ≤ l.idxOf a := by
  induction l with
  | nil => exact le_rfl
  | cons x l ih =>
      by_cases hx : x = b
      · rw [hx, List.erase_cons_head, List.idxOf_cons_ne l hne]
        exact Nat.le_succ _
      · rw [List.erase_cons_tail (by simpa using hx)]
        by_cases hxa : x = a
        · rw [hxa, List.idxOf_cons_self]
          exact Nat.zero_le _
        · rw [List.idxOf_cons_ne _ hxa, List.idxOf_cons_ne _ hxa]
          exact Nat.succ_le_succ ih

/-- A change of the pool that does not bring `a` further back costs it nothing. -/
theorem patience_le {r' : RoundRobinRouter} (hm : 0 < m) (hindex : r'.index = r.index)
    (hplace : r'.healthy.idxOf a ≤ r.healthy.idxOf a) : patience m a r' ≤ patience m a r := by
  rcases Nat.eq_or_lt_of_le hplace with heq | hlt
  · rw [patience, patience, ahead, ahead, heq, hindex]
  · have hgap : ahead m a r' < m := Cyclic.gap_lt hm _ _
    calc patience m a r' ≤ (r'.healthy.idxOf a + 1) * m := by
          rw [Nat.succ_mul]
          exact Nat.add_le_add_left hgap.le _
      _ ≤ r.healthy.idxOf a * m := Nat.mul_le_mul_right m hlt
      _ ≤ patience m a r := Nat.le_add_right _ _

theorem Spares.mem_operate {op : Operation} (h : Spares backends a op) (ha : a ∈ r.healthy) :
    a ∈ (r.operate op).healthy := by
  cases op with
  | onConnect backend => exact ha
  | call c =>
      cases c with
      | nextBackend exclude =>
          rw [operate, healthy_nextBackend]
          exact ha
      | onDisconnect backend => exact ha
      | markUnhealthy backend =>
          rw [operate, healthy_markUnhealthy]
          exact (List.mem_erase_of_ne h.2.symm).mpr ha
      | markHealthy backend => exact mem_markHealthy.mpr (.inr ha)

/-- Each call that does not return `a` takes one from its patience, and no operation adds to it. -/
theorem patience_operate {op : Operation} (hm : 0 < m) (hdvd : r.healthy.length ∣ m) (ha : a ∈ r.healthy)
    (hop : Spares backends a op) (hmiss : some a ∉ r.given op) :
    patience m a (r.operate op) + (r.given op).length ≤ patience m a r := by
  cases op with
  | onConnect backend => exact le_rfl
  | call c =>
      cases c with
      | nextBackend exclude =>
          have hne : (r.nextBackend exclude).1 ≠ some a := fun heq => hmiss (by simp [given, heq])
          have hlt := (ahead_pick hm hdvd ha hop hne).2 (List.length_pos_of_mem ha)
          have hplace : (r.nextBackend exclude).2.healthy = r.healthy := healthy_nextBackend exclude r
          rw [operate, given, patience, patience, hplace, List.length_singleton]
          change ahead m a (r.nextBackend exclude).2 < ahead m a r at hlt
          omega
      | onDisconnect backend => exact le_rfl
      | markUnhealthy backend =>
          refine patience_le hm ?_ ?_
          · rw [operate, markUnhealthy]
            split <;> rfl
          · rw [operate, healthy_markUnhealthy]
            exact idxOf_erase_le hop.2
      | markHealthy backend =>
          refine patience_le hm ?_ ?_
          · rw [operate, markHealthy]
            split <;> rfl
          · rw [operate, markHealthy]
            split
            · exact le_rfl
            · exact (List.idxOf_append_of_mem ha).le

theorem patience_run {ops : List Operation} (h : Pool backends r) (ha : a ∈ r.healthy)
    (hops : ∀ op ∈ ops, Spares backends a op) (hmiss : some a ∉ handedOut r ops) :
    (handedOut r ops).length ≤ patience backends.length.factorial a r := by
  induction ops generalizing r with
  | nil => exact Nat.zero_le _
  | cons op ops ih =>
      have hop := hops op List.mem_cons_self
      obtain ⟨hfirst, hrest⟩ := not_or.mp (mt List.mem_append.mpr hmiss)
      have hdvd : r.healthy.length ∣ backends.length.factorial :=
        Nat.dvd_factorial (List.length_pos_of_mem ha) h.length_le
      have hstep := patience_operate (Nat.factorial_pos _) hdvd ha hop hfirst
      have htail := ih (h.operate hop.onListed) (hop.mem_operate ha)
        (fun op' hop' => hops op' (List.mem_cons_of_mem op hop')) hrest
      rw [handedOut, List.length_append]
      omega

/-- The patience is below one call for each place in the list and each remainder. -/
theorem Pool.patience_lt (h : Pool backends r) (ha : a ∈ r.healthy) (hm : 0 < m) :
    patience m a r < backends.length * m := by
  have hgap : ahead m a r < m := Cyclic.gap_lt hm _ _
  have hplace : r.healthy.idxOf a + 1 ≤ backends.length :=
    (List.idxOf_lt_length_of_mem ha).trans_le h.length_le
  calc patience m a r < (r.healthy.idxOf a + 1) * m := by
        rw [Nat.succ_mul]
        exact Nat.add_lt_add_left hgap _
    _ ≤ backends.length * m := Nat.mul_le_mul_right m hplace

/-- **No healthy backend starves.** Let `a` be in the pool of a round-robin router over `N` backends, after
any operations on these. As long as it stays in and is not excluded, one of any `N * N!` calls of
`next_backend` in a row returns it, whatever health changes of the others come between them. -/
theorem no_backend_starves (hdistinct : backends.Nodup) {before : List Operation}
    (hbefore : ∀ op ∈ before, op.OnListed backends)
    (ha : a ∈ (before.foldl operate (.init backends)).healthy) {ops : List Operation}
    (hops : ∀ op ∈ ops, Spares backends a op) {calls : List (Option Backend)}
    (hcalls : calls <:+: handedOut (before.foldl operate (.init backends)) ops)
    (hlength : backends.length * backends.length.factorial ≤ calls.length) : some a ∈ calls := by
  by_contra hmiss
  have hpool := pool_after hdistinct hbefore
  generalize before.foldl operate (.init backends) = r at ha hcalls hpool
  obtain ⟨earlier, later, hsplit⟩ := hcalls
  obtain ⟨ops₁, ops', rfl, -, hrest⟩ := handedOut_eq_append (hsplit.symm.trans (List.append_assoc _ _ _))
  obtain ⟨ops₂, ops₃, rfl, hwindow, -⟩ := handedOut_eq_append hrest
  have hops₁ : ∀ op ∈ ops₁, Spares backends a op := fun op hop => hops op (List.mem_append_left _ hop)
  have hreached : Pool backends (ops₁.foldl operate r) ∧ a ∈ (ops₁.foldl operate r).healthy :=
    List.foldlRecOn ops₁ operate (motive := fun r => Pool backends r ∧ a ∈ r.healthy) ⟨hpool, ha⟩
      fun _ h op hop => ⟨h.1.operate (hops₁ op hop).onListed, (hops₁ op hop).mem_operate h.2⟩
  obtain ⟨hpool₁, ha₁⟩ := hreached
  have hle := patience_run hpool₁ ha₁
    (fun op hop => hops op (List.mem_append_right _ (List.mem_append_left _ hop))) (hwindow ▸ hmiss)
  have hlt := hpool₁.patience_lt ha₁ (Nat.factorial_pos backends.length)
  rw [hwindow] at hle
  omega

/-- Two backends, the first of which goes down and comes back. -/
theorem no_backend_starves_pair :
    some ⟨"127.0.0.1", 8002⟩ ∈ handedOut (.init [⟨"127.0.0.1", 8001⟩, ⟨"127.0.0.1", 8002⟩])
      [.call (.nextBackend none), .call (.markUnhealthy ⟨"127.0.0.1", 8001⟩),
        .call (.markHealthy ⟨"127.0.0.1", 8001⟩), .call (.nextBackend none), .call (.nextBackend none),
        .call (.nextBackend none)] := by
  have hdistinct : [(⟨"127.0.0.1", 8001⟩ : Backend), ⟨"127.0.0.1", 8002⟩].Nodup := by decide
  have hbefore : ∀ op ∈ ([] : List Operation),
      op.OnListed [⟨"127.0.0.1", 8001⟩, ⟨"127.0.0.1", 8002⟩] := nofun
  refine no_backend_starves hdistinct hbefore (by decide) (fun op hop => ?_) List.infix_rfl (by decide)
  simp only [List.mem_cons, List.not_mem_nil, or_false] at hop
  rcases hop with rfl | rfl | rfl | rfl | rfl | rfl
  · exact Finset.notMem_empty _
  · exact ⟨by decide, by decide⟩
  · exact ⟨by decide, by decide⟩
  · exact Finset.notMem_empty _
  · exact Finset.notMem_empty _
  · exact Finset.notMem_empty _

/-! ### Balance -/

/-- Without exclusion, the backend at hand is returned. -/
theorem nextBackend_none (hpool : r.healthy ≠ []) : r.nextBackend none =
    (r.healthy[r.index % r.healthy.length]?, { r with index := r.index + 1 }) := by
  have hpos := List.length_pos_of_ne_nil hpool
  have hfirst : ∀ tries, pick ∅ (tries + 1) r =
      (r.healthy[r.index % r.healthy.length]?, { r with index := r.index + 1 }) := by
    intro tries
    rw [pick, List.getElem?_eq_getElem (Nat.mod_lt _ hpos)]
    rfl
  rw [← hfirst (r.healthy.length - 1), Nat.sub_add_cancel hpos]
  rfl

theorem handedOut_replicate (hpool : r.healthy ≠ []) (k : Nat) :
    handedOut r (List.replicate k (.call (.nextBackend none))) =
      (List.range k).map fun j => r.healthy[(r.index + j) % r.healthy.length]? := by
  induction k generalizing r with
  | zero => rfl
  | succ k ih =>
      have hnext : r.operate (.call (.nextBackend none)) = { r with index := r.index + 1 } := by
        rw [operate, nextBackend_none hpool]
      rw [List.replicate_succ, handedOut, given, nextBackend_none hpool, hnext,
        ih (r := { r with index := r.index + 1 }) hpool, List.range_succ_eq_map, List.map_cons, List.map_map]
      refine congrArg (_ :: ·) (List.map_congr_left fun j _ => ?_)
      simp only [Function.comp_apply, Nat.succ_eq_add_one, Nat.add_assoc, Nat.add_comm 1 j]

/-- **Round-robin balances exactly.** In every state, `k` calls of `next_backend` without exclusion return
each of the `n` healthy backends `k / n` times, rounded down or up. -/
theorem balances_exactly (hdistinct : backends.Nodup) (ops : List Operation)
    (ha : a ∈ (ops.foldl operate (.init backends)).healthy) (k : Nat) :
    let r := ops.foldl operate (.init backends)
    let times := (handedOut r (List.replicate k (.call (.nextBackend none)))).count (some a)
    times = k / r.healthy.length ∨ times = k ⌈/⌉ r.healthy.length := by
  intro r times
  have hnodup : r.healthy.Nodup :=
    List.foldlRecOn ops operate (motive := fun r => r.healthy.Nodup) hdistinct
      fun _ h op _ => nodup_operate h op
  have hplace := List.idxOf_lt_length_of_mem ha
  have hat : ∀ j, r.healthy[(r.index + j) % r.healthy.length]? = some a ↔
      (r.index + j) % r.healthy.length = r.healthy.idxOf a := by
    intro j
    have hlt : (r.index + j) % r.healthy.length < r.healthy.length :=
      Nat.mod_lt _ (List.length_pos_of_mem ha)
    rw [List.getElem?_eq_getElem hlt, Option.some_inj]
    constructor
    · rintro rfl
      exact (hnodup.idxOf_getElem _ hlt).symm
    · intro heq
      simp only [heq, List.getElem_idxOf]
  have htimes : times =
      Nat.count (fun j => (r.index + j) % r.healthy.length = r.healthy.idxOf a) k := by
    change List.count _ (handedOut r _) = _
    rw [handedOut_replicate (List.ne_nil_of_mem ha), List.count, List.countP_map]
    refine List.countP_congr fun j _ => ?_
    rw [Function.comp_apply, beq_iff_eq, decide_eq_true_iff]
    exact hat j
  rw [htimes]
  exact Cyclic.count_place hplace r.index k

/-- Five calls on three backends. -/
theorem balances_exactly_three :
    let r : RoundRobinRouter :=
      .init [⟨"127.0.0.1", 8001⟩, ⟨"127.0.0.1", 8002⟩, ⟨"127.0.0.1", 8003⟩]
    let times := (handedOut r (List.replicate 5 (.call (.nextBackend none)))).count
      (some ⟨"127.0.0.1", 8003⟩)
    times = 1 ∨ times = 2 := by
  have hdistinct : [(⟨"127.0.0.1", 8001⟩ : Backend), ⟨"127.0.0.1", 8002⟩, ⟨"127.0.0.1", 8003⟩].Nodup := by
    decide
  exact balances_exactly hdistinct [] (by decide) 5

end RoundRobinRouter

end LoadBalancer
