import LoadBalancer.LeastConnections
import LoadBalancer.Machine

/-! How the heap of the least-connections router grows. `next_backend` pushes no more than it pops, and
each release and each readmission pushes one entry. What these entries replace leaves the heap only when
it comes to the top, and an entry with a high count never does while a lower one is there: a router that
serves one connection after the other keeps one more stale entry for each. -/

namespace LoadBalancer

namespace LeastConnectionsRouter

/-- A router, and the backends that `next_backend` gave away and that have not been released. -/
structure Leased where
  router : LeastConnectionsRouter
  outstanding : List Backend

namespace Leased

def start (backends : List Backend) : Leased := ⟨.init backends, []⟩

/-- A call within the limits: at most `limit` acquisitions are outstanding at any time, every
`on_disconnect` releases one of them, and the backends that are marked are the router's own. -/
def step (limit : Nat) (s : Leased) : RouterCall → Option Leased
  | .nextBackend exclude =>
      let picked := s.router.nextBackend exclude
      let outstanding := picked.1.toList ++ s.outstanding
      if outstanding.length ≤ limit then some ⟨picked.2, outstanding⟩ else none
  | .onDisconnect backend =>
      if backend ∈ s.outstanding then
        some ⟨s.router.onDisconnect backend, s.outstanding.erase backend⟩
      else none
  | .markUnhealthy backend =>
      if backend ∈ s.router.allBackends then some { s with router := s.router.markUnhealthy backend }
      else none
  | .markHealthy backend =>
      if backend ∈ s.router.allBackends then some { s with router := s.router.markHealthy backend }
      else none

def heapLength (s : Leased) : Nat := s.router.heap.entries.length

end Leased

/-! ### The length of the heap -/

theorem length_recordCount (r : LeastConnectionsRouter) (n : Int) (b : Backend) :
    (r.recordCount n b).heap.entries.length = r.heap.entries.length + 1 :=
  HeapQueue.length_push _ _

theorem length_nextBackend_le (r : LeastConnectionsRouter) (exclude : Option (Finset Backend)) :
    (r.nextBackend exclude).2.heap.entries.length ≤ r.heap.entries.length := by
  have hsearch := HeapQueue.length_search_le r.heap (r.verdict (exclude.getD ∅))
  cases hfound : (r.heap.search (r.verdict (exclude.getD ∅))).1 with
  | none =>
      rw [nextBackend_of_none hfound]
      exact le_of_add_le_right hsearch
  | some e =>
      rw [hfound, Option.toList_some, List.length_singleton] at hsearch
      rw [nextBackend_of_some hfound, length_recordCount]
      dsimp only
      omega

theorem length_markHealthy_le (r : LeastConnectionsRouter) (b : Backend) :
    (r.markHealthy b).heap.entries.length ≤ r.heap.entries.length + 1 := by
  unfold markHealthy
  split
  · exact Nat.le_succ _
  · exact le_of_eq (HeapQueue.length_push _ _)

theorem length_init (backends : List Backend) :
    (init backends).heap.entries.length = backends.length := by
  suffices h : ∀ r : LeastConnectionsRouter,
      (backends.foldl (fun r backend => r.pushEntry 0 backend) r).heap.entries.length =
        r.heap.entries.length + backends.length by
    exact (h _).trans (Nat.zero_add _)
  induction backends with
  | nil => exact fun _ => rfl
  | cons b rest ih =>
      intro r
      rw [List.foldl_cons, ih, pushEntry, HeapQueue.length_push, List.length_cons]
      omega

theorem allBackends_init (backends : List Backend) : (init backends).allBackends = backends := by
  suffices h : ∀ (rest : List Backend) (r : LeastConnectionsRouter),
      (rest.foldl (fun r backend => r.pushEntry 0 backend) r).allBackends = r.allBackends from h _ _
  intro rest
  induction rest with
  | nil => exact fun _ => rfl
  | cons b rest ih => exact fun r => ih (r.pushEntry 0 b)

theorem healthySet_init (backends : List Backend) : (init backends).healthySet = backends.toFinset :=
  (pushAll_init backends _).1

@[simp] theorem allBackends_nextBackend (r : LeastConnectionsRouter) (exclude : Option (Finset Backend)) :
    (r.nextBackend exclude).2.allBackends = r.allBackends := by
  cases hfound : (r.heap.search (r.verdict (exclude.getD ∅))).1 with
  | none => rw [nextBackend_of_none hfound]
  | some e =>
      rw [nextBackend_of_some hfound]
      rfl

/-- The calls that push an entry without popping one. -/
def pushes : RouterCall → Bool
  | .onDisconnect _ | .markHealthy _ => true
  | _ => false

theorem Leased.heapLength_step {limit : Nat} {s t : Leased} {c : RouterCall} (h : s.step limit c = some t) :
    t.heapLength ≤ s.heapLength + if pushes c then 1 else 0 := by
  cases c with
  | nextBackend exclude =>
      obtain ⟨-, heq⟩ := Option.ite_none_right_eq_some.mp h
      obtain rfl := Option.some.inj heq
      exact length_nextBackend_le s.router exclude
  | onDisconnect backend =>
      obtain ⟨-, heq⟩ := Option.ite_none_right_eq_some.mp h
      obtain rfl := Option.some.inj heq
      exact le_of_eq (length_recordCount _ _ _)
  | markUnhealthy backend =>
      obtain ⟨-, heq⟩ := Option.ite_none_right_eq_some.mp h
      obtain rfl := Option.some.inj heq
      exact le_rfl
  | markHealthy backend =>
      obtain ⟨-, heq⟩ := Option.ite_none_right_eq_some.mp h
      obtain rfl := Option.some.inj heq
      exact length_markHealthy_le s.router backend

theorem Leased.heapLength_run {limit : Nat} {s t : Leased} {calls : List RouterCall}
    (hrun : Machine.run (step limit) s calls = some t) :
    t.heapLength ≤ s.heapLength + calls.countP pushes := by
  induction calls generalizing s with
  | nil =>
      obtain rfl := Option.some.inj hrun
      exact le_rfl
  | cons c calls ih =>
      obtain ⟨s', hfirst, hrest⟩ := Machine.run_cons_eq_some.mp hrun
      have hstep := heapLength_step hfirst
      have htail := ih hrest
      rw [List.countP_cons]
      omega

/-! ### Growth -/

/-- A backend that is taken out of the pool and back leaves its old entry behind. -/
theorem Leased.grows_by_marks (limit : Nat) {s : Leased} {b : Backend} (hown : b ∈ s.router.allBackends)
    (hhealthy : b ∈ s.router.healthySet) (m : Nat) :
    ∃ t, Machine.run (step limit) s (List.replicate m [.markUnhealthy b, .markHealthy b]).flatten =
        some t ∧ t.heapLength = s.heapLength + m := by
  induction m generalizing s with
  | zero => exact ⟨s, rfl, rfl⟩
  | succ m ih =>
      have hremoved : b ∉ (s.router.markUnhealthy b).healthySet := Finset.notMem_erase b _
      have hback : ((s.router.markUnhealthy b).markHealthy b).allBackends = s.router.allBackends ∧
          b ∈ ((s.router.markUnhealthy b).markHealthy b).healthySet ∧
          ((s.router.markUnhealthy b).markHealthy b).heap.entries.length =
            s.router.heap.entries.length + 1 := by
        rw [markHealthy, if_neg hremoved]
        exact ⟨rfl, Finset.mem_insert_self _ _, HeapQueue.length_push _ _⟩
      obtain ⟨hall, hin, hlen⟩ := hback
      obtain ⟨t, hrun, ht⟩ :=
        ih (s := ⟨(s.router.markUnhealthy b).markHealthy b, s.outstanding⟩) (hall ▸ hown) hin
      refine ⟨t, ?_, ?_⟩
      · rw [List.replicate_succ, List.flatten_cons, Machine.run_append]
        have hfirst : Machine.run (step limit) s [.markUnhealthy b, .markHealthy b] =
            some ⟨(s.router.markUnhealthy b).markHealthy b, s.outstanding⟩ := by
          have hown' : b ∈ (s.router.markUnhealthy b).allBackends := hown
          simp [Machine.run, step, hown, hown']
        rw [hfirst, Option.bind_some, hrun]
      · rw [ht, Leased.heapLength, Leased.heapLength, hlen]
        omega

/-- Nothing is outstanding, and every entry is of a healthy backend. -/
structure Idle (s : Leased) : Prop where
  outstanding : s.outstanding = []
  counts : ∀ b, s.router.count b = 0
  entries : ∀ e ∈ s.router.heap.entries, 0 ≤ e.count ∧ e.backend ∈ s.router.healthySet
  covered : s.router.Covered
  nonempty : s.router.healthySet.Nonempty

theorem idle_start {backends : List Backend} (hne : backends ≠ []) : Idle (.start backends) where
  outstanding := rfl
  counts := count_init backends
  entries := by
    have hpushed : ∀ (rest : List Backend) (r : LeastConnectionsRouter),
        (∀ b ∈ rest, b ∈ r.healthySet) →
        (∀ e ∈ r.heap.entries, 0 ≤ e.count ∧ e.backend ∈ r.healthySet) →
        ∀ e ∈ (rest.foldl (fun r backend => r.pushEntry 0 backend) r).heap.entries,
          0 ≤ e.count ∧ e.backend ∈ r.healthySet := by
      intro rest
      induction rest with
      | nil => exact fun _ _ h => h
      | cons b rest ih =>
          intro r hmem h
          refine ih (r.pushEntry 0 b) (fun b' hb' => hmem b' (List.mem_cons_of_mem b hb')) fun e he => ?_
          rcases HeapQueue.mem_push.mp he with rfl | he
          · exact ⟨le_rfl, hmem b List.mem_cons_self⟩
          · exact h e he
    intro e he
    rw [Leased.start, healthySet_init]
    refine hpushed backends _ (fun b hb => List.mem_toFinset.mpr hb) ?_ e he
    rintro e ⟨⟩
  covered := covered_init backends
  nonempty := by
    obtain ⟨b, rest, rfl⟩ := List.exists_cons_of_ne_nil hne
    refine ⟨b, ?_⟩
    rw [Leased.start, healthySet_init]
    exact List.mem_toFinset.mpr List.mem_cons_self

/-- An idle router gives a backend whose entry is the least one, and takes nothing else off the heap. -/
theorem Idle.nextBackend {s : Leased} (h : Idle s) :
    ∃ e rest, s.router.heap.entries = e :: rest ∧ e.count = 0 ∧ e.backend ∈ s.router.healthySet ∧
      (s.router.nextBackend none).1 = some e.backend ∧
      (∀ e', e' ∈ (s.router.nextBackend none).2.heap.entries ↔
        e' = ⟨1, s.router.tiebreak + 1, e.backend⟩ ∨ e' ∈ rest) ∧
      (s.router.nextBackend none).2.heap.entries.length = rest.length + 1 ∧
      (s.router.nextBackend none).2.healthySet = s.router.healthySet := by
  obtain ⟨b, hb⟩ := h.nonempty
  obtain ⟨e₀, hmem, -, hcount₀, -⟩ := h.covered.exists_take hb (Finset.notMem_empty b)
  obtain ⟨e, rest, hentries⟩ := List.exists_cons_of_ne_nil (List.ne_nil_of_mem hmem)
  have hpeek : s.router.heap.peek = some e := by rw [HeapQueue.peek, hentries]; rfl
  obtain ⟨hnonneg, hhealthy⟩ := h.entries e (hentries ▸ List.mem_cons_self)
  have hcount : e.count = 0 := by
    have hle := Entry.count_le_of_le (HeapQueue.peek_le hpeek hmem)
    rw [hcount₀, h.counts b] at hle
    omega
  have htake : s.router.verdict ((none : Option (Finset Backend)).getD ∅) e = .take :=
    verdict_eq_take.mpr ⟨hhealthy, hcount.trans (h.counts _).symm, Finset.notMem_empty _⟩
  obtain ⟨hfound, hleft⟩ := HeapQueue.search_cons hentries htake
  refine ⟨e, rest, hentries, hcount, hhealthy, ?_⟩
  rw [nextBackend_of_some hfound, hcount]
  refine ⟨rfl, fun e' => ?_, ?_, rfl⟩
  · rw [← hleft]
    exact HeapQueue.mem_push
  · rw [length_recordCount, ← hleft]

/-- The two calls of a connection that is served. -/
def served (b : Backend) : List RouterCall := [.nextBackend none, .onDisconnect b]

/-- A connection that comes and goes leaves one more entry. -/
theorem Idle.serve {limit : Nat} (hlimit : 0 < limit) {s : Leased} (h : Idle s) :
    ∃ b t, Machine.run (Leased.step limit) s (served b) = some t ∧ Idle t ∧
      t.heapLength = s.heapLength + 1 := by
  obtain ⟨e, rest, hentries, hzero, hhealthy, hpick, hmem, hlen, hset⟩ := h.nextBackend
  have hcount := count_nextBackend_some hpick
  have hreleased : ((s.router.nextBackend none).2.onDisconnect e.backend).heap.entries.length =
      s.router.heap.entries.length + 1 := by
    rw [onDisconnect, length_recordCount, hlen, hentries, List.length_cons]
  have hback : max 0 ((s.router.nextBackend none).2.count e.backend - 1) = 0 := by
    rw [hcount, if_pos rfl, h.counts]
    rfl
  refine ⟨e.backend, ⟨(s.router.nextBackend none).2.onDisconnect e.backend, []⟩, ?_, ?_, hreleased⟩
  · have htaken : s.step limit (.nextBackend none) =
        some ⟨(s.router.nextBackend none).2, [e.backend]⟩ := by
      rw [Leased.step, hpick, h.outstanding]
      exact if_pos hlimit
    rw [served, Machine.run, htaken, Option.bind_some, Machine.run, Leased.step,
      if_pos (List.mem_singleton_self _)]
    simp
  · refine ⟨rfl, fun b => ?_, fun e' he' => ?_, ?_, ?_⟩
    · rw [count_onDisconnect]
      split
      · exact hback
      · next hne => rw [hcount, if_neg hne, h.counts]; rfl
    · have hset' : ((s.router.nextBackend none).2.onDisconnect e.backend).healthySet =
          s.router.healthySet := hset
      rw [hset']
      rcases HeapQueue.mem_push.mp he' with rfl | he'
      · exact ⟨le_of_eq hback.symm, hhealthy⟩
      · rcases (hmem e').mp he' with rfl | he'
        · exact ⟨zero_le_one, hhealthy⟩
        · exact h.entries e' (hentries ▸ List.mem_cons_of_mem e he')
    · exact (h.covered.nextBackend none).perform (.onDisconnect e.backend)
    · have hset' : ((s.router.nextBackend none).2.onDisconnect e.backend).healthySet =
          s.router.healthySet := hset
      rw [hset']
      exact h.nonempty

/-- Connections served one after the other, each before the next. -/
theorem Idle.grows {limit : Nat} (hlimit : 0 < limit) {s : Leased} (h : Idle s) (m : Nat) :
    ∃ (bs : List Backend) (t : Leased), Machine.run (Leased.step limit) s (bs.flatMap served) = some t ∧
      t.heapLength = s.heapLength + m := by
  induction m generalizing s with
  | zero => exact ⟨[], s, rfl, rfl⟩
  | succ m ih =>
      obtain ⟨b, s', hfirst, hidle, hlen⟩ := h.serve hlimit
      obtain ⟨bs, t, hrest, hlen'⟩ := ih hidle
      refine ⟨b :: bs, t, ?_, by omega⟩
      rw [List.flatMap_cons, Machine.run_append, hfirst, Option.bind_some, hrest]

/-- A router without backends gives nothing, so nothing is ever released. -/
structure Barren (s : Leased) : Prop where
  allBackends : s.router.allBackends = []
  outstanding : s.outstanding = []
  healthySet : s.router.healthySet = ∅
  heap : s.heapLength = 0

theorem Barren.step {limit : Nat} {s t : Leased} {c : RouterCall} (h : Barren s)
    (hstep : s.step limit c = some t) : Barren t := by
  cases c with
  | nextBackend exclude =>
      obtain ⟨-, heq⟩ := Option.ite_none_right_eq_some.mp hstep
      obtain rfl := Option.some.inj heq
      have hnone : (s.router.nextBackend exclude).1 = none := by
        cases hpick : (s.router.nextBackend exclude).1 with
        | none => rfl
        | some b =>
            have hmem := (nextBackend_mem hpick).1
            rw [h.healthySet] at hmem
            exact absurd hmem (Finset.notMem_empty _)
      refine ⟨?_, ?_, ?_, Nat.le_zero.mp ?_⟩
      · exact (allBackends_nextBackend _ _).trans h.allBackends
      · rw [hnone, h.outstanding]
        rfl
      · rw [nextBackend_of_none (nextBackend_eq_none.mp hnone)]
        exact h.healthySet
      · exact (length_nextBackend_le _ _).trans h.heap.le
  | onDisconnect backend =>
      obtain ⟨hmem, -⟩ := Option.ite_none_right_eq_some.mp hstep
      rw [h.outstanding] at hmem
      cases hmem
  | markUnhealthy backend =>
      obtain ⟨hmem, -⟩ := Option.ite_none_right_eq_some.mp hstep
      rw [h.allBackends] at hmem
      cases hmem
  | markHealthy backend =>
      obtain ⟨hmem, -⟩ := Option.ite_none_right_eq_some.mp hstep
      rw [h.allBackends] at hmem
      cases hmem

/-- **The heap is not bounded.** Whatever the limit on outstanding acquisitions, there is a bound on the
heap over all runs only for a router without backends; a router that may give out one backend exceeds
every bound by serving connections one after the other. In a single run the heap has at most as many
entries as there are backends, releases and readmissions. -/
theorem heap_bounded_iff_empty (backends : List Backend) (limit : Nat) :
    ((∃ bound, ∀ calls s, Machine.run (Leased.step limit) (.start backends) calls = some s →
      s.heapLength ≤ bound) ↔ backends = []) ∧
    (backends ≠ [] → 0 < limit → ∀ bound, ∃ (bs : List Backend) (s : Leased),
      Machine.run (Leased.step limit) (.start backends) (bs.flatMap served) = some s ∧
      bound < s.heapLength) ∧
    ∀ calls s, Machine.run (Leased.step limit) (.start backends) calls = some s →
      s.heapLength ≤ backends.length + calls.countP pushes := by
  have hlength : (Leased.start backends).heapLength = backends.length := length_init backends
  refine ⟨⟨?_, ?_⟩, fun hne hlimit bound => ?_, fun calls s hrun => ?_⟩
  · rintro ⟨bound, hbound⟩
    by_contra hne
    obtain ⟨b, rest, rfl⟩ := List.exists_cons_of_ne_nil hne
    have hhealthy : b ∈ (Leased.start (b :: rest)).router.healthySet := by
      rw [Leased.start, healthySet_init]
      exact List.mem_toFinset.mpr List.mem_cons_self
    have hown : b ∈ (Leased.start (b :: rest)).router.allBackends := by
      rw [Leased.start, allBackends_init]
      exact List.mem_cons_self
    obtain ⟨t, hrun, ht⟩ := Leased.grows_by_marks limit hown hhealthy (bound + 1)
    have := hbound _ t hrun
    omega
  · rintro rfl
    refine ⟨0, fun calls s hrun => ?_⟩
    exact (Machine.run_invariant Barren (fun _ _ _ h hstep => h.step hstep)
      ⟨allBackends_init [], rfl, healthySet_init [], hlength⟩ hrun).heap.le
  · obtain ⟨bs, s, hrun, hs⟩ := (idle_start hne).grows hlimit (bound + 1)
    exact ⟨bs, s, hrun, by omega⟩
  · have := Leased.heapLength_run hrun
    omega

/-- One backend and one connection at a time: the heap exceeds every bound. -/
theorem heap_unbounded_one_backend :
    ¬ ∃ bound, ∀ calls s, Machine.run (Leased.step 1) (.start [⟨"127.0.0.1", 8001⟩]) calls = some s →
      s.heapLength ≤ bound := by
  rintro ⟨bound, hbound⟩
  have hidle : Idle (.start [⟨"127.0.0.1", 8001⟩]) := idle_start (List.cons_ne_nil _ _)
  obtain ⟨bs, s, hrun, hs⟩ := hidle.grows Nat.one_pos (bound + 1)
  have := hbound _ s hrun
  omega

end LeastConnectionsRouter

end LoadBalancer
