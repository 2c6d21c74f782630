import LoadBalancer.HeapGrowth
import LoadBalancer.RoundRobin

/-! Sequential traffic: each request is over before the next one comes. Between requests all counts are
zero, and the heap entries that say zero stand in the order in which round-robin goes through the list;
the entries that say one pile up behind them and are never reached. -/

namespace LoadBalancer

/-- A request from `next_backend` to `on_disconnect`. -/
def Router.serve (r : Router) : Option Backend × Router :=
  match r.nextBackend none with
  | (none, r) => (none, r)
  | (some backend, r) => (some backend, r.onDisconnect backend)

/-- What `m` requests get, one after another. -/
def Router.serveAll : Nat → Router → List (Option Backend)
  | 0, _ => []
  | m + 1, r => r.serve.1 :: serveAll m r.serve.2

variable {backends : List Backend}

/-! ### Round-robin -/

theorem RoundRobinRouter.serveAll_eq (r : RoundRobinRouter) (m : Nat) :
    Router.serveAll m (.roundRobin r) = handedOut r (List.replicate m (.call (.nextBackend none))) := by
  induction m generalizing r with
  | zero => rfl
  | succ m ih =>
      have hserve : (Router.roundRobin r).serve =
          ((r.nextBackend none).1, .roundRobin (r.nextBackend none).2) := by
        rw [Router.serve, Router.nextBackend]
        cases (r.nextBackend none).1 <;> rfl
      rw [Router.serveAll, hserve, List.replicate_succ, handedOut, ← ih]
      rfl

/-! ### Least connections -/

namespace LeastConnectionsRouter

/-- Between two requests, `m` of them over: the entries that say zero are one for each backend, in the order
of the list from place `m` on. -/
structure Rotated (backends : List Backend) (m : Nat) (r : LeastConnectionsRouter) : Prop where
  healthySet : r.healthySet = backends.toFinset
  idle : ∀ b, r.count b = 0
  queue : ∃ waiting spent, r.heap.entries = waiting ++ spent ∧
    waiting.map Entry.backend = backends.rotate m ∧
    (∀ e ∈ waiting, e.count = 0 ∧ e.tiebreak ≤ r.tiebreak) ∧
    ∀ e ∈ spent, e.count = 1 ∧ e.tiebreak ≤ r.tiebreak

theorem lt_of_count_lt {e e' : Entry} (h : e.count < e'.count) : e < e' :=
  Prod.Lex.toLex_lt_toLex.mpr (.inl h)

theorem lt_of_tiebreak_lt {e e' : Entry} (hcount : e.count = e'.count) (h : e.tiebreak < e'.tiebreak) :
    e < e' :=
  Prod.Lex.toLex_lt_toLex.mpr (.inr ⟨hcount, Prod.Lex.toLex_lt_toLex.mpr (.inl h)⟩)

/-- The pushes of the constructor put the backends in a row. -/
theorem entries_init (backends : List Backend) :
    (init backends).heap.entries.map Entry.backend = backends ∧
      ∀ e ∈ (init backends).heap.entries, e.count = 0 ∧ e.tiebreak ≤ (init backends).tiebreak := by
  suffices h : ∀ (rest : List Backend) (r : LeastConnectionsRouter),
      (∀ e ∈ r.heap.entries, e.count = 0 ∧ e.tiebreak ≤ r.tiebreak) →
      let r' := rest.foldl (fun r backend => r.pushEntry 0 backend) r
      r'.heap.entries.map Entry.backend = r.heap.entries.map Entry.backend ++ rest ∧
        ∀ e ∈ r'.heap.entries, e.count = 0 ∧ e.tiebreak ≤ r'.tiebreak from h backends _ nofun
  intro rest
  induction rest with
  | nil => exact fun r hr => ⟨(List.append_nil _).symm, hr⟩
  | cons b rest ih =>
      intro r hr
      have hpush : (r.pushEntry 0 b).heap.entries = r.heap.entries ++ [⟨0, r.tiebreak + 1, b⟩] :=
        HeapQueue.entries_push_between (List.append_nil _).symm
          (fun e he => lt_of_tiebreak_lt (hr e he).1 (Nat.lt_succ_of_le (hr e he).2)) nofun
      obtain ⟨hmap, hrest⟩ := ih (r.pushEntry 0 b) fun e he => by
        rw [hpush] at he
        rcases List.mem_append.mp he with he | he
        · exact ⟨(hr e he).1, (hr e he).2.trans (Nat.le_succ _)⟩
        · rw [List.mem_singleton.mp he]
          exact ⟨rfl, le_rfl⟩
      refine ⟨hmap.trans ?_, hrest⟩
      rw [hpush, List.map_append, List.append_assoc]
      rfl

theorem rotated_init (backends : List Backend) : Rotated backends 0 (init backends) := by
  obtain ⟨hmap, hentries⟩ := entries_init backends
  exact ⟨healthySet_init backends, count_init backends, _, [], (List.append_nil _).symm,
    hmap.trans (List.rotate_zero _).symm, hentries, nofun⟩

/-- While a request is under way, its backend is out of the row, and has one more entry that says one. -/
theorem Rotated.nextBackend {m : Nat} {r : LeastConnectionsRouter} (h : Rotated backends m r)
    (hne : backends ≠ []) : ∃ b waiting spent, (r.nextBackend none).1 = some b ∧
      backends.rotate m = b :: waiting.map Entry.backend ∧
      (r.nextBackend none).2.tiebreak = r.tiebreak + 1 ∧
      (r.nextBackend none).2.heap.entries = waiting ++ spent ∧
      (∀ e ∈ waiting, e.count = 0 ∧ e.tiebreak ≤ r.tiebreak + 1) ∧
      ∀ e ∈ spent, e.count = 1 ∧ e.tiebreak ≤ r.tiebreak + 1 := by
  obtain ⟨waiting, spent, hentries, hrow, hwaiting, hspent⟩ := h.queue
  obtain ⟨b, row, hrotate⟩ := List.exists_cons_of_ne_nil (mt List.rotate_eq_nil_iff.mp hne)
  obtain ⟨e, waiting, rfl, rfl, rfl⟩ := List.map_eq_cons_iff.mp (hrow.trans hrotate)
  obtain ⟨hzero, -⟩ := hwaiting e List.mem_cons_self
  have hlisted : e.backend ∈ r.healthySet := by
    rw [h.healthySet, List.mem_toFinset, ← List.mem_rotate (n := m), hrotate]
    exact List.mem_cons_self
  have htake : r.verdict ((none : Option (Finset Backend)).getD ∅) e = .take :=
    verdict_eq_take.mpr ⟨hlisted, hzero.trans (h.idle _).symm, Finset.notMem_empty _⟩
  obtain ⟨hfound, hleft⟩ := HeapQueue.search_cons hentries htake
  refine ⟨e.backend, waiting, spent ++ [⟨1, r.tiebreak + 1, e.backend⟩], ?_, hrotate, ?_⟩
  · rw [nextBackend_of_some hfound]
  rw [nextBackend_of_some hfound, hzero]
  refine ⟨rfl, ?_, fun e' he' => ?_, fun e' he' => ?_⟩
  · rw [← List.append_assoc]
    refine HeapQueue.entries_push_between (hleft.trans (List.append_nil _).symm) (fun e' he' => ?_) nofun
    rcases List.mem_append.mp he' with he' | he'
    · refine lt_of_count_lt ?_
      rw [(hwaiting e' (List.mem_cons_of_mem e he')).1]
      exact zero_lt_one
    · exact lt_of_tiebreak_lt (hspent e' he').1 (Nat.lt_succ_of_le (hspent e' he').2)
  · obtain ⟨hzero', hage⟩ := hwaiting e' (List.mem_cons_of_mem e he')
    exact ⟨hzero', hage.trans (Nat.le_succ _)⟩
  · rcases List.mem_append.mp he' with he' | he'
    · exact ⟨(hspent e' he').1, (hspent e' he').2.trans (Nat.le_succ _)⟩
    · rw [List.mem_singleton.mp he']
      exact ⟨rfl, le_rfl⟩

/-- A request gets the first backend in the row, which then goes to the end of it. -/
theorem Rotated.serve {m : Nat} {r : LeastConnectionsRouter} (h : Rotated backends m r)
    (hne : backends ≠ []) : ∃ r', (Router.leastConnections r).serve =
      (backends[m % backends.length]?, .leastConnections r') ∧ Rotated backends (m + 1) r' := by
  obtain ⟨b, waiting, spent, hpick, hrotate, htiebreak, hentries, hwaiting, hspent⟩ := h.nextBackend hne
  have hhead : backends[m % backends.length]? = some b := by
    rw [← List.head?_rotate (Nat.mod_lt m (List.length_pos_of_ne_nil hne)), List.rotate_mod, hrotate,
      List.head?_cons]
  have hbusy := count_nextBackend_some hpick
  have hreleased : max 0 ((r.nextBackend none).2.count b - 1) = 0 := by
    rw [hbusy, if_pos rfl, h.idle]
    rfl
  refine ⟨(r.nextBackend none).2.onDisconnect b, ?_, (healthySet_nextBackend r none).trans h.healthySet,
    fun b' => ?_, waiting ++ [⟨0, r.tiebreak + 2, b⟩], spent, ?_, ?_, ?_⟩
  · rw [hhead, Router.serve, Router.nextBackend, hpick]
    rfl
  · rw [count_onDisconnect, hreleased]
    split
    · rfl
    · next hother => rw [hbusy, if_neg hother, h.idle, Int.add_zero]
  · rw [onDisconnect, hreleased, recordCount, pushEntry, htiebreak, List.append_assoc]
    refine HeapQueue.entries_push_between hentries (fun e he => ?_) fun e he => ?_
    · exact lt_of_tiebreak_lt (hwaiting e he).1 (Nat.lt_succ_of_le (hwaiting e he).2)
    · refine (lt_of_count_lt ?_).le
      rw [(hspent e he).1]
      exact zero_lt_one
  · rw [← List.rotate_rotate, hrotate, List.rotate_cons_succ, List.rotate_zero, List.map_append]
    rfl
  · have hback : ((r.nextBackend none).2.onDisconnect b).tiebreak = r.tiebreak + 2 :=
      congrArg (· + 1) htiebreak
    rw [hback]
    refine ⟨fun e he => ?_, fun e he => ⟨(hspent e he).1, (hspent e he).2.trans (Nat.le_succ _)⟩⟩
    rcases List.mem_append.mp he with he | he
    · exact ⟨(hwaiting e he).1, (hwaiting e he).2.trans (Nat.le_succ _)⟩
    · rw [List.mem_singleton.mp he]
      exact ⟨rfl, le_rfl⟩

theorem Rotated.serveAll {m : Nat} {r : LeastConnectionsRouter} (h : Rotated backends m r)
    (hne : backends ≠ []) (k : Nat) : Router.serveAll k (.leastConnections r) =
      (List.range k).map fun j => backends[(m + j) % backends.length]? := by
  induction k generalizing m r with
  | zero => rfl
  | succ k ih =>
      obtain ⟨r', hserve, h'⟩ := h.serve hne
      rw [Router.serveAll, hserve, ih h', List.range_succ_eq_map, List.map_cons, List.map_map]
      refine congrArg (_ :: ·) (List.map_congr_left fun j _ => ?_)
      simp only [Function.comp_apply, Nat.succ_eq_add_one, Nat.add_assoc, Nat.add_comm 1 j]

/-- **Least connections is round-robin on sequential traffic.** Fresh routers of the two kinds over the same
backends give requests that come one after another the same backends. -/
theorem sequential_alike (hne : backends ≠ []) (m : Nat) :
    Router.serveAll m (.leastConnections (.init backends)) =
      Router.serveAll m (.roundRobin (.init backends)) := by
  have hrotated := (rotated_init backends).serveAll hne m
  have hcycle := RoundRobinRouter.handedOut_replicate (r := .init backends) hne m
  rw [RoundRobinRouter.serveAll_eq, hcycle, hrotated]
  rfl

/-- Three requests to two backends. -/
theorem sequential_alike_three :
    Router.serveAll 3 (.leastConnections (.init [⟨"127.0.0.1", 8001⟩, ⟨"127.0.0.1", 8002⟩])) =
      Router.serveAll 3 (.roundRobin (.init [⟨"127.0.0.1", 8001⟩, ⟨"127.0.0.1", 8002⟩])) :=
  sequential_alike (List.cons_ne_nil _ _) 3

end LeastConnectionsRouter

end LoadBalancer
