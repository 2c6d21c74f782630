import LoadBalancer.Router

/-! Least-connections selection over whole runs. The heap holds stale, duplicated and revived entries;
what makes the selection right is that every healthy backend always has one entry with its current
count, so the least entry that passes the checks carries the least count. -/

namespace LoadBalancer

/-- A call on a router, with its arguments. -/
inductive RouterCall where
  | nextBackend (exclude : Option (Finset Backend))
  | onDisconnect (backend : Backend)
  | markUnhealthy (backend : Backend)
  | markHealthy (backend : Backend)

namespace LeastConnectionsRouter

def perform (r : LeastConnectionsRouter) : RouterCall → LeastConnectionsRouter
  | .nextBackend exclude => (r.nextBackend exclude).2
  | .onDisconnect backend => r.onDisconnect backend
  | .markUnhealthy backend => r.markUnhealthy backend
  | .markHealthy backend => r.markHealthy backend

/-- The router built from `backends` after a sequence of calls. -/
def after (backends : List Backend) (calls : List RouterCall) : LeastConnectionsRouter :=
  calls.foldl perform (init backends)

/-! ### Every healthy backend has an entry with its current count -/

/-- The entry says what `_counts` says. -/
def Current (r : LeastConnectionsRouter) (b : Backend) : Prop :=
  ∃ e ∈ r.heap.entries, e.backend = b ∧ e.count = r.count b

def Covered (r : LeastConnectionsRouter) : Prop := ∀ b ∈ r.healthySet, r.Current b

/-- Recording a count covers its backend, and the others stay as they were. -/
theorem covered_recordCount {r : LeastConnectionsRouter} {b : Backend}
    (h : ∀ b' ∈ r.healthySet, b ≠ b' → r.Current b') (n : Int) : (r.recordCount n b).Covered := by
  intro b' hb'
  by_cases hbb' : b = b'
  · subst hbb'
    refine ⟨⟨n, r.tiebreak + 1, b⟩, HeapQueue.mem_push.mpr (Or.inl rfl), rfl, ?_⟩
    rw [count_recordCount, if_pos rfl]
  · obtain ⟨e, hmem, heb, hcount⟩ := h b' hb' hbb'
    refine ⟨e, HeapQueue.mem_push.mpr (Or.inr hmem), heb, ?_⟩
    rw [count_recordCount, if_neg hbb', hcount]

theorem pushAll_init (backends : List Backend) (r : LeastConnectionsRouter) :
    let r' := backends.foldl (fun r backend => r.pushEntry 0 backend) r
    r'.healthySet = r.healthySet ∧ r'.counts = r.counts ∧
      (∀ e ∈ r.heap.entries, e ∈ r'.heap.entries) ∧
      ∀ b ∈ backends, ∃ e ∈ r'.heap.entries, e.backend = b ∧ e.count = 0 := by
  induction backends generalizing r with
  | nil => simp
  | cons b rest ih =>
      obtain ⟨hhealthy, hcounts, hkept, hpushed⟩ := ih (r.pushEntry 0 b)
      refine ⟨hhealthy, hcounts, fun e he => hkept e (HeapQueue.mem_push.mpr (Or.inr he)), ?_⟩
      intro b' hb'
      rcases List.mem_cons.mp hb' with rfl | hb'
      · exact ⟨_, hkept _ (HeapQueue.mem_push.mpr (Or.inl rfl)), rfl, rfl⟩
      · exact hpushed b' hb'

theorem get?_zeroCounts (backends : List Backend) (counts : Dict Backend Int)
    (hzero : ∀ b, (counts.get? b).getD 0 = 0) (b : Backend) :
    ((backends.foldl (fun counts backend => counts.set backend 0) counts).get? b).getD 0 = 0 := by
  induction backends generalizing counts with
  | nil => exact hzero b
  | cons b' rest ih =>
      refine ih (counts.set b' 0) fun b'' => ?_
      rw [Dict.get?_set]
      split
      · rfl
      · exact hzero b''

theorem count_init (backends : List Backend) (b : Backend) : (init backends).count b = 0 := by
  simp only [count, init, (pushAll_init backends _).2.1]
  exact get?_zeroCounts backends Dict.empty (fun _ => rfl) b

theorem covered_init (backends : List Backend) : (init backends).Covered := by
  intro b hb
  obtain ⟨hhealthy, -, -, hpushed⟩ := pushAll_init backends
    { allBackends := backends
      counts := backends.foldl (fun counts backend => counts.set backend 0) Dict.empty
      tiebreak := 0
      heap := HeapQueue.empty
      healthySet := backends.toFinset }
  rw [init, hhealthy, List.mem_toFinset] at hb
  obtain ⟨e, hmem, heb, hcount⟩ := hpushed b hb
  exact ⟨e, hmem, heb, hcount.trans (count_init backends b).symm⟩

/-! ### One call of `next_backend` -/

theorem verdict_eq_take {r : LeastConnectionsRouter} {skip : Finset Backend} {e : Entry} :
    r.verdict skip e = .take ↔
      e.backend ∈ r.healthySet ∧ e.count = r.count e.backend ∧ e.backend ∉ skip := by
  unfold verdict
  split_ifs <;> simp_all

theorem verdict_ne_drop {r : LeastConnectionsRouter} {skip : Finset Backend} {e : Entry}
    (hhealthy : e.backend ∈ r.healthySet) (hcount : e.count = r.count e.backend) :
    r.verdict skip e ≠ .drop := by
  unfold verdict
  split_ifs <;> simp_all

/-- A healthy backend outside `exclude` has an entry that the search takes. -/
theorem Covered.exists_take {r : LeastConnectionsRouter} (h : r.Covered) {skip : Finset Backend}
    {b : Backend} (hb : b ∈ r.healthySet) (hskip : b ∉ skip) :
    ∃ e ∈ r.heap.entries, e.backend = b ∧ e.count = r.count b ∧ r.verdict skip e = .take := by
  obtain ⟨e, hmem, rfl, hcount⟩ := h b hb
  exact ⟨e, hmem, rfl, hcount, verdict_eq_take.mpr ⟨hb, hcount, hskip⟩⟩

theorem nextBackend_of_none {r : LeastConnectionsRouter} {exclude : Option (Finset Backend)}
    (h : (r.heap.search (r.verdict (exclude.getD ∅))).1 = none) :
    r.nextBackend exclude =
      (none, { r with heap := (r.heap.search (r.verdict (exclude.getD ∅))).2 }) := by
  simp only [nextBackend, h]

theorem nextBackend_of_some {r : LeastConnectionsRouter} {exclude : Option (Finset Backend)}
    {e : Entry} (h : (r.heap.search (r.verdict (exclude.getD ∅))).1 = some e) :
    r.nextBackend exclude = (some e.backend,
      { r with heap := (r.heap.search (r.verdict (exclude.getD ∅))).2 }.recordCount (e.count + 1)
        e.backend) := by
  simp only [nextBackend, h]

theorem nextBackend_eq_none {r : LeastConnectionsRouter} {exclude : Option (Finset Backend)} :
    (r.nextBackend exclude).1 = none ↔
      (r.heap.search (r.verdict (exclude.getD ∅))).1 = none := by
  cases hfound : (r.heap.search (r.verdict (exclude.getD ∅))).1 with
  | none => simp [nextBackend_of_none hfound]
  | some e => simp [nextBackend_of_some hfound]

theorem nextBackend_some {r : LeastConnectionsRouter} {exclude : Option (Finset Backend)} {b : Backend}
    (h : (r.nextBackend exclude).1 = some b) :
    ∃ e, (r.heap.search (r.verdict (exclude.getD ∅))).1 = some e ∧ e.backend = b := by
  cases hfound : (r.heap.search (r.verdict (exclude.getD ∅))).1 with
  | none => rw [nextBackend_eq_none.mpr hfound] at h; cases h
  | some e =>
      rw [nextBackend_of_some hfound] at h
      exact ⟨e, rfl, Option.some.inj h⟩

theorem nextBackend_mem {r : LeastConnectionsRouter} {exclude : Option (Finset Backend)} {b : Backend}
    (h : (r.nextBackend exclude).1 = some b) : b ∈ r.healthySet ∧ b ∉ exclude.getD ∅ := by
  obtain ⟨e, hfound, rfl⟩ := nextBackend_some h
  obtain ⟨hhealthy, -, hskip⟩ := verdict_eq_take.mp (HeapQueue.search_some hfound).2.1
  exact ⟨hhealthy, hskip⟩

/-- It fails exactly when every healthy backend is excluded. -/
theorem Covered.nextBackend_eq_none_iff {r : LeastConnectionsRouter} (h : r.Covered)
    {exclude : Option (Finset Backend)} :
    (r.nextBackend exclude).1 = none ↔ ∀ b ∈ r.healthySet, b ∈ exclude.getD ∅ := by
  constructor
  · intro hnone b hb
    by_contra hskip
    obtain ⟨e, hmem, -, -, htake⟩ := h.exists_take hb hskip
    exact HeapQueue.search_none (nextBackend_eq_none.mp hnone) e hmem htake
  · intro hall
    cases hpick : (r.nextBackend exclude).1 with
    | none => rfl
    | some b =>
        obtain ⟨hhealthy, hskip⟩ := nextBackend_mem hpick
        exact absurd (hall b hhealthy) hskip

/-- A healthy backend outside `exclude` with the least count of these. -/
def Tied (r : LeastConnectionsRouter) (exclude : Option (Finset Backend)) (b : Backend) : Prop :=
  b ∈ r.healthySet ∧ b ∉ exclude.getD ∅ ∧
    ∀ b' ∈ r.healthySet, b' ∉ exclude.getD ∅ → r.count b ≤ r.count b'

/-- What it returns has the least count, and its entry is the least of all that say the count of such a
backend. -/
theorem Covered.exists_pick {r : LeastConnectionsRouter} (h : r.Covered) {exclude : Option (Finset Backend)}
    {b : Backend} (hpick : (r.nextBackend exclude).1 = some b) :
    r.Tied exclude b ∧ ∃ e ∈ r.heap.entries, e.backend = b ∧ e.count = r.count b ∧
      ∀ e' ∈ r.heap.entries, r.Tied exclude e'.backend → e'.count = r.count e'.backend → e ≤ e' := by
  obtain ⟨hhealthy, hskip⟩ := nextBackend_mem hpick
  obtain ⟨e, hfound, rfl⟩ := nextBackend_some hpick
  obtain ⟨hmem, htake, hleast⟩ := HeapQueue.search_some hfound
  obtain ⟨-, hcount, -⟩ := verdict_eq_take.mp htake
  refine ⟨⟨hhealthy, hskip, fun b' hb' hskip' => ?_⟩, e, hmem, rfl, hcount, ?_⟩
  · obtain ⟨e', hmem', -, hcount', htake'⟩ := h.exists_take hb' hskip'
    rw [← hcount, ← hcount']
    exact Entry.count_le_of_le (hleast e' hmem' htake')
  · intro e' hmem' ⟨hhealthy', hskip', _⟩ hcount'
    exact hleast e' hmem' (verdict_eq_take.mpr ⟨hhealthy', hcount', hskip'⟩)

theorem count_nextBackend_none {r : LeastConnectionsRouter} {exclude : Option (Finset Backend)}
    (h : (r.nextBackend exclude).1 = none) (b : Backend) :
    (r.nextBackend exclude).2.count b = r.count b := by
  rw [nextBackend_of_none (nextBackend_eq_none.mp h)]
  rfl

/-- `next_backend` adds one to the count of the backend it returns and leaves the others. -/
theorem count_nextBackend_some {r : LeastConnectionsRouter} {exclude : Option (Finset Backend)}
    {b : Backend} (h : (r.nextBackend exclude).1 = some b) (b' : Backend) :
    (r.nextBackend exclude).2.count b' = r.count b' + if b = b' then 1 else 0 := by
  obtain ⟨e, hfound, rfl⟩ := nextBackend_some h
  obtain ⟨-, htake, -⟩ := HeapQueue.search_some hfound
  have hcount := (verdict_eq_take.mp htake).2.1
  rw [nextBackend_of_some hfound, count_recordCount, hcount]
  split
  · next hb => rw [hb]
  · exact (Int.add_zero _).symm

/-- The search drops no entry of a healthy backend that is current, except the one it takes. -/
theorem Covered.nextBackend {r : LeastConnectionsRouter} (h : r.Covered)
    (exclude : Option (Finset Backend)) : Covered (r.nextBackend exclude).2 := by
  have hkept : ∀ b ∈ r.healthySet,
      (∃ e, (r.heap.search (r.verdict (exclude.getD ∅))).1 = some e ∧ e.backend = b) ∨
        Current { r with heap := (r.heap.search (r.verdict (exclude.getD ∅))).2 } b := by
    intro b hb
    obtain ⟨e, hmem, rfl, hcount⟩ := h b hb
    by_cases htaken : (r.heap.search (r.verdict (exclude.getD ∅))).1 = some e
    · exact Or.inl ⟨e, htaken, rfl⟩
    · exact Or.inr ⟨e, HeapQueue.mem_search hmem (verdict_ne_drop hb hcount) htaken, rfl, hcount⟩
  cases hfound : (r.heap.search (r.verdict (exclude.getD ∅))).1 with
  | none =>
      rw [nextBackend_of_none hfound]
      intro b hb
      rcases hkept b hb with ⟨e, he, -⟩ | hcur
      · rw [hfound] at he; cases he
      · exact hcur
  | some e =>
      rw [nextBackend_of_some hfound]
      refine covered_recordCount (fun b hb hbe => ?_) _
      rcases hkept b hb with ⟨e', he', rfl⟩ | hcur
      · rw [hfound] at he'
        exact absurd (congrArg Entry.backend (Option.some.inj he')) hbe
      · exact hcur

theorem Covered.markHealthy {r : LeastConnectionsRouter} (h : r.Covered) (backend : Backend) :
    (r.markHealthy backend).Covered := by
  intro b hb
  by_cases hmem : backend ∈ r.healthySet
  · rw [LeastConnectionsRouter.markHealthy, if_pos hmem] at hb ⊢
    exact h b hb
  · have hcount := count_markHealthy r backend b
    rw [LeastConnectionsRouter.markHealthy, if_neg hmem] at hb hcount ⊢
    by_cases hbb : b = backend
    · subst hbb
      exact ⟨⟨r.count b, r.tiebreak + 1, b⟩, HeapQueue.mem_push.mpr (Or.inl rfl), rfl, hcount.symm⟩
    · obtain ⟨e, he, heb, hecount⟩ := h b (Finset.mem_of_mem_insert_of_ne hb hbb)
      exact ⟨e, HeapQueue.mem_push.mpr (Or.inr he), heb, hecount.trans hcount.symm⟩

theorem Covered.perform {r : LeastConnectionsRouter} (h : r.Covered) (call : RouterCall) :
    (r.perform call).Covered := by
  cases call with
  | nextBackend exclude => exact h.nextBackend exclude
  | onDisconnect backend => exact covered_recordCount (fun b hb _ => h b hb) _
  | markUnhealthy backend => exact fun b hb => h b (Finset.mem_of_mem_erase hb)
  | markHealthy backend => exact h.markHealthy backend

theorem covered_after (backends : List Backend) (calls : List RouterCall) :
    (after backends calls).Covered := by
  unfold after
  generalize hr : init backends = r
  have hcovered : r.Covered := hr ▸ covered_init backends
  clear hr
  induction calls generalizing r with
  | nil => exact hcovered
  | cons call calls ih => exact ih (r.perform call) (hcovered.perform call)

/-- **Least-connections selection.** After any calls, `next_backend` fails exactly when every healthy
backend is excluded; otherwise it returns a healthy backend outside `exclude` whose count is least among
these, and adds one to that count and to no other. -/
theorem nextBackend_least_loaded (backends : List Backend) (calls : List RouterCall)
    (exclude : Option (Finset Backend)) :
    let r := after backends calls
    ((r.nextBackend exclude).1 = none ↔ ∀ b ∈ r.healthySet, b ∈ exclude.getD ∅) ∧
    ((r.nextBackend exclude).1 = none → ∀ b, (r.nextBackend exclude).2.count b = r.count b) ∧
    ∀ b, (r.nextBackend exclude).1 = some b →
      b ∈ r.healthySet ∧ b ∉ exclude.getD ∅ ∧
      (∀ b' ∈ r.healthySet, b' ∉ exclude.getD ∅ → r.count b ≤ r.count b') ∧
      ∀ b', (r.nextBackend exclude).2.count b' = r.count b' + if b = b' then 1 else 0 := by
  intro r
  have hcovered : r.Covered := covered_after backends calls
  refine ⟨hcovered.nextBackend_eq_none_iff, count_nextBackend_none, fun b hsome => ?_⟩
  obtain ⟨⟨hhealthy, hskip, hleast⟩, -⟩ := hcovered.exists_pick hsome
  exact ⟨hhealthy, hskip, hleast, count_nextBackend_some hsome⟩

end LeastConnectionsRouter

end LoadBalancer
