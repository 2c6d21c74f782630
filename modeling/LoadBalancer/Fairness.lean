import LoadBalancer.LeastConnections
import LoadBalancer.Machine

/-! Ties between backends with the least count. The tiebreak of a heap entry is the time at which it was
pushed, so the heap gives the backend whose count changed longest ago, as long as the only entry that
says the count of a backend is the one pushed when it got this count. A stale entry comes back to life
when the count returns to what it says, with the place in the order that it had then. -/

namespace LoadBalancer

namespace LeastConnectionsRouter

/-- A router, and the backends whose count has changed or that were put in, the latest first. -/
structure Traced where
  router : LeastConnectionsRouter
  touched : List Backend

/-- The backend whose count the call changes, or that it puts in. -/
def touches (r : LeastConnectionsRouter) : RouterCall → Option Backend
  | .nextBackend exclude => (r.nextBackend exclude).1
  | .onDisconnect backend =>
      if (r.onDisconnect backend).count backend = r.count backend then none else some backend
  | .markUnhealthy _ => none
  | .markHealthy backend => if backend ∈ r.healthySet then none else some backend

/-- The heap has an entry of the backend that says this count. -/
def Says (r : LeastConnectionsRouter) (n : Int) (b : Backend) : Prop :=
  ∃ e ∈ r.heap.entries, e.backend = b ∧ e.count = n

instance (r : LeastConnectionsRouter) (n : Int) (b : Backend) : Decidable (r.Says n b) :=
  inferInstanceAs (Decidable (∃ e ∈ r.heap.entries, e.backend = b ∧ e.count = n))

/-- What was touched after the last time that `b` was. -/
def touchedSince (b : Backend) (touched : List Backend) : List Backend := touched.takeWhile (· ≠ b)

namespace Traced

def start (backends : List Backend) : Traced := ⟨.init backends, backends.reverse⟩

def perform (s : Traced) (c : RouterCall) : Traced :=
  ⟨s.router.perform c, (touches s.router c).toList ++ s.touched⟩

def after (backends : List Backend) (calls : List RouterCall) : Traced :=
  calls.foldl perform (start backends)

/-- Of the tied backends, `next_backend` returns the one that was touched longest ago. -/
def Fair (s : Traced) (exclude : Option (Finset Backend)) : Prop :=
  ∀ b₀, s.router.Tied exclude b₀ → ∃ b, (s.router.nextBackend exclude).1 = some b ∧
    s.router.Tied exclude b ∧ b ∈ s.touched ∧
    ∀ b', s.router.Tied exclude b' → b' ≠ b → b' ∈ touchedSince b s.touched

/-- Healthy backends with equal counts come in the heap in the order in which they were touched. -/
def InOrder (s : Traced) : Prop :=
  ∀ b ∈ s.router.healthySet, ∀ b' ∈ s.router.healthySet, s.router.count b = s.router.count b' →
    b' ∈ touchedSince b s.touched →
    ∃ e ∈ s.router.heap.entries, e.backend = b ∧ e.count = s.router.count b ∧
      ∀ e' ∈ s.router.heap.entries, e'.backend = b' → e'.count = s.router.count b' → e ≤ e'

/-- The call gives no healthy backend a count that an entry of it in the heap already says. -/
def RevivesNone (s : Traced) : RouterCall → Prop
  | .nextBackend exclude =>
      ∀ b ∈ (s.router.nextBackend exclude).1, ¬ s.router.Says (s.router.count b + 1) b
  | .onDisconnect b =>
      b ∈ s.router.healthySet → s.router.count b ≠ 0 → ¬ s.router.Says (max 0 (s.router.count b - 1)) b
  | .markUnhealthy _ => True
  | .markHealthy b => b ∉ s.router.healthySet → ¬ s.router.Says (s.router.count b) b

end Traced

/-! ### What a call does to the heap -/

/-- From `r` to `r'` no count changes and no backend is put in. -/
structure Quiet (r r' : LeastConnectionsRouter) : Prop where
  tiebreak : r.tiebreak ≤ r'.tiebreak
  count : ∀ b, r'.count b = r.count b
  healthy : ∀ b ∈ r'.healthySet, b ∈ r.healthySet
  kept : ∀ e ∈ r.heap.entries, e.backend ∈ r.healthySet → e.count = r.count e.backend →
    e ∈ r'.heap.entries
  pushed : ∀ e ∈ r'.heap.entries, e ∈ r.heap.entries ∨ r.tiebreak < e.tiebreak

/-- From `r` to `r'` the backend gets its count anew, and an entry that says it. -/
structure Touch (b : Backend) (r r' : LeastConnectionsRouter) : Prop where
  tiebreak : r'.tiebreak = r.tiebreak + 1
  count : ∀ b', b' ≠ b → r'.count b' = r.count b'
  healthy : ∀ b' ∈ r'.healthySet, b' ≠ b → b' ∈ r.healthySet
  kept : ∀ e ∈ r.heap.entries, e.backend ≠ b → e.backend ∈ r.healthySet →
    e.count = r.count e.backend → e ∈ r'.heap.entries
  entry : ⟨r'.count b, r.tiebreak + 1, b⟩ ∈ r'.heap.entries
  pushed : ∀ e ∈ r'.heap.entries, e ∈ r.heap.entries ∨ e = ⟨r'.count b, r.tiebreak + 1, b⟩

theorem touch_pushEntry (r : LeastConnectionsRouter) (b : Backend) :
    Touch b r (r.pushEntry (r.count b) b) where
  tiebreak := rfl
  count := fun _ _ => rfl
  healthy := fun _ hb' _ => hb'
  kept := fun _ he _ _ _ => HeapQueue.mem_push.mpr (Or.inr he)
  entry := HeapQueue.mem_push.mpr (Or.inl rfl)
  pushed := fun _ he => (HeapQueue.mem_push.mp he).symm

theorem touch_onDisconnect {r : LeastConnectionsRouter} {b : Backend} : Touch b r (r.onDisconnect b) where
  tiebreak := rfl
  count := fun b' hne => by rw [count_onDisconnect, if_neg (Ne.symm hne)]
  healthy := fun _ hb' _ => hb'
  kept := fun _ he _ _ _ => HeapQueue.mem_push.mpr (Or.inr he)
  entry := HeapQueue.mem_push.mpr (Or.inl (by rw [count_onDisconnect, if_pos rfl]))
  pushed := fun _ he => (HeapQueue.mem_push.mp he).symm.imp_right fun heq => by
    rw [heq, count_onDisconnect, if_pos rfl]

/-- An `on_disconnect` that leaves the count pushes one more entry with it. -/
theorem quiet_onDisconnect {r : LeastConnectionsRouter} {b : Backend}
    (h : (r.onDisconnect b).count b = r.count b) : Quiet r (r.onDisconnect b) where
  tiebreak := Nat.le_succ _
  count := fun b' => by
    by_cases hb : b' = b
    · rw [hb, h]
    · exact touch_onDisconnect.count b' hb
  healthy := fun _ hb' => hb'
  kept := fun _ he _ _ => HeapQueue.mem_push.mpr (Or.inr he)
  pushed := fun e he => by
    rcases HeapQueue.mem_push.mp he with rfl | he
    · exact .inr (Nat.lt_succ_self _)
    · exact .inl he

theorem quiet_nextBackend {r : LeastConnectionsRouter} {exclude : Option (Finset Backend)}
    (h : (r.nextBackend exclude).1 = none) : Quiet r (r.nextBackend exclude).2 := by
  have hnone := nextBackend_eq_none.mp h
  rw [nextBackend_of_none hnone]
  refine ⟨le_rfl, fun _ => rfl, fun _ hb => hb, fun e he hb hcount => ?_, fun e he => ?_⟩
  · exact HeapQueue.mem_search he (verdict_ne_drop hb hcount) (by rw [hnone]; exact nofun)
  · exact .inl (HeapQueue.of_mem_search he)

theorem touch_nextBackend {r : LeastConnectionsRouter} {exclude : Option (Finset Backend)} {b : Backend}
    (h : (r.nextBackend exclude).1 = some b) : Touch b r (r.nextBackend exclude).2 := by
  have hcounts := count_nextBackend_some h
  obtain ⟨e, hfound, rfl⟩ := nextBackend_some h
  have hcount := (verdict_eq_take.mp (HeapQueue.search_some hfound).2.1).2.1
  have hself : (r.nextBackend exclude).2.count e.backend = e.count + 1 := by
    rw [hcounts, if_pos rfl, hcount]
  have hother : ∀ b', b' ≠ e.backend → (r.nextBackend exclude).2.count b' = r.count b' :=
    fun b' hne => by rw [hcounts, if_neg (Ne.symm hne), Int.add_zero]
  rw [nextBackend_of_some hfound] at hself hother ⊢
  refine ⟨rfl, hother, fun _ hb' _ => hb', fun e' he' hne hb' hcount' => ?_, ?_, fun e' he' => ?_⟩
  · refine HeapQueue.mem_push.mpr (Or.inr (HeapQueue.mem_search he' (verdict_ne_drop hb' hcount') ?_))
    rw [hfound]
    exact fun heq => hne (congrArg Entry.backend (Option.some.inj heq)).symm
  · exact HeapQueue.mem_push.mpr (Or.inl (by rw [hself]))
  · rcases HeapQueue.mem_push.mp he' with rfl | he'
    · exact .inr (by rw [hself])
    · exact .inl (HeapQueue.of_mem_search he')

theorem touch_markHealthy {r : LeastConnectionsRouter} {b : Backend} (h : b ∉ r.healthySet) :
    Touch b r (r.markHealthy b) := by
  have hcount := count_markHealthy r b
  rw [markHealthy, if_neg h] at hcount ⊢
  refine ⟨rfl, fun b' _ => hcount b', fun b' hb' hne => ?_, fun e he _ _ _ => ?_, ?_, fun e he => ?_⟩
  · exact Finset.mem_of_mem_insert_of_ne hb' hne
  · exact HeapQueue.mem_push.mpr (Or.inr he)
  · exact HeapQueue.mem_push.mpr (Or.inl (by rw [hcount]))
  · exact (HeapQueue.mem_push.mp he).symm.imp_right fun heq => by rw [heq, hcount]

/-- **What a call does**: it touches one backend, or none. -/
theorem perform_effect (r : LeastConnectionsRouter) (c : RouterCall) :
    (touches r c = none ∧ Quiet r (r.perform c)) ∨
      ∃ b, touches r c = some b ∧ Touch b r (r.perform c) := by
  cases c with
  | nextBackend exclude =>
      cases hpick : (r.nextBackend exclude).1 with
      | none => exact .inl ⟨hpick, quiet_nextBackend hpick⟩
      | some b => exact .inr ⟨b, hpick, touch_nextBackend hpick⟩
  | onDisconnect b =>
      by_cases hsame : (r.onDisconnect b).count b = r.count b
      · exact .inl ⟨if_pos hsame, quiet_onDisconnect hsame⟩
      · exact .inr ⟨b, if_neg hsame, touch_onDisconnect⟩
  | markUnhealthy b =>
      refine .inl ⟨rfl, le_rfl, fun _ => rfl, fun b' hb' => ?_, fun _ he _ _ => he, fun _ he => .inl he⟩
      exact Finset.mem_of_mem_erase hb'
  | markHealthy b =>
      by_cases hmem : b ∈ r.healthySet
      · refine .inl ⟨if_pos hmem, ?_⟩
        rw [perform, markHealthy, if_pos hmem]
        exact ⟨le_rfl, fun _ => rfl, fun _ hb' => hb', fun _ he _ _ => he, fun _ he => .inl he⟩
      · exact .inr ⟨b, if_neg hmem, touch_markHealthy hmem⟩

/-! ### The entries that were pushed at the touches -/

/-- The entry is the latest one of its backend in the log. -/
def Latest (log : List Entry) (e : Entry) : Prop := log.find? (fun x => x.backend = e.backend) = some e

/-- The entries of a log are in the order of their tiebreaks, the latest first. -/
def Ordered (log : List Entry) : Prop := log.Pairwise fun e e' => e'.tiebreak < e.tiebreak

theorem Ordered.eq_of_tiebreak {log : List Entry} (h : Ordered log) {e e' : Entry} (he : e ∈ log)
    (he' : e' ∈ log) (heq : e.tiebreak = e'.tiebreak) : e = e' := by
  have hnodup : (log.map Entry.tiebreak).Nodup := List.pairwise_map.mpr (h.imp fun hlt => Nat.ne_of_gt hlt)
  exact List.inj_on_of_nodup_map hnodup he he' heq

theorem exists_latest {log : List Entry} {b : Backend} (h : b ∈ log.map Entry.backend) :
    ∃ e, e.backend = b ∧ Latest log e := by
  obtain ⟨e₀, he₀, rfl⟩ := List.mem_map.mp h
  obtain ⟨e, he⟩ : ∃ e, log.find? (fun x => x.backend = e₀.backend) = some e :=
    Option.isSome_iff_exists.mp (List.find?_isSome.mpr ⟨e₀, he₀, decide_eq_true rfl⟩)
  have hb : e.backend = e₀.backend := by simpa using List.find?_some he
  exact ⟨e, hb, by rw [Latest, hb, he]⟩

theorem Latest.mem {log : List Entry} {e : Entry} (h : Latest log e) : e ∈ log :=
  List.mem_of_find?_eq_some h

/-- One more entry is the latest of its backend and of no other. -/
theorem latest_cons_iff {log : List Entry} {e₀ e : Entry} :
    Latest (e₀ :: log) e ↔ e = e₀ ∨ e.backend ≠ e₀.backend ∧ Latest log e := by
  rw [Latest, List.find?_cons]
  by_cases hb : e₀.backend = e.backend
  · simp only [hb, decide_true, Option.some.injEq, ne_eq, not_true_eq_false, false_and, or_false]
    exact eq_comm
  · simp only [hb, decide_false, Latest]
    refine ⟨fun h => .inr ⟨Ne.symm hb, h⟩, ?_⟩
    rintro (rfl | ⟨-, h⟩)
    · exact absurd rfl hb
    · exact h

/-- Of two backends, the one whose latest entry has the greater tiebreak was touched since the other was. -/
theorem mem_touchedSince_iff {log : List Entry} (hordered : Ordered log) {e e' : Entry}
    (h : Latest log e) (h' : Latest log e') :
    e'.backend ∈ touchedSince e.backend (log.map Entry.backend) ↔ e.tiebreak < e'.tiebreak := by
  obtain ⟨-, recent, older, rfl, hrecent⟩ := List.find?_eq_some_iff_append.mp h
  have hne : ∀ x ∈ recent, x.backend ≠ e.backend := fun x hx => by simpa using hrecent x hx
  have hsince : touchedSince e.backend ((recent ++ e :: older).map Entry.backend) =
      recent.map Entry.backend := by
    rw [touchedSince, List.map_append, List.map_cons, List.takeWhile_append_of_pos,
      List.takeWhile_cons_of_neg (by simp), List.append_nil]
    intro b hb
    obtain ⟨x, hx, rfl⟩ := List.mem_map.mp hb
    exact decide_eq_true (hne x hx)
  obtain ⟨-, hlater, hcross⟩ := List.pairwise_append.mp hordered
  rw [hsince]
  constructor
  · intro hb
    obtain ⟨x, hx, hxb⟩ := List.mem_map.mp hb
    have hfound : (recent.find? fun y => y.backend = e'.backend).isSome :=
      List.find?_isSome.mpr ⟨x, hx, decide_eq_true hxb⟩
    have hmem : e' ∈ recent := by
      rw [Latest, List.find?_append] at h'
      obtain ⟨y, hy⟩ := Option.isSome_iff_exists.mp hfound
      rw [hy, Option.some_or] at h'
      exact Option.some.inj h' ▸ List.mem_of_find?_eq_some hy
    exact hcross e' hmem e List.mem_cons_self
  · intro hlt
    rcases List.mem_append.mp h'.mem with hmem | hmem
    · exact List.mem_map_of_mem hmem
    · rcases List.mem_cons.mp hmem with rfl | hmem
      · exact absurd hlt (Nat.lt_irrefl _)
      · have := (List.pairwise_cons.mp hlater).1 e' hmem
        omega

/-- The log of a router: the entry pushed when a healthy backend was last touched is in the heap, and
says its count. -/
structure Logged (s : Traced) (log : List Entry) : Prop where
  touched : log.map Entry.backend = s.touched
  ordered : Ordered log
  tiebreak : ∀ e ∈ log, e.tiebreak ≤ s.router.tiebreak
  latest : ∀ e, Latest log e → e.backend ∈ s.router.healthySet →
    e ∈ s.router.heap.entries ∧ e.count = s.router.count e.backend

/-- No entry that says the count of a healthy backend is older than its latest one. -/
def NoneRevived (s : Traced) (log : List Entry) : Prop :=
  ∀ e, Latest log e → e.backend ∈ s.router.healthySet → ∀ e' ∈ s.router.heap.entries,
    e'.backend = e.backend → e'.count = e.count → e.tiebreak ≤ e'.tiebreak

section Step

variable {r r' : LeastConnectionsRouter} {touched : List Backend} {log : List Entry} {b : Backend}

theorem Logged.quiet (h : Logged ⟨r, touched⟩ log) (hquiet : Quiet r r') : Logged ⟨r', touched⟩ log where
  touched := h.touched
  ordered := h.ordered
  tiebreak := fun e he => (h.tiebreak e he).trans hquiet.tiebreak
  latest := fun e he hb => by
    obtain ⟨hmem, hcount⟩ := h.latest e he (hquiet.healthy _ hb)
    exact ⟨hquiet.kept e hmem (hquiet.healthy _ hb) hcount, hcount.trans (hquiet.count _).symm⟩

theorem Logged.touch (h : Logged ⟨r, touched⟩ log) (htouch : Touch b r r') :
    Logged ⟨r', b :: touched⟩ (⟨r'.count b, r.tiebreak + 1, b⟩ :: log) where
  touched := congrArg (b :: ·) h.touched
  ordered := List.pairwise_cons.mpr ⟨fun e he => Nat.lt_succ_of_le (h.tiebreak e he), h.ordered⟩
  tiebreak := fun e he => by
    rcases List.mem_cons.mp he with rfl | he
    · exact htouch.tiebreak.ge
    · exact (h.tiebreak e he).trans (htouch.tiebreak ▸ Nat.le_succ _)
  latest := fun e he hb => by
    rcases latest_cons_iff.mp he with rfl | ⟨hne, he⟩
    · exact ⟨htouch.entry, rfl⟩
    · obtain ⟨hmem, hcount⟩ := h.latest e he (htouch.healthy _ hb hne)
      exact ⟨htouch.kept e hmem hne (htouch.healthy _ hb hne) hcount,
        hcount.trans (htouch.count _ hne).symm⟩

theorem NoneRevived.quiet (h : NoneRevived ⟨r, touched⟩ log) (hlogged : Logged ⟨r, touched⟩ log)
    (hquiet : Quiet r r') : NoneRevived ⟨r', touched⟩ log := by
  intro e he hb e' he' hb' hcount'
  rcases hquiet.pushed e' he' with hold | hnew
  · exact h e he (hquiet.healthy _ hb) e' hold hb' hcount'
  · exact (hlogged.tiebreak e he.mem).trans hnew.le

/-- A touch revives nothing if no entry of the heap says the new count. -/
theorem NoneRevived.touch (h : NoneRevived ⟨r, touched⟩ log) (htouch : Touch b r r')
    (hnew : b ∈ r'.healthySet → ¬ r.Says (r'.count b) b) :
    NoneRevived ⟨r', b :: touched⟩ (⟨r'.count b, r.tiebreak + 1, b⟩ :: log) := by
  intro e he hb e' he' hb' hcount'
  rcases latest_cons_iff.mp he with rfl | ⟨hne, he⟩
  · rcases htouch.pushed e' he' with hold | rfl
    · exact absurd ⟨e', hold, hb', hcount'⟩ (hnew hb)
    · exact le_rfl
  · rcases htouch.pushed e' he' with hold | rfl
    · exact h e he (htouch.healthy _ hb hne) e' hold hb' hcount'
    · exact absurd hb'.symm hne

end Step

/-! ### Runs -/

namespace Traced

theorem RevivesNone.not_says {s : Traced} {c : RouterCall} {b : Backend} (h : s.RevivesNone c)
    (htouch : touches s.router c = some b) (hb : b ∈ (s.router.perform c).healthySet) :
    ¬ s.router.Says ((s.router.perform c).count b) b := by
  cases c with
  | nextBackend exclude =>
      have hcount := count_nextBackend_some htouch b
      rw [if_pos rfl] at hcount
      rw [LeastConnectionsRouter.perform, hcount]
      exact h b htouch
  | onDisconnect b' =>
      obtain ⟨hchanged, heq⟩ := Option.ite_none_left_eq_some.mp htouch
      obtain rfl := Option.some.inj heq
      rw [count_onDisconnect, if_pos rfl] at hchanged
      rw [LeastConnectionsRouter.perform, count_onDisconnect, if_pos rfl]
      refine h hb fun hzero => hchanged ?_
      rw [hzero]
      rfl
  | markUnhealthy b' => cases htouch
  | markHealthy b' =>
      obtain ⟨hremoved, heq⟩ := Option.ite_none_left_eq_some.mp htouch
      obtain rfl := Option.some.inj heq
      rw [LeastConnectionsRouter.perform, count_markHealthy]
      exact h hremoved

theorem exists_logged_perform {s : Traced} {log : List Entry} (h : Logged s log) (c : RouterCall) :
    ∃ log', Logged (s.perform c) log' ∧
      (NoneRevived s log → s.RevivesNone c → NoneRevived (s.perform c) log') := by
  rcases perform_effect s.router c with ⟨hnone, hquiet⟩ | ⟨b, hsome, htouch⟩
  · rw [perform, hnone]
    exact ⟨log, h.quiet hquiet, fun hrevived _ => hrevived.quiet h hquiet⟩
  · rw [perform, hsome]
    exact ⟨_, h.touch htouch, fun hrevived hguard => hrevived.touch htouch (hguard.not_says hsome)⟩

/-- The pushes of the constructor. -/
theorem exists_logged_pushAll (rest : List Backend) {r : LeastConnectionsRouter} {touched : List Backend}
    {log : List Entry} (h : Logged ⟨r, touched⟩ log) (hzero : ∀ b, r.count b = 0) :
    ∃ log', Logged ⟨rest.foldl (fun r backend => r.pushEntry 0 backend) r, rest.reverse ++ touched⟩ log' ∧
      ((rest.reverse ++ touched).Nodup → (∀ e ∈ r.heap.entries, e.backend ∈ touched) →
        NoneRevived ⟨r, touched⟩ log → NoneRevived
          ⟨rest.foldl (fun r backend => r.pushEntry 0 backend) r, rest.reverse ++ touched⟩ log') := by
  induction rest generalizing r touched log with
  | nil => exact ⟨log, h, fun _ _ hrevived => hrevived⟩
  | cons b rest ih =>
      have htouch : Touch b r (r.pushEntry 0 b) := hzero b ▸ touch_pushEntry r b
      obtain ⟨log', hlogged, hkeeps⟩ := ih (h.touch htouch) hzero
      rw [List.reverse_cons, List.append_assoc, List.singleton_append]
      refine ⟨log', hlogged, fun hnodup howned hrevived => ?_⟩
      have hnew : b ∉ touched := (List.nodup_cons.mp (List.nodup_append.mp hnodup).2.1).1
      refine hkeeps hnodup (fun e he => ?_) (hrevived.touch htouch fun _ ⟨e, he, hb, _⟩ => hnew ?_)
      · rcases HeapQueue.mem_push.mp he with rfl | he
        · exact List.mem_cons_self
        · exact List.mem_cons_of_mem b (howned e he)
      · exact hb ▸ howned e he

theorem exists_logged_start (backends : List Backend) :
    ∃ log, Logged (start backends) log ∧ (backends.Nodup → NoneRevived (start backends) log) := by
  have hempty : Logged ⟨{ allBackends := backends
                          counts := backends.foldl (fun counts backend => counts.set backend 0) Dict.empty
                          tiebreak := 0
                          heap := HeapQueue.empty
                          healthySet := backends.toFinset }, []⟩ [] :=
    ⟨rfl, List.Pairwise.nil, nofun, nofun⟩
  obtain ⟨log, hlogged, hkeeps⟩ := exists_logged_pushAll backends hempty
    (get?_zeroCounts backends Dict.empty fun _ => rfl)
  rw [List.append_nil] at hlogged hkeeps
  exact ⟨log, hlogged, fun hnodup => hkeeps (List.nodup_reverse.mpr hnodup) nofun nofun⟩

def step (s : Traced) (c : RouterCall) : Option Traced := some (s.perform c)

theorem run_step (backends : List Backend) (calls : List RouterCall) :
    Machine.run step (start backends) calls = some (after backends calls) :=
  Machine.run_total perform (start backends) calls

theorem router_after (backends : List Backend) (calls : List RouterCall) :
    (after backends calls).router = LeastConnectionsRouter.after backends calls := by
  suffices h : ∀ s : Traced, (calls.foldl perform s).router =
      calls.foldl LeastConnectionsRouter.perform s.router from h (start backends)
  induction calls with
  | nil => exact fun _ => rfl
  | cons c calls ih => exact fun s => ih (s.perform c)

/-- Every healthy backend was touched at some time. -/
theorem mem_touched_after (backends : List Backend) (calls : List RouterCall) :
    ∀ b ∈ (after backends calls).router.healthySet, b ∈ (after backends calls).touched := by
  refine Machine.run_invariant (fun s : Traced => ∀ b ∈ s.router.healthySet, b ∈ s.touched) ?_ ?_
    (run_step backends calls)
  · rintro s c s' h hstep b hb
    obtain rfl := Option.some.inj hstep
    rcases perform_effect s.router c with ⟨-, hquiet⟩ | ⟨b', hsome, htouch⟩
    · exact List.mem_append_right _ (h b (hquiet.healthy b hb))
    · by_cases hbb : b = b'
      · exact List.mem_append_left _ (by rw [hsome, hbb]; exact List.mem_singleton_self b')
      · exact List.mem_append_right _ (h b (htouch.healthy b hb hbb))
  · intro b hb
    have hset : (init backends).healthySet = backends.toFinset := (pushAll_init backends _).1
    exact List.mem_reverse.mpr (List.mem_toFinset.mp (hset ▸ hb))

theorem exists_logged_after (backends : List Backend) (calls : List RouterCall) :
    ∃ log, Logged (after backends calls) log := by
  refine Machine.run_invariant (fun s : Traced => ∃ log, Logged s log) ?_ ?_ (run_step backends calls)
  · rintro s c s' ⟨log, h⟩ hstep
    obtain rfl := Option.some.inj hstep
    obtain ⟨log', h', -⟩ := exists_logged_perform h c
    exact ⟨log', h'⟩
  · obtain ⟨log, h, -⟩ := exists_logged_start backends
    exact ⟨log, h⟩

theorem exists_noneRevived_after {backends : List Backend} {calls : List RouterCall}
    (hnodup : backends.Nodup) (hguard : Machine.Guarded step RevivesNone (start backends) calls) :
    ∃ log, Logged (after backends calls) log ∧ NoneRevived (after backends calls) log := by
  refine Machine.run_invariant_of_guarded
    (fun s : Traced => ∃ log, Logged s log ∧ NoneRevived s log) ?_ ?_ hguard (run_step backends calls)
  · rintro s c s' ⟨log, h, hrevived⟩ hrevives hstep
    obtain rfl := Option.some.inj hstep
    obtain ⟨log', h', hkeeps⟩ := exists_logged_perform h c
    exact ⟨log', h', hkeeps hrevived hrevives⟩
  · obtain ⟨log, h, hkeeps⟩ := exists_logged_start backends
    exact ⟨log, h, hkeeps hnodup⟩

end Traced

/-! ### Ties -/

/-- Where there is a tied backend, one is returned. -/
theorem Covered.exists_of_tied {r : LeastConnectionsRouter} (h : r.Covered) {exclude : Option (Finset Backend)}
    {b₀ : Backend} (htied : r.Tied exclude b₀) : ∃ b, (r.nextBackend exclude).1 = some b := by
  cases hpick : (r.nextBackend exclude).1 with
  | none => exact absurd (h.nextBackend_eq_none_iff.mp hpick b₀ htied.1) htied.2.1
  | some b => exact ⟨b, rfl⟩

theorem Tied.count_eq {r : LeastConnectionsRouter} {exclude : Option (Finset Backend)} {b b' : Backend}
    (h : r.Tied exclude b) (h' : r.Tied exclude b') : r.count b = r.count b' :=
  le_antisymm (h.2.2 b' h'.1 h'.2.1) (h'.2.2 b h.1 h.2.1)

/-- Two healthy backends with equal counts are tied when all others are excluded. -/
theorem tied_of_exclude {r : LeastConnectionsRouter} {b b' : Backend} (hb : b ∈ r.healthySet)
    (hb' : b' ∈ r.healthySet) (hcount : r.count b = r.count b') (x : Backend) :
    r.Tied (some (r.healthySet \ {b, b'})) x ↔ x = b ∨ x = b' := by
  have hleft : ∀ y ∈ r.healthySet, y ∉ (some (r.healthySet \ {b, b'})).getD ∅ ↔ y = b ∨ y = b' := by
    intro y hy
    simp [hy, or_iff_not_imp_left]
  constructor
  · rintro ⟨hx, hskip, -⟩
    exact (hleft x hx).mp hskip
  · intro hx
    have hmem : x ∈ r.healthySet := by rcases hx with rfl | rfl <;> assumption
    refine ⟨hmem, (hleft x hmem).mpr hx, fun y hy hskip => ?_⟩
    rcases hx with rfl | rfl <;> rcases (hleft y hy).mp hskip with rfl | rfl <;> omega

namespace Traced

variable {s : Traced} {log : List Entry}

/-- Of two backends, one was touched since the other was, and not the other way round. -/
theorem touchedSince_total (h : Logged s log) {b b' : Backend} (hb : b ∈ s.touched) (hb' : b' ∈ s.touched)
    (hne : b' ≠ b) : b' ∈ touchedSince b s.touched ↔ b ∉ touchedSince b' s.touched := by
  rw [← h.touched] at hb hb' ⊢
  obtain ⟨e, rfl, he⟩ := exists_latest hb
  obtain ⟨e', rfl, he'⟩ := exists_latest hb'
  rw [mem_touchedSince_iff h.ordered he he', mem_touchedSince_iff h.ordered he' he, not_lt]
  refine ⟨le_of_lt, fun hle => lt_of_le_of_ne hle fun heq => hne ?_⟩
  rw [h.ordered.eq_of_tiebreak he'.mem he.mem heq.symm]

theorem fair_iff_inOrder (hcovered : s.router.Covered) (hknown : ∀ b ∈ s.router.healthySet, b ∈ s.touched)
    (h : Logged s log) : (∀ exclude, s.Fair exclude) ↔ s.InOrder := by
  constructor
  · intro hfair b hb b' hb' hcount hsince
    have hne : b' ≠ b := by
      rintro rfl
      simpa using List.mem_takeWhile_imp hsince
    have htied := tied_of_exclude hb hb' hcount
    obtain ⟨x, hpick, hxtied, -, hlater⟩ := hfair _ b ((htied b).mpr (.inl rfl))
    obtain ⟨-, e, hmem, hex, hecount, hleast⟩ := hcovered.exists_pick hpick
    -- it is not `b'` that is returned, because `b` was not touched since
    rcases (htied x).mp hxtied with rfl | rfl
    · refine ⟨e, hmem, hex, hecount, fun e' hmem' heb' hecount' => ?_⟩
      exact hleast e' hmem' ((htied _).mpr (.inr heb')) (by rw [heb', hecount'])
    · have hback := hlater b ((htied b).mpr (.inl rfl)) hne.symm
      exact absurd hback ((touchedSince_total h (hknown b hb) (hknown _ hb') hne).mp hsince)
  · intro horder exclude b₀ htied₀
    obtain ⟨b, hpick⟩ := hcovered.exists_of_tied htied₀
    obtain ⟨htied, e, hmem, rfl, hcount, hleast⟩ := hcovered.exists_pick hpick
    refine ⟨e.backend, hpick, htied, hknown _ htied.1, fun b' htied' hne => ?_⟩
    by_contra hnot
    have hsince : e.backend ∈ touchedSince b' s.touched := by
      by_contra hnot'
      exact hnot ((touchedSince_total h (hknown _ htied.1) (hknown _ htied'.1) hne).mpr hnot')
    -- then the heap has an entry of `b'` that the search comes to first
    obtain ⟨e', hmem', rfl, hcount', hfirst⟩ :=
      horder b' htied'.1 e.backend htied.1 (htied'.count_eq htied) hsince
    have heq : e = e' := le_antisymm (hleast e' hmem' htied' hcount') (hfirst e hmem rfl hcount)
    exact hne (congrArg Entry.backend heq).symm

theorem inOrder_of_noneRevived (hknown : ∀ b ∈ s.router.healthySet, b ∈ s.touched) (h : Logged s log)
    (hrevived : NoneRevived s log) : s.InOrder := by
  intro b hb b' hb' hcount hsince
  have htouched := h.touched
  obtain ⟨e, rfl, he⟩ := exists_latest (htouched ▸ hknown b hb)
  obtain ⟨e₁, rfl, he₁⟩ := exists_latest (htouched ▸ hknown b' hb')
  rw [← htouched, mem_touchedSince_iff h.ordered he he₁] at hsince
  obtain ⟨hmem, hecount⟩ := h.latest e he hb
  obtain ⟨-, hecount₁⟩ := h.latest e₁ he₁ hb'
  refine ⟨e, hmem, rfl, hecount, fun e' hmem' heb' hecount' => ?_⟩
  have hold : e₁.tiebreak ≤ e'.tiebreak := hrevived e₁ he₁ hb' e' hmem' heb' (hecount'.trans hecount₁.symm)
  have hkey : e.key ≤ e'.key := by
    refine Prod.Lex.toLex_le_toLex.mpr (.inr ⟨?_, Prod.Lex.toLex_le_toLex.mpr (.inl ?_)⟩)
    · rw [hecount, hcount, hecount']
    · exact Nat.lt_of_lt_of_le hsince hold
  exact hkey

/-- **Fair tie-breaking.** After any calls, `next_backend` returns the tied backend that was touched longest
ago, whatever is excluded, exactly when healthy backends with equal counts come in the heap in the order
in which they were touched. They do in every run from distinct backends in which no call gives a healthy
backend a count that an entry of it in the heap already says. -/
theorem fair_iff (backends : List Backend) (calls : List RouterCall) :
    ((∀ exclude, (after backends calls).Fair exclude) ↔ (after backends calls).InOrder) ∧
    (backends.Nodup → Machine.Guarded step RevivesNone (start backends) calls →
      ∀ exclude, (after backends calls).Fair exclude) := by
  have hcovered : (after backends calls).router.Covered :=
    router_after backends calls ▸ covered_after backends calls
  have hknown := mem_touched_after backends calls
  refine ⟨?_, fun hnodup hguard => ?_⟩
  · obtain ⟨log, h⟩ := exists_logged_after backends calls
    exact fair_iff_inOrder hcovered hknown h
  · obtain ⟨log, h, hrevived⟩ := exists_noneRevived_after hnodup hguard
    exact (fair_iff_inOrder hcovered hknown h).mpr (inOrder_of_noneRevived hknown h hrevived)

theorem fair_round :
    ∀ exclude, (after [⟨"127.0.0.1", 8001⟩, ⟨"127.0.0.1", 8002⟩]
      [.nextBackend none, .nextBackend none, .onDisconnect ⟨"127.0.0.1", 8001⟩,
        .onDisconnect ⟨"127.0.0.1", 8002⟩]).Fair exclude := by
  refine (fair_iff _ _).2 (by decide) ⟨?_, ?_⟩
  · exact fun b hb => Option.some.inj hb ▸ by decide +kernel
  rintro s ⟨⟩
  refine ⟨fun b hb => Option.some.inj hb ▸ by decide +kernel, ?_⟩
  rintro s ⟨⟩
  refine ⟨fun _ _ => by decide +kernel, ?_⟩
  rintro s ⟨⟩
  exact ⟨fun _ _ => by decide +kernel, fun _ _ => trivial⟩

/-- One connection comes and goes, then there is one to each backend. The next one should go to the second
backend, but goes to the first again, by the entry that it had for its first connection. -/
theorem unfair_after_release :
    ¬ (after [⟨"127.0.0.1", 8001⟩, ⟨"127.0.0.1", 8002⟩]
      [.nextBackend none, .onDisconnect ⟨"127.0.0.1", 8001⟩, .nextBackend none,
        .nextBackend none]).Fair none := by
  generalize hs : after [⟨"127.0.0.1", 8001⟩, ⟨"127.0.0.1", 8002⟩] _ = s
  have hview : s.router.healthySet = {⟨"127.0.0.1", 8001⟩, ⟨"127.0.0.1", 8002⟩} ∧
      s.router.count ⟨"127.0.0.1", 8001⟩ = 1 ∧ s.router.count ⟨"127.0.0.1", 8002⟩ = 1 ∧
      (s.router.nextBackend none).1 = some ⟨"127.0.0.1", 8001⟩ ∧
      ⟨"127.0.0.1", 8002⟩ ∉ touchedSince ⟨"127.0.0.1", 8001⟩ s.touched := by
    rw [← hs]
    decide +kernel
  obtain ⟨hset, hfirst, hsecond, hpick, hsince⟩ := hview
  have htied : ∀ b ∈ s.router.healthySet, s.router.Tied none b := by
    intro b hb
    have hone : ∀ b ∈ s.router.healthySet, s.router.count b = 1 := by
      rw [hset]
      intro b hb
      rcases Finset.mem_insert.mp hb with rfl | hb
      · exact hfirst
      · exact Finset.mem_singleton.mp hb ▸ hsecond
    exact ⟨hb, Finset.notMem_empty b, fun b' hb' _ => by rw [hone b hb, hone b' hb']⟩
  intro hfair
  obtain ⟨b, hb, -, -, hlater⟩ := hfair _ (htied ⟨"127.0.0.1", 8001⟩ (by rw [hset]; decide))
  obtain rfl := Option.some.inj (hpick.symm.trans hb)
  exact hsince (hlater _ (htied ⟨"127.0.0.1", 8002⟩ (by rw [hset]; decide)) (by decide))

end Traced

end LeastConnectionsRouter

end LoadBalancer
