import Mathlib.Data.List.Perm.Basic
import LoadBalancer.Slots

/-! Slots over whole runs of any number of connections with one least-connections router: the count of
every backend is the number of connections that hold a slot of it, every slot is released at most once,
and no slot is lost in the runs whose calls all meet `ReleasesSlot`. -/

namespace LoadBalancer

open Outcome

namespace Fleet

/-- The slots that are held, by connection. -/
def holders (w : Fleet) : List (Option Backend) := w.sessions.map fun s => s.conn.held

/-- What the slots of one connection look like between two calls. -/
structure SessionSlots (clean : Prop) (s : Session) : Prop where
  ledger : acquired s.trace = released s.trace ++ s.conn.held.toList
  positive : ∀ b n, Action.onDisconnect b n ∈ s.trace → 1 ≤ n
  assigned : Assigned s.conn
  settled : clean → s.conn.state = .done → s.conn.held = none

/-- The accounting of the whole fleet. -/
structure Balanced (clean : Prop) (w : Fleet) : Prop where
  counts : w.router.Counts fun b => (w.holders.count (some b) : Nat)
  sessions : ∀ s ∈ w.sessions, SessionSlots clean s

variable {cfg : Config} {clean : Prop} {w w' : Fleet}

/-- The slots that all connections but one hold. -/
def othersOf (w : Fleet) (i : Nat) (b : Backend) : Nat := (w.holders.eraseIdx i).count (some b)

theorem count_holders {i : Nat} {s : Session} (hs : w.sessions[i]? = some s) (b : Backend) :
    w.holders.count (some b) = w.othersOf i b + if s.conn.held = some b then 1 else 0 := by
  obtain ⟨hlt, rfl⟩ := List.getElem?_eq_some_iff.mp hs
  have hlt' : i < w.holders.length := by rwa [holders, List.length_map]
  rw [othersOf, ← (List.getElem_cons_eraseIdx_perm hlt').count_eq, List.count_cons]
  simp [holders]

theorem count_holders_put {i : Nat} {s : Session} (hs : w.sessions[i]? = some s) (f : Frame)
    (b : Backend) :
    (w.put i f).holders.count (some b) = w.othersOf i b + if f.conn.held = some b then 1 else 0 := by
  obtain ⟨hlt, rfl⟩ := List.getElem?_eq_some_iff.mp hs
  have hput : (w.put i f).sessions[i]? = some ⟨f.conn, f.trace⟩ := by
    simp [put, hlt]
  have hothers : (w.put i f).othersOf i b = w.othersOf i b := by
    simp [othersOf, holders, put, List.map_set, List.eraseIdx_set_eq]
  rw [count_holders hput, hothers]

/-- The frame of a call starts in the slots of its connection. -/
theorem Balanced.frame (h : Balanced clean w) {i : Nat} {s : Session} (hs : w.sessions[i]? = some s)
    (io : Io) : SlotsKept clean (w.othersOf i) (w.frame s io) := by
  have hslots := h.sessions s (List.mem_of_getElem? hs)
  refine ⟨⟨h.counts.congr fun b => ?_, hslots.ledger, hslots.positive⟩, hslots.assigned, hslots.settled⟩
  rw [count_holders hs]
  by_cases hb : s.conn.held = some b <;> simp [Fleet.frame, hb]

theorem Balanced.put (h : Balanced clean w) {i : Nat} {s : Session} (hs : w.sessions[i]? = some s)
    {f : Frame} (hf : SlotsKept clean (w.othersOf i) f) : Balanced clean (w.put i f) := by
  refine ⟨hf.accounted.counts.congr fun b => ?_, fun s' hs' => ?_⟩
  · rw [count_holders_put hs]
    by_cases hb : f.conn.held = some b <;> simp [hb]
  · rcases List.mem_or_eq_of_mem_set hs' with hs' | rfl
    · exact h.sessions s' hs'
    · exact ⟨hf.accounted.ledger, hf.accounted.positive, hf.assigned, hf.settled⟩

/-- A change of one connection that leaves its slot alone leaves the holders as they are. -/
theorem map_held_modify (sessions : List Session) (i : Nat) {change : Session → Session}
    (h : ∀ s, (change s).conn.held = s.conn.held) :
    (sessions.modify i change).map (fun s => s.conn.held) = sessions.map fun s => s.conn.held := by
  apply List.ext_getElem?
  intro j
  simp only [List.getElem?_map, List.getElem?_modify]
  cases sessions[j]? with
  | none => rfl
  | some s => by_cases hij : i = j <;> simp [hij, h]

/-- Such a change keeps the accounting if it keeps that of the connection. -/
theorem Balanced.modify (h : Balanced clean w) {i : Nat} {change : Session → Session}
    (hheld : ∀ s, (change s).conn.held = s.conn.held)
    (hslots : ∀ s, w.sessions[i]? = some s → SessionSlots clean s → SessionSlots clean (change s)) :
    Balanced clean { w with sessions := w.sessions.modify i change } := by
  have hholders : (w.sessions.modify i change).map (fun s => s.conn.held) = w.holders :=
    map_held_modify _ _ hheld
  refine ⟨by rw [holders, hholders]; exact h.counts, fun s hs => ?_⟩
  rcases mem_modify hs with hs | ⟨s₀, hs₀, rfl⟩
  · exact h.sessions s hs
  · exact hslots s₀ hs₀ (h.sessions s₀ (List.mem_of_getElem? hs₀))

theorem Balanced.markDone (h : Balanced clean w) {i : Nat}
    (hheld : clean → ∀ s, w.sessions[i]? = some s → s.conn.held = none) :
    Balanced clean (w.markDone i) :=
  h.modify (fun _ => rfl) fun s hs hslots =>
    ⟨hslots.ledger, hslots.positive, ⟨by rintro ⟨⟩, fun hstate => absurd rfl hstate⟩,
      fun hclean _ => hheld hclean s hs⟩

theorem Balanced.clearPending (h : Balanced clean w) (i : Nat) : Balanced clean (w.clearPending i) :=
  h.modify (fun _ => rfl) fun _ _ hslots =>
    ⟨hslots.ledger, hslots.positive, ⟨hslots.assigned.1, hslots.assigned.2⟩, hslots.settled⟩

theorem Balanced.accept (h : Balanced clean w) (fd : Nat) (addr : Bytes × Nat) (clock : List Time) :
    Balanced clean (w.accept cfg fd addr clock) := by
  refine ⟨h.counts.congr fun b => ?_, fun s hs => ?_⟩
  · simp [holders, Fleet.accept, ProxyConnection.held, ProxyConnection.init]
  · rcases List.mem_append.mp hs with hs | hs
    · exact h.sessions s hs
    · rw [List.mem_singleton.mp hs]
      exact ⟨rfl, by rintro b n ⟨⟩, ⟨fun _ => rfl, fun _ => rfl⟩, fun _ => by rintro ⟨⟩⟩

/-- The steps that lose no slot: handler calls that meet `ReleasesSlot`, and giving up connections
without a slot. -/
def KeepsSlots : Fleet → Event → Prop := Meets ReleasesSlot fun c => c.held = none

theorem Balanced.step (h : Balanced clean w) {e : Event} (hguard : clean → KeepsSlots w e)
    (hstep : step cfg w e = some w') : Balanced clean w' := by
  cases e with
  | accept fd addr clock =>
      obtain rfl := Option.some.inj hstep
      exact h.accept fd addr clock
  | call i c io =>
      obtain ⟨s, f, hs, hends, rfl⟩ := step_call_cases hstep
      have hpost := handle_slots cfg c (h.frame hs io) fun hclean => hguard hclean s hs
      exact h.put hs (hends.of_post (hpost.mono (fun _ hf => hf) fun _ hf => hf.setDone))
  | abort i =>
      obtain rfl := Option.some.inj hstep
      exact h.markDone hguard
  | mark m =>
      obtain rfl := Option.some.inj hstep
      exact ⟨h.counts.mark m, h.sessions⟩
  | tick reading =>
      obtain rfl := Option.some.inj hstep
      exact ⟨h.counts, h.sessions⟩
  | sockets os =>
      obtain rfl := Option.some.inj hstep
      exact ⟨h.counts, h.sessions⟩
  | unregistered i =>
      obtain rfl := Option.some.inj hstep
      exact h.clearPending i

theorem balanced_init (backends : List Backend) :
    Balanced clean (init (.leastConnections (.init backends))) :=
  ⟨⟨_, rfl, fun b => LeastConnectionsRouter.count_init backends b⟩, by rintro s ⟨⟩⟩

/-- The accounting holds after every run, and if `clean` says that the run's steps lose no slot, then
connections that are `DONE` hold none. -/
theorem balanced_of_run {backends : List Backend} {events : List Event}
    (hguard : Machine.Guarded (step cfg) (fun w e => clean → KeepsSlots w e)
      (init (.leastConnections (.init backends))) events)
    (hrun : Machine.run (step cfg) (init (.leastConnections (.init backends))) events = some w) :
    Balanced clean w :=
  Machine.run_invariant_of_guarded (Balanced clean) (fun _ _ _ h hg hstep => h.step hg hstep)
    (balanced_init backends) hguard hrun

theorem count_holders_eq (w : Fleet) (b : Backend) :
    w.holders.count (some b) = w.sessions.countP fun s => s.conn.held = some b := by
  rw [holders, List.count_eq_countP, List.countP_map]
  apply List.countP_congr
  intro s _
  simp

/-- **Exact accounting.** In every state between handler calls, the count of a backend is the number of
connections, living or not, that are assigned to it and have not released it; what a connection has
acquired is what it has released and the slot it holds, and no release found a count below one. -/
theorem counts_exact (cfg : Config) (backends : List Backend) {events : List Event} {w : Fleet}
    (hrun : Machine.run (step cfg) (init (.leastConnections (.init backends))) events = some w) :
    (∀ b, w.router.count b = w.sessions.countP fun s =>
      s.conn.backendAddr = some b ∧ s.conn.disconnectNotified = false) ∧
    ∀ s ∈ w.sessions, acquired s.trace = released s.trace ++ s.conn.held.toList ∧
      ∀ b n, Action.onDisconnect b n ∈ s.trace → 1 ≤ n := by
  have hbalanced : Balanced False w :=
    balanced_of_run (Machine.guarded_of_forall (fun _ _ => False.elim) _ _) hrun
  refine ⟨fun b => ?_, fun s hs =>
    ⟨(hbalanced.sessions s hs).ledger, (hbalanced.sessions s hs).positive⟩⟩
  rw [hbalanced.counts.count_eq, count_holders_eq]
  congr 1
  apply List.countP_congr
  intro s _
  cases hnotified : s.conn.disconnectNotified <;> simp [ProxyConnection.held, hnotified]

theorem counts_exact_oneRequest : ∃ w,
    Machine.run (step .default) (init (.leastConnections (.init [localBackend])))
      (oneRequest .blocked) = some w ∧
    (∀ b, w.router.count b = w.sessions.countP fun s =>
      s.conn.backendAddr = some b ∧ s.conn.disconnectNotified = false) ∧
    ∀ s ∈ w.sessions, acquired s.trace = released s.trace ++ s.conn.held.toList ∧
      ∀ b n, Action.onDisconnect b n ∈ s.trace → 1 ≤ n := by
  obtain ⟨w, hrun⟩ : ∃ w, Machine.run (step .default)
      (init (.leastConnections (.init [localBackend]))) (oneRequest .blocked) = some w :=
    Option.isSome_iff_exists.mp (by decide +kernel)
  exact ⟨w, hrun, counts_exact .default [localBackend] hrun⟩

/-- **No lost slot.** In a run whose steps all lose no slot, every connection in state `DONE` has
released each backend it was given, and the count of a backend is the number of connections at work
that are assigned to it. -/
theorem no_slot_lost (cfg : Config) (backends : List Backend) {events : List Event} {w : Fleet}
    (hkeeps : Machine.Guarded (step cfg) KeepsSlots (init (.leastConnections (.init backends))) events)
    (hrun : Machine.run (step cfg) (init (.leastConnections (.init backends))) events = some w) :
    (∀ s ∈ w.sessions, s.conn.state = .done → acquired s.trace = released s.trace) ∧
    ∀ b, w.router.count b = w.sessions.countP fun s =>
      s.conn.state ≠ .done ∧ s.conn.backendAddr = some b := by
  have hbalanced : Balanced True w :=
    balanced_of_run (hkeeps.mono fun _ _ hstep _ => hstep) hrun
  refine ⟨fun s hs hdone => ?_, fun b => ?_⟩
  · have hslots := hbalanced.sessions s hs
    rw [hslots.ledger, hslots.settled trivial hdone]
    exact List.append_nil _
  · rw [hbalanced.counts.count_eq, count_holders_eq]
    congr 1
    apply List.countP_congr
    intro s hs
    have hslots := hbalanced.sessions s hs
    by_cases hdone : s.conn.state = .done
    · simp [hdone, hslots.settled trivial hdone]
    · simp [hdone, hslots.assigned.held_eq hdone]

theorem no_slot_lost_oneRequest : ∃ w,
    Machine.run (step .default) (init (.leastConnections (.init [localBackend])))
      (oneRequest (.sent 4096)) = some w ∧
    (∀ s ∈ w.sessions, s.conn.state = .done → acquired s.trace = released s.trace) ∧
    ∀ b, w.router.count b = w.sessions.countP fun s =>
      s.conn.state ≠ .done ∧ s.conn.backendAddr = some b := by
  obtain ⟨w, hrun⟩ : ∃ w, Machine.run (step .default)
      (init (.leastConnections (.init [localBackend]))) (oneRequest (.sent 4096)) = some w :=
    Option.isSome_iff_exists.mp (by decide +kernel)
  refine ⟨w, hrun, no_slot_lost .default [localBackend] ?_ hrun⟩
  refine ⟨trivial, fun _ _ => ⟨fun _ _ _ _ => rfl, fun _ _ => ⟨fun _ _ => ?_, fun _ _ => ?_⟩⟩⟩
  · exact ⟨fun _ => SockoptResult.noConfusion, fun _ => ⟨rfl, fun _ => rfl⟩⟩
  · exact ⟨fun _ _ _ => ⟨rfl, fun _ => rfl⟩, fun _ _ => ⟨fun _ _ _ => ⟨rfl, rfl⟩, fun _ _ => trivial⟩⟩

/-- A client that resets its connection while the response is being relayed leaves its slot behind. -/
theorem slot_lost_on_client_reset : ∃ w,
    Machine.run (step .default) (init (.leastConnections (.init [localBackend])))
      (oneRequest .osError) = some w ∧
    w.sessions.map (fun s => (s.conn.state, acquired s.trace, released s.trace)) =
      [(.done, [localBackend], [])] ∧
    w.router.count localBackend = 1 := by
  have hview : (Machine.run (step .default) (init (.leastConnections (.init [localBackend])))
      (oneRequest .osError)).map (fun w =>
        (w.sessions.map (fun s => (s.conn.state, acquired s.trace, released s.trace)),
          w.router.count localBackend)) = some ([(.done, [localBackend], [])], 1) := by
    decide +kernel
  obtain ⟨w, hrun, hw⟩ := Option.map_eq_some_iff.mp hview
  obtain ⟨hsessions, hcount⟩ := Prod.mk.inj hw
  exact ⟨w, hrun, hsessions, hcount⟩

end Fleet

end LoadBalancer
