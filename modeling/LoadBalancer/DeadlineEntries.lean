import Mathlib.Order.Interval.Finset.Nat
import LoadBalancer.Deadlines
import LoadBalancer.RefreshedDeadlines

/-! How many entries a connection has in the heap. A ledger follows the event loop and keeps with each entry
the connection it was pushed for, which the entry itself does not tell once its `id()` is in use again. As
long as each dispatch on a connection at work refreshes the deadline, no generation of a connection has two
entries. -/

namespace LoadBalancer

open Outcome Reactor

/-- The event loop, and its heap with the connection that each entry was pushed for. -/
structure Ledger where
  reactor : Reactor
  owned : HeapQueue (Deadline ×ₗ Nat)

namespace Ledger

def entry (p : Deadline ×ₗ Nat) : Deadline := (ofLex p).1

def owner (p : Deadline ×ₗ Nat) : Nat := (ofLex p).2

theorem monotone_entry : Monotone entry := Prod.Lex.monotone_fst_ofLex

def init (router : Router) (fd : Nat) : Ledger := ⟨Reactor.init router fd, HeapQueue.empty⟩

/-- What `_schedule_deadline` pushes for connection `i`. -/
def pushed (r : Reactor) (i : Nat) : Option Deadline :=
  match r.fleet.sessions[i]?, r.handles[i]? with
  | some s, some handle => if s.conn.state = .done then none else some (entryOf s handle.connId)
  | _, _ => none

def note (i : Nat) (r : Reactor) (owned : HeapQueue (Deadline ×ₗ Nat)) : HeapQueue (Deadline ×ₗ Nat) :=
  match pushed r i with
  | none => owned
  | some e => owned.push (toLex (e, i))

/-- The pops and the push of an event that leads from `r` to `r'`. -/
def follow (r r' : Reactor) (owned : HeapQueue (Deadline ×ₗ Nat)) : Event → HeapQueue (Deadline ×ₗ Nat)
  | .selectTimeout _ => (owned.popWhile fun p => (r.validEntry? (entry p)).isNone).2
  | .accept _ _ _ _ => note r.fleet.sessions.length r' owned
  | .dispatch i _ _ _ => note i r' owned
  | .expireTimeouts reading _ =>
      (owned.popWhile fun p => (entry p).deadline ≤ max r.fleet.now reading).2
  | .reap => owned
  | .mark _ => owned

def step (cfg : Config) (l : Ledger) (e : Event) : Option Ledger :=
  (l.reactor.step cfg e).map fun r' => ⟨r', follow l.reactor r' l.owned e⟩

/-- The generations of the entries that were pushed for connection `i` and are still in the heap. -/
def generations (owned : HeapQueue (Deadline ×ₗ Nat)) (i : Nat) : List Nat :=
  (owned.entries.filter fun p => owner p = i).map fun p => (entry p).gen

variable {cfg : Config} {i : Nat} {r r' : Reactor} {owned : HeapQueue (Deadline ×ₗ Nat)} {l l' : Ledger}

/-! ### The ledger has the heap's entries -/

theorem deadlines_scheduleDeadline (i : Nat) (r : Reactor) : (r.scheduleDeadline i).deadlines =
    match pushed r i with
    | none => r.deadlines
    | some e => r.deadlines.push e := by
  unfold scheduleDeadline pushed
  cases r.fleet.sessions[i]? with
  | none => rfl
  | some s =>
      cases r.handles[i]? with
      | none => rfl
      | some handle =>
          dsimp only
          split <;> rfl

@[simp] theorem handles_scheduleDeadline (i : Nat) (r : Reactor) :
    (r.scheduleDeadline i).handles = r.handles := by
  unfold scheduleDeadline
  split
  · split <;> rfl
  · rfl

theorem pushed_scheduleDeadline (i : Nat) (r : Reactor) : pushed (r.scheduleDeadline i) i = pushed r i := by
  rw [pushed, pushed, fleet_scheduleDeadline, handles_scheduleDeadline]

theorem pushed_markDone (i : Nat) (r : Reactor) : pushed (r.markDone i) i = none := by
  unfold pushed
  split
  · next s handle hs _ =>
    exact if_pos (done_of_markDone hs)
  · rfl

/-- The ledger, without the connections, is the heap. -/
def Matches (owned : HeapQueue (Deadline ×ₗ Nat)) (r : Reactor) : Prop :=
  owned.map entry monotone_entry = r.deadlines

theorem Matches.note (h : Matches owned r) (i : Nat) :
    Matches (note i (r.scheduleDeadline i) owned) (r.scheduleDeadline i) := by
  rw [Matches, Ledger.note, pushed_scheduleDeadline, deadlines_scheduleDeadline]
  cases pushed r i with
  | none => exact h
  | some e =>
      calc (owned.push (toLex (e, i))).map entry monotone_entry
          = (owned.map entry monotone_entry).push e := HeapQueue.map_push monotone_entry _ owned
        _ = r.deadlines.push e := by rw [h]

theorem deadlines_expireTimeouts {reading : Time} {io : Nat → Io}
    (hstep : r.expireTimeouts cfg reading io = some r') :
    r'.deadlines = (r.deadlines.popWhile fun e => e.deadline ≤ max r.fleet.now reading).2 := by
  refine expireTimeouts_induction (P := fun _ r₁ =>
    r₁.deadlines = (r.deadlines.popWhile fun e => e.deadline ≤ max r.fleet.now reading).2) hstep rfl ?_
  intro e rest r₁ r₂ h₁ _ hentry
  rcases expireEntry_acts hentry with ⟨-, rfl⟩ | ⟨i, s, r₃, -, hacts, -, rfl⟩
  · exact h₁
  · exact hacts.deadlines.trans h₁

theorem deadlines_reap (r : Reactor) : r.reap.deadlines = r.deadlines := by
  refine reap_induction (P := fun r₁ => r₁.deadlines = r.deadlines) rfl fun r₁ fd h₁ _ => ?_
  unfold reapOne
  split
  · exact h₁
  · split <;> exact h₁

theorem Matches.step (h : Matches l.owned l.reactor) {e : Event} (hstep : l.reactor.step cfg e = some r') :
    Matches (follow l.reactor r' l.owned e) r' := by
  cases e with
  | selectTimeout reading =>
      obtain rfl := Option.some.inj hstep
      rw [Matches, follow, HeapQueue.map_popWhile monotone_entry (fun e => (l.reactor.validEntry? e).isNone), h]
      rfl
  | accept fd addr clock connId =>
      obtain ⟨-, sel, -, rfl⟩ := accept_cases hstep
      have hregistered : Matches l.owned (registered cfg fd addr clock connId sel l.reactor) := h
      exact hregistered.note _
  | dispatch i sock mask io =>
      obtain ⟨r₁, hacts, rfl | rfl⟩ := dispatch_cases hstep
      · have h₁ : Matches l.owned r₁ := h.trans hacts.deadlines.symm
        exact h₁.note i
      · rw [Matches, follow, Ledger.note, pushed_markDone]
        exact h.trans hacts.deadlines.symm
  | expireTimeouts reading io =>
      rw [Matches, follow,
        HeapQueue.map_popWhile monotone_entry (fun e => e.deadline ≤ max l.reactor.fleet.now reading), h]
      exact (deadlines_expireTimeouts hstep).symm
  | reap =>
      obtain rfl := Option.some.inj hstep
      exact h.trans (deadlines_reap l.reactor).symm
  | mark m =>
      obtain rfl := Option.some.inj hstep
      exact h

/-! ### What happens to the connections -/

/-- The connections are the same ones, at a later moment. -/
structure Ages (r r' : Reactor) : Prop where
  length : r'.fleet.sessions.length = r.fleet.sessions.length
  session : ∀ (j : Nat) (s' : Session), r'.fleet.sessions[j]? = some s' →
    ∃ s, r.fleet.sessions[j]? = some s ∧ Advances s.conn s'.conn

theorem Ages.refl (r : Reactor) : Ages r r := ⟨rfl, fun _ s' hs' => ⟨s', hs', Advances.refl _⟩⟩

theorem Ages.of_sessions {r₁ : Reactor} (h : Ages r r₁) (heq : r'.fleet.sessions = r₁.fleet.sessions) :
    Ages r r' := ⟨heq ▸ h.length, heq ▸ h.session⟩

theorem Ages.acts {r₁ : Reactor} (h : Ages r r₁) (hacts : Acts Advances i r₁ r') : Ages r r' := by
  refine ⟨hacts.length.trans h.length, fun j s' hs' => ?_⟩
  obtain ⟨s₁, hs₁, hadvances₁⟩ := hacts.session Advances.refl hs'
  obtain ⟨s, hs, hadvances⟩ := h.session j s₁ hs₁
  exact ⟨s, hs, hadvances.trans hadvances₁⟩

theorem Ages.after (h : Ages r r') {j : Nat} {s : Session} (hs : r.fleet.sessions[j]? = some s) :
    ∃ s', r'.fleet.sessions[j]? = some s' ∧ Advances s.conn s'.conn := by
  obtain ⟨hlt, -⟩ := List.getElem?_eq_some_iff.mp hs
  rw [← h.length] at hlt
  have hs' := List.getElem?_eq_getElem hlt
  obtain ⟨s₀, hs₀, hadvances⟩ := h.session j _ hs'
  obtain rfl := Option.some.inj (hs.symm.trans hs₀)
  exact ⟨_, hs', hadvances⟩

theorem ages_dispatch {sock : Sock} {mask : Mask} {io : Call → Io}
    (hstep : r.step cfg (.dispatch i sock mask io) = some r') : Ages r r' := by
  obtain ⟨r₁, hacts, rfl | rfl⟩ := dispatch_cases hstep
  · exact ((Ages.refl r).acts hacts).of_sessions (by rw [fleet_scheduleDeadline])
  · exact (Ages.refl r).acts (markDone_acts i hacts)

theorem ages_expireTimeouts {reading : Time} {io : Nat → Io}
    (hstep : r.expireTimeouts cfg reading io = some r') : Ages r r' := by
  refine expireTimeouts_induction (P := fun _ r₁ => Ages r r₁) hstep ((Ages.refl r).of_sessions rfl) ?_
  intro e rest r₁ r₂ h₁ _ hentry
  rcases expireEntry_acts hentry with ⟨-, rfl⟩ | ⟨i, s, r₃, -, hacts, -, rfl⟩
  · exact h₁
  · exact (h₁.acts hacts).of_sessions rfl

theorem ages_reap (r : Reactor) : Ages r r.reap :=
  reap_induction (P := fun r₁ => Ages r r₁) (Ages.refl r) fun r₁ fd h₁ _ =>
    h₁.of_sessions (sessions_reapOne r₁ fd)

/-! ### One entry for each generation -/

/-- Each entry is of a generation that its connection has had, and no two are of the same one. -/
structure OneEach (r : Reactor) (owned : HeapQueue (Deadline ×ₗ Nat)) : Prop where
  positive : ∀ (j : Nat) (s : Session), r.fleet.sessions[j]? = some s → 0 < s.conn.deadlineGen
  known : ∀ p ∈ owned.entries, 0 < (entry p).gen ∧
    ∃ s, r.fleet.sessions[owner p]? = some s ∧ (entry p).gen ≤ s.conn.deadlineGen
  distinct : ∀ j, (generations owned j).Nodup

/-- Entries are popped while the connections age. -/
theorem OneEach.age (h : OneEach r owned) (hages : Ages r r') {owned' : HeapQueue (Deadline ×ₗ Nat)}
    (hsub : owned'.entries.Sublist owned.entries) : OneEach r' owned' := by
  refine ⟨fun j s' hs' => ?_, fun p hp => ?_, fun j => ?_⟩
  · obtain ⟨s, hs, hadvances⟩ := hages.session j s' hs'
    exact (h.positive j s hs).trans_le hadvances.gen_le
  · obtain ⟨hpos, s, hs, hle⟩ := h.known p (hsub.subset hp)
    obtain ⟨s', hs', hadvances⟩ := hages.after hs
    exact ⟨hpos, s', hs', hle.trans hadvances.gen_le⟩
  · exact (h.distinct j).sublist ((hsub.filter _).map _)

theorem OneEach.popWhile (h : OneEach r owned) (hages : Ages r r') (p : Deadline ×ₗ Nat → Bool) :
    OneEach r' (owned.popWhile p).2 := h.age hages (List.dropWhile_sublist p)

theorem perm_generations_push (owned : HeapQueue (Deadline ×ₗ Nat)) (e : Deadline) (i j : Nat) :
    (generations (owned.push (toLex (e, i))) j).Perm
      (if i = j then e.gen :: generations owned j else generations owned j) := by
  have hperm := ((HeapQueue.perm_push (toLex (e, i)) owned).filter fun p => owner p = j).map
    fun p => (entry p).gen
  rw [List.filter_cons] at hperm
  by_cases hij : i = j
  · have howner : decide (owner (toLex (e, i)) = j) = true := decide_eq_true hij
    rw [if_pos howner] at hperm
    rw [if_pos hij]
    exact hperm
  · have howner : ¬ decide (owner (toLex (e, i)) = j) = true := fun h => hij (of_decide_eq_true h)
    rw [if_neg howner] at hperm
    rw [if_neg hij]
    exact hperm

/-- An entry of a generation that has none yet is pushed. -/
theorem OneEach.push (h : OneEach r owned) {s : Session} (hs : r.fleet.sessions[i]? = some s) {e : Deadline}
    (hgen : e.gen = s.conn.deadlineGen) (hnew : ∀ p ∈ owned.entries, owner p = i → (entry p).gen < e.gen) :
    OneEach r (owned.push (toLex (e, i))) := by
  refine ⟨h.positive, fun p hp => ?_, fun j => ?_⟩
  · rcases HeapQueue.mem_push.mp hp with rfl | hp
    · exact ⟨hgen ▸ h.positive i s hs, s, hs, hgen.le⟩
    · exact h.known p hp
  · refine (perm_generations_push owned e i j).nodup_iff.mpr ?_
    split
    · next hij =>
      subst hij
      refine List.nodup_cons.mpr ⟨fun hmem => ?_, h.distinct i⟩
      obtain ⟨p, hp, hsame⟩ := List.mem_map.mp hmem
      obtain ⟨hp, howner⟩ := List.mem_filter.mp hp
      exact absurd hsame (hnew p hp (of_decide_eq_true howner)).ne
    · exact h.distinct j

theorem OneEach.note (h : OneEach r owned) (hnew : ∀ s, r.fleet.sessions[i]? = some s → s.conn.state ≠ .done →
      ∀ p ∈ owned.entries, owner p = i → (entry p).gen < s.conn.deadlineGen) :
    OneEach r (note i r owned) := by
  rw [Ledger.note]
  split
  · exact h
  · next e hpushed =>
    unfold pushed at hpushed
    split at hpushed
    · next s handle hs _ =>
      obtain ⟨hlive, heq⟩ := Option.ite_none_left_eq_some.mp hpushed
      obtain rfl := Option.some.inj heq
      exact h.push hs rfl (hnew s hs hlive)
    · cases hpushed

/-- There are no more entries than generations. -/
theorem OneEach.length_le (h : OneEach r owned) {s : Session} (hs : r.fleet.sessions[i]? = some s) :
    (generations owned i).length ≤ s.conn.deadlineGen := by
  have hsub : (generations owned i).toFinset ⊆ Finset.Icc 1 s.conn.deadlineGen := by
    intro gen hgen
    obtain ⟨p, hp, rfl⟩ := List.mem_map.mp (List.mem_toFinset.mp hgen)
    obtain ⟨hp, howner⟩ := List.mem_filter.mp hp
    obtain ⟨hpos, s', hs', hle⟩ := h.known p hp
    rw [of_decide_eq_true howner] at hs'
    obtain rfl := Option.some.inj (hs.symm.trans hs')
    exact Finset.mem_Icc.mpr ⟨hpos, hle⟩
  calc (generations owned i).length = (generations owned i).toFinset.card :=
        (List.toFinset_card_of_nodup (h.distinct i)).symm
    _ ≤ (Finset.Icc 1 s.conn.deadlineGen).card := Finset.card_le_card hsub
    _ = s.conn.deadlineGen := by rw [Nat.card_Icc, Nat.add_sub_cancel]

/-! ### Runs -/

theorem OneEach.accept (h : OneEach r owned) {fd : Nat} {addr : Bytes × Nat} {clock : List Time}
    {connId : Nat} {sel : Selector} :
    OneEach ((registered cfg fd addr clock connId sel r).scheduleDeadline r.fleet.sessions.length)
      (Ledger.note r.fleet.sessions.length
        ((registered cfg fd addr clock connId sel r).scheduleDeadline r.fleet.sessions.length) owned) := by
  have hjoined : OneEach ((registered cfg fd addr clock connId sel r).scheduleDeadline
      r.fleet.sessions.length) owned := by
    refine ⟨fun j s hs => ?_, fun p hp => ?_, h.distinct⟩
    · rw [fleet_scheduleDeadline] at hs
      rcases getElem?_concat_eq_some_iff.mp hs with hs | ⟨-, rfl⟩
      · exact h.positive j s hs
      · exact Nat.one_pos
    · obtain ⟨hpos, s, hs, hle⟩ := h.known p hp
      refine ⟨hpos, s, ?_, hle⟩
      rw [fleet_scheduleDeadline]
      exact getElem?_concat_eq_some_iff.mpr (.inl hs)
  refine hjoined.note fun s _ _ p hp howner => ?_
  obtain ⟨-, s₀, hs₀, -⟩ := h.known p hp
  rw [howner] at hs₀
  exact absurd (List.getElem?_eq_some_iff.mp hs₀).1 (Nat.lt_irrefl _)

theorem OneEach.dispatch (h : OneEach r owned) (hwiring : Wiring False none r) {sock : Sock} {mask : Mask}
    {io : Call → Io} (hrefreshes : DispatchRefreshes r (.dispatch i sock mask io))
    (hstep : r.step cfg (.dispatch i sock mask io) = some r') : OneEach r' (Ledger.note i r' owned) := by
  have hages := ages_dispatch hstep
  refine (h.age hages (List.Sublist.refl _)).note fun s' hs' hlive p hp howner => ?_
  obtain ⟨s, hs, hadvances⟩ := hages.session i s' hs'
  have hlive₀ : s.conn.state ≠ .done := fun hdone => hlive (hadvances.done hdone)
  have hpending := (hwiring.wired i s hs nofun).settled hlive₀
  have hrefreshed : Refreshed s.conn s'.conn :=
    refreshedAt_of_dispatch hs hpending (hrefreshes s hs hlive₀) hstep s' hs'
  obtain ⟨-, s₀, hs₀, hle⟩ := h.known p hp
  rw [howner] at hs₀
  obtain rfl := Option.some.inj (hs.symm.trans hs₀)
  exact hle.trans_lt (hrefreshed.resolve_right hlive)

theorem OneEach.step (h : OneEach l.reactor l.owned) (hwiring : Wiring False none l.reactor) {e : Event}
    (hrefreshes : DispatchRefreshes l.reactor e) (hstep : l.reactor.step cfg e = some r') :
    OneEach r' (follow l.reactor r' l.owned e) := by
  cases e with
  | selectTimeout reading =>
      obtain rfl := Option.some.inj hstep
      have hages : Ages l.reactor (l.reactor.selectTimeout reading).2 := (Ages.refl _).of_sessions rfl
      exact h.popWhile hages _
  | accept fd addr clock connId =>
      obtain ⟨-, sel, -, rfl⟩ := accept_cases hstep
      exact h.accept
  | dispatch i sock mask io => exact h.dispatch hwiring hrefreshes hstep
  | expireTimeouts reading io => exact h.popWhile (ages_expireTimeouts hstep) _
  | reap =>
      obtain rfl := Option.some.inj hstep
      exact h.age (ages_reap l.reactor) (List.Sublist.refl _)
  | mark m =>
      obtain rfl := Option.some.inj hstep
      have hages : Ages l.reactor
          { l.reactor with fleet := { l.reactor.fleet with router := l.reactor.fleet.router.mark m } } :=
        (Ages.refl _).of_sessions rfl
      exact h.age hages (List.Sublist.refl _)

theorem oneEach_init (router : Router) (fd : Nat) :
    OneEach (init router fd).reactor (init router fd).owned where
  positive := by rintro j s ⟨⟩
  known := fun _ hp => absurd hp List.not_mem_nil
  distinct := fun _ => List.nodup_nil

theorem map_step (cfg : Config) (l : Ledger) (e : Event) :
    (l.step cfg e).map Ledger.reactor = l.reactor.step cfg e := by
  rw [step]
  cases l.reactor.step cfg e <;> rfl

/-- **One entry for each generation.** In a run of the event loop in which each dispatch on a connection at
work calls a handler that refreshes its deadline or ends it, the entries in the heap that were pushed for a
connection are of different generations, and are no more than its `deadline_gen`. -/
theorem one_entry_per_generation {router : Router} {fd : Nat} {events : List Event}
    (hguard : Machine.Guarded (Reactor.step cfg) DispatchRefreshes (Reactor.init router fd) events)
    (hrun : Machine.run (Reactor.step cfg) (Reactor.init router fd) events = some r) :
    ∃ l, Machine.run (step cfg) (init router fd) events = some l ∧ l.reactor = r ∧
      l.owned.entries.map entry = r.deadlines.entries ∧
      ∀ (i : Nat) (s : Session), r.fleet.sessions[i]? = some s →
        (generations l.owned i).Nodup ∧ (generations l.owned i).length ≤ s.conn.deadlineGen := by
  have hview := Machine.map_run (map_step cfg) (init router fd) events
  have hlift := Machine.Guarded.of_view (map_step cfg) (t := init router fd) hguard
  obtain ⟨l, hl, rfl⟩ := Option.map_eq_some_iff.mp (hview.trans hrun)
  have hinv : OneEach l.reactor l.owned ∧ Matches l.owned l.reactor ∧ Wiring False none l.reactor ∧
      l.reactor.Bookkept := by
    refine Machine.run_invariant_of_guarded (fun l => OneEach l.reactor l.owned ∧ Matches l.owned l.reactor ∧
      Wiring False none l.reactor ∧ l.reactor.Bookkept) ?_ ?_ hlift hl
    · rintro l e l' ⟨hone, hmatches, hwiring, hbook⟩ hrefreshes hstep
      obtain ⟨r', hr', rfl⟩ := Option.map_eq_some_iff.mp hstep
      exact ⟨hone.step hwiring hrefreshes hr', hmatches.step hr', hwiring.step hbook False.elim hr',
        hbook.step hr'⟩
    · exact ⟨oneEach_init router fd, rfl, .init False router fd, .init router fd⟩
  obtain ⟨hone, hmatches, -⟩ := hinv
  exact ⟨l, hl, rfl, congrArg HeapQueue.entries hmatches, fun i s hs => ⟨hone.distinct i, hone.length_le hs⟩⟩

theorem one_entry_per_generation_partial :
    let events : List Event :=
      [.selectTimeout 0, .accept 7 (PyText.ascii "10.0.0.1", 50000) [] 5,
        .dispatch 0 ⟨1, 7⟩ eventRead fun _ => { Fleet.quiet with recv := .data (PyText.ascii "GET") }]
    ∃ r l, Machine.run (Reactor.step .default) (Reactor.init Fleet.twoBackends 3) events = some r ∧
      Machine.run (step .default) (init Fleet.twoBackends 3) events = some l ∧ l.reactor = r ∧
      l.owned.entries.map entry = r.deadlines.entries ∧
      ∀ (i : Nat) (s : Session), r.fleet.sessions[i]? = some s →
        (generations l.owned i).Nodup ∧ (generations l.owned i).length ≤ s.conn.deadlineGen := by
  intro events
  obtain ⟨r, hrun⟩ : ∃ r, Machine.run (Reactor.step .default) (Reactor.init Fleet.twoBackends 3) events =
      some r := Option.isSome_iff_exists.mp (by decide +kernel)
  have hview : (Machine.run (Reactor.step .default) (Reactor.init Fleet.twoBackends 3) (events.take 2)).bind
      (fun r => r.fleet.sessions[0]?.map fun s => (s.conn.state, s.conn.clientSock)) =
        some (.readingRequest, ⟨1, 7⟩) := by decide +kernel
  have hguard : Machine.Guarded (Reactor.step .default) DispatchRefreshes
      (Reactor.init Fleet.twoBackends 3) events := by
    refine ⟨trivial, fun r₁ h₁ => ⟨trivial, fun r₂ h₂ => ⟨fun s hs _ => ?_, fun _ _ => trivial⟩⟩⟩
    have hrun₂ : Machine.run (Reactor.step .default) (Reactor.init Fleet.twoBackends 3) (events.take 2) =
        some r₂ :=
      Machine.run_cons_eq_some.mpr ⟨r₁, h₁, Machine.run_cons_eq_some.mpr ⟨r₂, h₂, rfl⟩⟩
    rw [hrun₂, Option.bind_some, hs] at hview
    obtain ⟨hstate, hsock⟩ := Prod.mk.inj (Option.some.inj hview)
    refine ⟨(true, .clientReadable), ?_, rfl, hstate, nofun⟩
    rw [branches, hsock]
    exact List.mem_cons_self
  obtain ⟨l, hl⟩ := one_entry_per_generation hguard hrun
  exact ⟨r, l, hrun, hl⟩

/-- One turn of `_loop`. -/
def turn (reading : Time) (events : List Event) : List Event :=
  .selectTimeout reading :: events ++ [.expireTimeouts reading fun _ => Fleet.quiet, .reap]

/-- A request has come, and its backend takes its time to accept. The client sends two more bytes, and as
long as they are not read, the selector reports its socket: twice, here. -/
def unreadBytes : List Event :=
  turn 0 [.accept 7 (PyText.ascii "10.0.0.1", 50000) [] 5] ++
    turn 1 [.dispatch 0 ⟨1, 7⟩ eventRead fun _ =>
      { Fleet.quiet with
        recv := .data (PyText.ascii "GET / HTTP/1.1\r\n\r\n")
        connect := fun _ => .errno 9 115 }] ++
    turn 1 [.dispatch 0 ⟨1, 7⟩ eventRead fun _ => Fleet.quiet] ++
    turn 1 [.dispatch 0 ⟨1, 7⟩ eventRead fun _ => Fleet.quiet]

/-- Three of the four entries are of the third generation. -/
theorem repeated_unreadBytes : ∃ (l : Ledger) (s : Session),
    Machine.run (step .default) (init Fleet.twoBackends 3) unreadBytes = some l ∧
      l.reactor.fleet.sessions[0]? = some s ∧ l.reactor.handles[0]? = some ⟨5, false⟩ ∧
      ¬ (generations l.owned 0).Nodup ∧ s.conn.deadlineGen < (generations l.owned 0).length := by
  obtain ⟨l, hrun, hview⟩ := Option.bind_eq_some_iff.mp (show
    (Machine.run (step .default) (init Fleet.twoBackends 3) unreadBytes).bind
      (fun l => l.reactor.fleet.sessions[0]?.map fun s =>
        (s.conn.deadlineGen, l.reactor.handles[0]?, generations l.owned 0)) =
      some (3, some ⟨5, false⟩, [3, 3, 3, 1]) by decide +kernel)
  obtain ⟨s, hs, hvalues⟩ := Option.map_eq_some_iff.mp hview
  obtain ⟨hgen, hhandle, hgenerations⟩ : s.conn.deadlineGen = 3 ∧
      l.reactor.handles[0]? = some ⟨5, false⟩ ∧ generations l.owned 0 = [3, 3, 3, 1] := by
    simpa only [Prod.mk.injEq] using hvalues
  refine ⟨l, s, hrun, hs, hhandle, ?_, ?_⟩
  · rw [hgenerations]
    decide
  · rw [hgen, hgenerations]
    decide

/-- Any other dispatch on a connection at work pushes an entry that is in the heap already. -/
theorem entry_repeated {router : Router} {fd : Nat} {events : List Event}
    (hrun : Machine.run (Reactor.step cfg) (Reactor.init router fd) events = some r) {s : Session}
    (hs : r.fleet.sessions[i]? = some s) (hlive : s.conn.state ≠ .done) {sock : Sock} {mask : Mask}
    {io : Call → Io}
    (hidle : ∀ b ∈ branches (sock = s.conn.clientSock) (s.conn.backendSock = some sock) mask,
      b.1 = true → ¬ Refreshes (io b.2) s.conn b.2) :
    ∃ e ∈ r.deadlines.entries, ∃ r', r.step cfg (.dispatch i sock mask io) = some r' ∧
      r'.deadlines = r.deadlines.push e := by
  obtain ⟨hbook, hscheduled⟩ := scheduled_of_run hrun
  obtain ⟨cid, hhandle, -, hentry⟩ := hscheduled.entry_mem hbook hs hlive
  have hpending := ((wiring_of_run hrun).wired i s hs nofun).settled hlive
  obtain ⟨r₁, hstep, hdeadlines, hhandles, s₁, hs₁, hconn⟩ := dispatch_idle cfg hs hpending hidle
  have hpushed : pushed r₁ i = some (entryOf s cid) := by
    rw [pushed, hs₁, hhandles, hhandle]
    dsimp only
    rw [hconn, if_neg hlive, entryOf, entryOf, hconn]
  refine ⟨entryOf s cid, hentry, r₁.scheduleDeadline i, hstep, ?_⟩
  rw [deadlines_scheduleDeadline, hpushed, hdeadlines]

end Ledger

end LoadBalancer
