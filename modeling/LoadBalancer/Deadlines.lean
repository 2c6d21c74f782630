import LoadBalancer.Bookkeeping

/-! Timeouts over whole runs of the event loop. No deadline is missed: every connection at work always has
its entry in the heap. No timeout is premature as long as no new connection is given an `id()` that an
entry in the heap still carries. -/

namespace LoadBalancer

namespace Reactor

variable {cfg : Config} {i : Nat} {r r' : Reactor}

/-! ### Every connection at work has its entry -/

/-- The entry that `_schedule_deadline` pushes for a connection. -/
def entryOf (s : Session) (cid : Nat) : Deadline := ⟨s.conn.deadline, s.conn.deadlineGen, cid⟩

/-- Connection `i` is found by its `id()`, and its entry is among `popped` or in the heap. -/
structure Awaited (popped : List Deadline) (r : Reactor) (i cid : Nat) (s : Session) : Prop where
  byId : r.connById.get? cid = some i
  entry : entryOf s cid ∈ popped ∨ entryOf s cid ∈ r.deadlines.entries

/-- All connections at work are awaited; those named by `except` need not be. -/
def Scheduled (popped : List Deadline) (except : Option Nat) (r : Reactor) : Prop :=
  ∀ (i cid : Nat) (s : Session), r.fleet.sessions[i]? = some s → r.handles[i]? = some ⟨cid, false⟩ →
    s.conn.state ≠ .done → except ≠ some i → Awaited popped r i cid s

theorem Scheduled.acts (h : Scheduled [] none r) (hacts : Acts Advances i r r') :
    Scheduled [] (some i) r' := by
  intro j cid s hs hhandle hdone hne
  have hij : i ≠ j := fun heq => hne (congrArg some heq)
  rw [hacts.others j hij] at hs
  rw [hacts.handles] at hhandle
  obtain ⟨hid, hentry⟩ := h j cid s hs hhandle hdone (by rintro ⟨⟩)
  exact ⟨by rw [hacts.connById, hid], by rw [hacts.deadlines]; exact hentry⟩

theorem Scheduled.scheduleDeadline (h : Scheduled [] (some i) r) (hbook : r.Bookkept) :
    Scheduled [] none (r.scheduleDeadline i) := by
  unfold Reactor.scheduleDeadline
  split
  · next t handle ht hhandle_i =>
    split
    · next hdone_i =>
      intro j cid s hs hhandle hdone _
      refine h j cid s hs hhandle hdone fun heq => ?_
      obtain rfl := Option.some.inj heq
      obtain rfl := Option.some.inj (ht.symm.trans hs)
      exact hdone hdone_i
    · next hdone_i =>
      obtain ⟨cid_i, hhandle_i'⟩ := hbook.handle_of_not_done ht hdone_i
      obtain rfl := Option.some.inj (hhandle_i.symm.trans hhandle_i')
      intro j cid s hs hhandle hdone _
      by_cases hij : i = j
      · subst hij
        obtain rfl := Option.some.inj (ht.symm.trans hs)
        obtain rfl := (Handle.mk.inj (Option.some.inj (hhandle_i.symm.trans hhandle))).1
        exact ⟨Dict.get?_set_self _ _ _, Or.inr (HeapQueue.mem_push.mpr (Or.inl rfl))⟩
      · obtain ⟨hid, hentry⟩ := h j cid s hs hhandle hdone fun heq => hij (Option.some.inj heq)
        have hcid : cid_i ≠ cid := by
          rintro rfl
          exact hij (hbook.distinct i j cid_i hhandle_i' hhandle)
        refine ⟨(Dict.get?_set_of_ne _ _ hcid).trans hid, Or.inr ?_⟩
        exact HeapQueue.mem_push.mpr (Or.inr (hentry.resolve_left (List.not_mem_nil)))
  · next hnone =>
    intro j cid s hs hhandle hdone _
    refine h j cid s hs hhandle hdone fun heq => ?_
    obtain rfl := Option.some.inj heq
    exact hnone s _ hs hhandle

/-- A connection that is given up is not at work. -/
theorem Scheduled.markDone (h : Scheduled [] (some i) r) : Scheduled [] none (r.markDone i) := by
  intro j cid s hs hhandle hdone _
  by_cases hij : i = j
  · subst hij
    exact absurd (done_of_markDone hs) hdone
  · have hother : (r.markDone i).fleet.sessions[j]? = r.fleet.sessions[j]? := by
      simp [Reactor.markDone, Fleet.markDone, hij]
    rw [hother] at hs
    obtain ⟨hid, hentry⟩ := h j cid s hs hhandle hdone fun heq => hij (Option.some.inj heq)
    exact ⟨hid, hentry⟩

theorem Scheduled.registered (h : Scheduled [] none r) (hbook : r.Bookkept) {fd : Nat}
    {addr : Bytes × Nat} {clock : List Time} {connId : Nat} {sel : Selector} :
    Scheduled [] (some r.fleet.sessions.length) (registered cfg fd addr clock connId sel r) := by
  intro j cid s hs hhandle hdone hne
  rcases getElem?_concat_eq_some_iff.mp hs with hs | ⟨rfl, -⟩
  · rcases getElem?_concat_eq_some_iff.mp hhandle with hhandle | ⟨rfl, -⟩
    · obtain ⟨hid, hentry⟩ := h j cid s hs hhandle hdone (by rintro ⟨⟩)
      exact ⟨hid, hentry⟩
    · exact absurd (congrArg some hbook.length.symm) hne
  · exact absurd rfl hne

/-- An entry that is dropped belongs to nobody, and one that is not ends its connection. -/
theorem Scheduled.expireEntry {e : Deadline} {rest : List Deadline} (h : Scheduled (e :: rest) none r)
    {now : Time} {io : Nat → Io} (hstep : r.expireEntry cfg now io e = some r') :
    Scheduled rest none r' := by
  have hpopped : ∀ {j cid : Nat} {s : Session}, Awaited (e :: rest) r j cid s →
      entryOf s cid ≠ e → Awaited rest r j cid s := by
    rintro j cid s ⟨hid, hentry⟩ hne
    exact ⟨hid, hentry.imp_left fun hmem => (List.mem_cons.mp hmem).resolve_left hne⟩
  have hvalid : ∀ {j cid : Nat} {s : Session}, r.fleet.sessions[j]? = some s → s.conn.state ≠ .done →
      Awaited (e :: rest) r j cid s → entryOf s cid = e → r.validEntry? e = some (j, s) := by
    rintro j cid s hs hdone hawaited rfl
    exact validEntry?_eq_some_iff.mpr ⟨hawaited.byId, hs, hdone, rfl⟩
  rcases expireEntry_acts hstep with ⟨hnone, rfl⟩ | ⟨i, t, r₁, hsome, hacts, hended, rfl⟩
  · intro j cid s hs hhandle hdone hne
    have hawaited := h j cid s hs hhandle hdone hne
    refine hpopped hawaited fun heq => ?_
    rw [hvalid hs hdone hawaited heq] at hnone
    cases hnone
  · intro j cid s hs hhandle hdone hne
    by_cases hij : i = j
    · subst hij
      exact absurd (hended s hs) hdone
    · have hs' : r.fleet.sessions[j]? = some s := (hacts.others j hij).symm.trans hs
      have hhandle' : r.handles[j]? = some ⟨cid, false⟩ := hacts.handles ▸ hhandle
      have hawaited := h j cid s hs' hhandle' hdone hne
      have hother := hpopped hawaited fun heq => by
        have hsame := (hvalid hs' hdone hawaited heq).symm.trans hsome
        exact hij (Prod.mk.inj (Option.some.inj hsame)).1.symm
      refine ⟨?_, ?_⟩
      · rw [← hother.byId]
        exact congrArg (Dict.get? · cid) hacts.connById
      · rw [show ({ r₁ with timeouts := _ } : Reactor).deadlines = r.deadlines from hacts.deadlines]
        exact hother.entry

/-- The removal of a connection takes away no other connection's `id()`. -/
theorem Scheduled.reapOne (h : Scheduled [] none r) (hbook : r.Bookkept) {fd : Nat} :
    Scheduled [] none (r.reapOne fd) := by
  unfold Reactor.reapOne
  split
  · exact h
  · next i hi =>
    split
    · next t handle ht hhandle_i =>
      obtain ⟨t', cid_i, -, hhandle_i', -⟩ := hbook.listed fd i hi
      obtain rfl := Option.some.inj (hhandle_i.symm.trans hhandle_i')
      intro j cid s hs hhandle hdone hne
      by_cases hij : i = j
      · subst hij
        rw [List.getElem?_set_self (List.getElem?_eq_some_iff.mp hhandle_i).1] at hhandle
        cases hhandle
      · rw [List.getElem?_set_ne hij] at hhandle
        obtain ⟨hid, hentry⟩ := h j cid s hs hhandle hdone hne
        have hcid : cid_i ≠ cid := by
          rintro rfl
          exact hij (hbook.distinct i j cid_i hhandle_i' hhandle)
        exact ⟨by rw [Dict.get?_pop, if_neg hcid, hid], hentry⟩
    · exact h

theorem mem_selectTimeout (reading : Time) {e : Deadline} (he : e ∈ r.deadlines.entries)
    (hvalid : r.validEntry? e ≠ none) : e ∈ (r.selectTimeout reading).2.deadlines.entries := by
  refine (HeapQueue.mem_popWhile.mp he).resolve_left fun hpopped => hvalid ?_
  have hnone := HeapQueue.of_mem_popWhile hpopped
  exact Option.isNone_iff_eq_none.mp hnone

theorem Scheduled.selectTimeout (h : Scheduled [] none r) (reading : Time) :
    Scheduled [] none (r.selectTimeout reading).2 := by
  intro j cid s hs hhandle hdone hne
  obtain ⟨hid, hentry⟩ := h j cid s hs hhandle hdone hne
  have hvalid : r.validEntry? (entryOf s cid) = some (j, s) :=
    validEntry?_eq_some_iff.mpr ⟨hid, hs, hdone, rfl⟩
  refine ⟨hid, Or.inr (mem_selectTimeout reading (hentry.resolve_left List.not_mem_nil) ?_)⟩
  rw [hvalid]
  exact Option.some_ne_none _

theorem Scheduled.expireTimeouts (h : Scheduled [] none r) {reading : Time} {io : Nat → Io}
    (hstep : r.expireTimeouts cfg reading io = some r') :
    Scheduled [] none r' ∧
      ∀ e ∈ r'.deadlines.entries, max r.fleet.now reading < e.deadline := by
  refine expireTimeouts_induction (P := fun popped r₁ => Scheduled popped none r₁ ∧
    ∀ e ∈ r₁.deadlines.entries, max r.fleet.now reading < e.deadline) hstep ⟨?_, ?_⟩ ?_
  · intro j cid s hs hhandle hdone hne
    obtain ⟨hid, hentry⟩ := h j cid s hs hhandle hdone hne
    exact ⟨hid, HeapQueue.mem_popWhile.mp (hentry.resolve_left List.not_mem_nil)⟩
  · intro e he
    have hlate := HeapQueue.not_of_mem_popWhile (fun e e' hle hdue => ?_) he
    · exact not_le.mp fun hle => hlate (decide_eq_true hle)
    · exact decide_eq_true ((Deadline.deadline_le hle).trans (of_decide_eq_true hdue))
  · rintro e rest r₁ r₂ ⟨h₁, hlate⟩ _ hentry
    refine ⟨h₁.expireEntry hentry, ?_⟩
    rcases expireEntry_acts hentry with ⟨-, rfl⟩ | ⟨i, t, r₃, -, hacts, -, rfl⟩
    · exact hlate
    · intro e' he'
      have hsame : r₃.deadlines = r₁.deadlines := hacts.deadlines
      exact hlate e' (hsame ▸ he')

theorem Scheduled.step (h : Scheduled [] none r) (hbook : r.Bookkept) {e : Event}
    (hstep : r.step cfg e = some r') : Scheduled [] none r' := by
  cases e with
  | selectTimeout reading =>
      obtain rfl := Option.some.inj hstep
      exact h.selectTimeout reading
  | accept fd addr clock connId =>
      obtain ⟨hfresh, sel, -, rfl⟩ := accept_cases hstep
      exact (h.registered hbook).scheduleDeadline (hbook.registered hfresh)
  | dispatch i sock mask io =>
      obtain ⟨r₁, hacts, rfl | rfl⟩ := dispatch_cases hstep
      · exact (h.acts hacts).scheduleDeadline (hbook.acts hacts)
      · exact (h.acts hacts).markDone
  | expireTimeouts reading io => exact (h.expireTimeouts hstep).1
  | reap =>
      obtain rfl := Option.some.inj hstep
      have hboth : r.reap.Bookkept ∧ Scheduled [] none r.reap :=
        reap_induction (P := fun r => r.Bookkept ∧ Scheduled [] none r) ⟨hbook, h⟩
          fun r fd hr hdead => ⟨hr.1.reapOne hdead, hr.2.reapOne hr.1⟩
      exact hboth.2
  | mark m =>
      obtain rfl := Option.some.inj hstep
      intro j cid s hs hhandle hdone hne
      obtain ⟨hid, hentry⟩ := h j cid s hs hhandle hdone hne
      exact ⟨hid, hentry⟩

theorem scheduled_of_run {router : Router} {fd : Nat} {events : List Event}
    (hrun : Machine.run (step cfg) (init router fd) events = some r) :
    r.Bookkept ∧ Scheduled [] none r :=
  Machine.run_invariant (fun r => r.Bookkept ∧ Scheduled [] none r)
    (fun _ _ _ h hstep => ⟨h.1.step hstep, h.2.step h.1 hstep⟩)
    ⟨Bookkept.init router fd, by rintro i cid s ⟨⟩⟩ hrun

/-- The wait that `_select_timeout` allows ends before any valid entry is overdue. -/
theorem selectTimeout_le (reading : Time) {e : Deadline} (he : e ∈ r.deadlines.entries)
    (hvalid : r.validEntry? e ≠ none) :
    (r.selectTimeout reading).1 ≤ max 0 (e.deadline - max r.fleet.now reading) := by
  have hmem := mem_selectTimeout reading he hvalid
  cases hpeek : (r.selectTimeout reading).2.deadlines.peek with
  | none =>
      rw [HeapQueue.peek_eq_none hpeek] at hmem
      exact absurd hmem List.not_mem_nil
  | some least =>
      have hle : least.deadline ≤ e.deadline := Deadline.deadline_le (HeapQueue.peek_le hpeek hmem)
      have htimeout : (r.selectTimeout reading).1 =
          min 1 (max 0 (least.deadline - max r.fleet.now reading)) := by
        simp only [Reactor.selectTimeout] at hpeek ⊢
        rw [hpeek]
      calc (r.selectTimeout reading).1
          = min 1 (max 0 (least.deadline - max r.fleet.now reading)) := htimeout
        _ ≤ max 0 (least.deadline - max r.fleet.now reading) := min_le_right _ _
        _ ≤ max 0 (e.deadline - max r.fleet.now reading) :=
            max_le_max le_rfl (sub_le_sub_right hle _)

theorem Scheduled.entry_mem (h : Scheduled [] none r) (hbook : r.Bookkept) {s : Session}
    (hs : r.fleet.sessions[i]? = some s) (hdone : s.conn.state ≠ .done) :
    ∃ cid, r.handles[i]? = some ⟨cid, false⟩ ∧ r.connById.get? cid = some i ∧
      entryOf s cid ∈ r.deadlines.entries := by
  obtain ⟨cid, hhandle⟩ := hbook.handle_of_not_done hs hdone
  obtain ⟨hid, hentry⟩ := h i cid s hs hhandle hdone (by rintro ⟨⟩)
  exact ⟨cid, hhandle, hid, hentry.resolve_left List.not_mem_nil⟩

/-- **No missed deadline.** In every state of the event loop each connection that is not `DONE` is not
reaped either, `_conn_by_id` maps its `id()` to it and `_deadlines` has the entry of its current
deadline; `_select_timeout` returns no more than the time left to any of their deadlines, and after
`_expire_timeouts` none of their deadlines has passed. -/
theorem no_missed_deadline (cfg : Config) (router : Router) (fd : Nat) {events : List Event}
    {r : Reactor}
    (hrun : Machine.run (step cfg) (init router fd) events = some r) :
    (∀ (i : Nat) (s : Session), r.fleet.sessions[i]? = some s → s.conn.state ≠ .done →
      ∃ cid, r.handles[i]? = some ⟨cid, false⟩ ∧ r.connById.get? cid = some i ∧
        ⟨s.conn.deadline, s.conn.deadlineGen, cid⟩ ∈ r.deadlines.entries) ∧
    (∀ reading, ∀ s ∈ r.fleet.sessions, s.conn.state ≠ .done →
      (r.selectTimeout reading).1 ≤ max 0 (s.conn.deadline - max r.fleet.now reading)) ∧
    ∀ reading io r', r.expireTimeouts cfg reading io = some r' →
      ∀ s ∈ r'.fleet.sessions, s.conn.state ≠ .done → max r.fleet.now reading < s.conn.deadline := by
  obtain ⟨hbook, hscheduled⟩ := scheduled_of_run hrun
  refine ⟨fun i s hs hdone => hscheduled.entry_mem hbook hs hdone, ?_, ?_⟩
  · intro reading s hs hdone
    obtain ⟨i, hi⟩ := List.mem_iff_getElem?.mp hs
    obtain ⟨cid, -, hid, hentry⟩ := hscheduled.entry_mem hbook hi hdone
    have hvalid : r.validEntry? (entryOf s cid) ≠ none := by
      rw [validEntry?_eq_some_iff.mpr ⟨hid, hi, hdone, rfl⟩]
      exact Option.some_ne_none _
    have hle := selectTimeout_le reading hentry hvalid
    have hdeadline : (entryOf s cid).deadline = s.conn.deadline := rfl
    rwa [hdeadline] at hle
  · intro reading io r' hexpire s hs hdone
    obtain ⟨i, hi⟩ := List.mem_iff_getElem?.mp hs
    have hbook' : r'.Bookkept := hbook.step (e := .expireTimeouts reading io) hexpire
    obtain ⟨hscheduled', hlate⟩ := hscheduled.expireTimeouts hexpire
    obtain ⟨cid, -, -, hentry⟩ := hscheduled'.entry_mem hbook' hi hdone
    exact hlate _ hentry

theorem no_missed_deadline_oneRequest : ∃ r,
    Machine.run (step .default) (init (.leastConnections (.init [Fleet.localBackend])) 3)
      (oneRequest.take 5) = some r ∧
    (∀ (i : Nat) (s : Session), r.fleet.sessions[i]? = some s → s.conn.state ≠ .done →
      ∃ cid, r.handles[i]? = some ⟨cid, false⟩ ∧ r.connById.get? cid = some i ∧
        ⟨s.conn.deadline, s.conn.deadlineGen, cid⟩ ∈ r.deadlines.entries) ∧
    (∀ reading, ∀ s ∈ r.fleet.sessions, s.conn.state ≠ .done →
      (r.selectTimeout reading).1 ≤ max 0 (s.conn.deadline - max r.fleet.now reading)) ∧
    ∀ reading io r', r.expireTimeouts .default reading io = some r' →
      ∀ s ∈ r'.fleet.sessions, s.conn.state ≠ .done → max r.fleet.now reading < s.conn.deadline := by
  obtain ⟨r, hrun⟩ : ∃ r, Machine.run (step .default)
      (init (.leastConnections (.init [Fleet.localBackend])) 3) (oneRequest.take 5) = some r :=
    Option.isSome_iff_exists.mp (by decide +kernel)
  exact ⟨r, hrun, no_missed_deadline .default _ 3 hrun⟩

/-! ### No premature timeout -/

/-- What an entry says of each connection at large that has its `id()`: the generation was one of this
connection, and the deadline is the one it set then. -/
def Truthful (r : Reactor) (e : Deadline) : Prop :=
  ∀ (i : Nat) (s : Session), r.fleet.sessions[i]? = some s →
    r.handles[i]? = some ⟨e.connId, false⟩ →
    e.gen ≤ s.conn.deadlineGen ∧ (e.gen = s.conn.deadlineGen → e.deadline = s.conn.deadline)

/-- Every entry is truthful, and every timeout so far was due. -/
structure OnTime (popped : List Deadline) (r : Reactor) : Prop where
  truthful : ∀ e, e ∈ popped ∨ e ∈ r.deadlines.entries → r.Truthful e
  due : ∀ t ∈ r.timeouts, t.2 ≤ t.1

theorem Truthful.acts {e : Deadline} (h : r.Truthful e) (hacts : Acts Advances i r r') :
    r'.Truthful e := by
  intro j s' hs' hhandle
  rw [hacts.handles] at hhandle
  obtain ⟨s, hs, hadvances⟩ := hacts.session Advances.refl hs'
  obtain ⟨hle, hsame⟩ := h j s hs hhandle
  refine ⟨hle.trans hadvances.gen_le, fun hgen => ?_⟩
  have hkept : s'.conn.deadlineGen = s.conn.deadlineGen :=
    le_antisymm (hgen ▸ hle) hadvances.gen_le
  rw [hadvances.deadline hkept]
  exact hsame (hgen.trans hkept)

variable {popped : List Deadline}

theorem OnTime.acts (h : OnTime popped r) (hacts : Acts Advances i r r') : OnTime popped r' where
  truthful := fun e he => (h.truthful e (by rwa [hacts.deadlines] at he)).acts hacts
  due := by
    rw [hacts.timeouts]
    exact h.due

theorem OnTime.scheduleDeadline (h : OnTime [] r) (hbook : r.Bookkept) (i : Nat) :
    OnTime [] (r.scheduleDeadline i) := by
  unfold Reactor.scheduleDeadline
  split
  · next t handle ht hhandle_i =>
    split
    · exact h
    · next hdone =>
      obtain ⟨cid, hhandle_i'⟩ := hbook.handle_of_not_done ht hdone
      obtain rfl := Option.some.inj (hhandle_i.symm.trans hhandle_i')
      refine ⟨fun e he j s hs hhandle => ?_, h.due⟩
      rcases HeapQueue.mem_push.mp (he.resolve_left List.not_mem_nil) with rfl | he
      · obtain rfl := hbook.distinct i j cid hhandle_i' hhandle
        obtain rfl := Option.some.inj (ht.symm.trans hs)
        exact ⟨le_rfl, fun _ => rfl⟩
      · exact h.truthful e (Or.inr he) j s hs hhandle
  · exact h

/-- The new connection's `id()` is in no entry. -/
theorem OnTime.registered (h : OnTime [] r) (hbook : r.Bookkept) {fd : Nat} {addr : Bytes × Nat}
    {clock : List Time} {connId : Nat} {sel : Selector}
    (hfresh : ∀ e ∈ r.deadlines.entries, e.connId ≠ connId) :
    OnTime [] (registered cfg fd addr clock connId sel r) := by
  refine ⟨fun e he j s hs hhandle => ?_, h.due⟩
  rcases getElem?_concat_eq_some_iff.mp hhandle with hhandle | ⟨-, hnew⟩
  · rcases getElem?_concat_eq_some_iff.mp hs with hs | ⟨rfl, -⟩
    · exact h.truthful e he j s hs hhandle
    · obtain ⟨hlt, -⟩ := List.getElem?_eq_some_iff.mp hhandle
      exact absurd hlt (by rw [hbook.length]; exact Nat.lt_irrefl _)
  · exact absurd (Handle.mk.inj hnew).1.symm (hfresh e (he.resolve_left List.not_mem_nil))

theorem OnTime.expireEntry {e : Deadline} (h : OnTime (e :: popped) r) (hbook : r.Bookkept) {now : Time}
    (hdue : e.deadline ≤ now) {io : Nat → Io} (hstep : r.expireEntry cfg now io e = some r') :
    OnTime popped r' := by
  have hrest : OnTime popped r :=
    ⟨fun e' he' => h.truthful e' (he'.imp_left (List.mem_cons_of_mem e)), h.due⟩
  rcases expireEntry_acts hstep with ⟨-, rfl⟩ | ⟨i, s, r₁, hvalid, hacts, -, rfl⟩
  · exact hrest
  · obtain ⟨hid, hs, -, hgen⟩ := validEntry?_eq_some_iff.mp hvalid
    obtain ⟨-, hdeadline⟩ := h.truthful e (Or.inl List.mem_cons_self) i s hs (hbook.byId _ i hid)
    refine ⟨fun e' he' => (hrest.acts hacts).truthful e' he', fun t ht => ?_⟩
    rcases List.mem_append.mp ht with ht | ht
    · exact h.due t ht
    · obtain rfl := List.mem_singleton.mp ht
      exact (hdeadline hgen).symm.trans_le hdue

theorem OnTime.reapOne (h : OnTime [] r) (fd : Nat) : OnTime [] (r.reapOne fd) := by
  unfold Reactor.reapOne
  split
  · exact h
  · next i _ =>
    split
    · next t handle ht hhandle_i =>
      refine ⟨fun e he j s hs hhandle => ?_, h.due⟩
      by_cases hij : i = j
      · subst hij
        rw [List.getElem?_set_self (List.getElem?_eq_some_iff.mp hhandle_i).1] at hhandle
        exact Bool.noConfusion (Handle.mk.inj (Option.some.inj hhandle)).2
      · rw [List.getElem?_set_ne hij] at hhandle
        exact h.truthful e he j s hs hhandle
    · exact h

/-- No new connection is given an `id()` that an entry in the heap carries. -/
def FreshIds (r : Reactor) : Event → Prop
  | .accept _ _ _ connId => ∀ e ∈ r.deadlines.entries, e.connId ≠ connId
  | _ => True

instance (r : Reactor) : (e : Event) → Decidable (FreshIds r e)
  | .accept _ _ _ connId => inferInstanceAs (Decidable (∀ e ∈ r.deadlines.entries, e.connId ≠ connId))
  | .selectTimeout _ | .dispatch .. | .expireTimeouts .. | .reap | .mark _ => .isTrue trivial

theorem OnTime.init (router : Router) (fd : Nat) : OnTime [] (Reactor.init router fd) := by
  refine ⟨fun e he => ?_, by rintro t ⟨⟩⟩
  rcases he with he | he
  · exact absurd he List.not_mem_nil
  · exact absurd he List.not_mem_nil

theorem OnTime.step (h : OnTime [] r) (hbook : r.Bookkept) {e : Event} (hfresh : FreshIds r e)
    (hstep : r.step cfg e = some r') : OnTime [] r' := by
  cases e with
  | selectTimeout reading =>
      obtain rfl := Option.some.inj hstep
      refine ⟨fun e he => h.truthful e (Or.inr ?_), h.due⟩
      exact HeapQueue.mem_popWhile.mpr (Or.inr (he.resolve_left List.not_mem_nil))
  | accept fd addr clock connId =>
      obtain ⟨hunused, sel, -, rfl⟩ := accept_cases hstep
      exact (h.registered hbook hfresh).scheduleDeadline (hbook.registered hunused) _
  | dispatch i sock mask io =>
      obtain ⟨r₁, hacts, rfl | rfl⟩ := dispatch_cases hstep
      · exact (h.acts hacts).scheduleDeadline (hbook.acts hacts) i
      · exact h.acts (markDone_acts i hacts)
  | expireTimeouts reading io =>
      have hboth : r'.Bookkept ∧ OnTime [] r' := by
        refine expireTimeouts_induction (P := fun popped r => r.Bookkept ∧ OnTime popped r) hstep
          ⟨?_, ?_⟩ ?_
        · exact ⟨hbook.length, hbook.distinct, hbook.reaped, hbook.listed, hbook.byId⟩
        · refine ⟨fun e he => h.truthful e (Or.inr ?_), h.due⟩
          exact HeapQueue.mem_popWhile.mpr he
        · rintro e rest r₁ r₂ ⟨hbook₁, h₁⟩ hdue hentry
          exact ⟨hbook₁.expireEntry hentry, h₁.expireEntry hbook₁ hdue hentry⟩
      exact hboth.2
  | reap =>
      obtain rfl := Option.some.inj hstep
      exact reap_induction h fun r fd hr _ => hr.reapOne fd
  | mark m =>
      obtain rfl := Option.some.inj hstep
      exact ⟨h.truthful, h.due⟩

/-- **No premature timeout.** In a run in which no new connection is given an `id()` that an entry of
`_deadlines` still carries, every call of `handle_timeout` comes at or after the deadline that its
connection has at that moment. -/
theorem no_premature_timeout (cfg : Config) (router : Router) (fd : Nat) {events : List Event}
    {r : Reactor} (hfresh : Machine.Guarded (step cfg) FreshIds (init router fd) events)
    (hrun : Machine.run (step cfg) (init router fd) events = some r) :
    ∀ t ∈ r.timeouts, t.2 ≤ t.1 := by
  have hboth : r.Bookkept ∧ OnTime [] r :=
    Machine.run_invariant_of_guarded (fun r => r.Bookkept ∧ OnTime [] r)
      (fun _ _ _ h hg hstep => ⟨h.1.step hstep, h.2.step h.1 hg hstep⟩)
      ⟨Bookkept.init router fd, OnTime.init router fd⟩ hfresh hrun
  exact hboth.2.due

/-- The first of two connections times out and is reaped. A third one gets its `id()`, of which the heap
has no entry left, and waits with the second until both time out. -/
def idFreed : List Event :=
  [.selectTimeout 0,
    .accept 7 (PyText.ascii "10.0.0.1", 50000) [0] 5, .accept 8 (PyText.ascii "10.0.0.2", 50000) [10] 6,
    .expireTimeouts 31 fun _ => Fleet.quiet, .reap,
    .selectTimeout 32,
    .accept 9 (PyText.ascii "10.0.0.3", 50000) [32] 5, .expireTimeouts 63 fun _ => Fleet.quiet, .reap]

theorem no_premature_timeout_idFreed : ∃ r,
    Machine.run (step .default) (init (.leastConnections (.init [Fleet.localBackend])) 3) idFreed =
      some r ∧ ∀ t ∈ r.timeouts, t.2 ≤ t.1 := by
  have hview : (Machine.run (step .default) (init (.leastConnections (.init [Fleet.localBackend])) 3)
      idFreed).map timeouts = some [(31, 30), (63, 40), (63, 62)] := by decide +kernel
  obtain ⟨r, hrun, -⟩ := Option.map_eq_some_iff.mp hview
  exact ⟨r, hrun, no_premature_timeout .default _ 3 (by decide +kernel) hrun⟩

/-- A connection waits from time 0. Two come at time 1; the first of them is closed and reaped at time 3,
and leaves an entry behind that of the waiting one; the other sends part of a request. A fourth
connection, at time 10, gets the `id()` of the reaped one: it times out at time 31, with its deadline
at 40. -/
def idReuse : List Event :=
  [.selectTimeout 0,
    .accept 7 (PyText.ascii "10.0.0.1", 50000) [0] 5, .expireTimeouts 0 fun _ => Fleet.quiet, .reap,
    .selectTimeout 0,
    .accept 8 (PyText.ascii "10.0.0.2", 50000) [1] 6, .accept 9 (PyText.ascii "10.0.0.3", 50000) [1] 7,
    .expireTimeouts 1 fun _ => Fleet.quiet, .reap,
    .selectTimeout 2,
    .dispatch 1 ⟨2, 8⟩ eventRead fun _ => { Fleet.quiet with recv := .data [] },
    .expireTimeouts 3 fun _ => Fleet.quiet, .reap,
    .selectTimeout 3,
    .dispatch 2 ⟨3, 9⟩ eventRead fun _ =>
      { Fleet.quiet with recv := .data (PyText.ascii "GET"), clock := [4] },
    .expireTimeouts 4 fun _ => Fleet.quiet, .reap,
    .selectTimeout 4,
    .accept 8 (PyText.ascii "10.0.0.4", 50000) [10] 6, .expireTimeouts 11 fun _ => Fleet.quiet, .reap,
    .selectTimeout 29, .expireTimeouts 31 fun _ => Fleet.quiet]

theorem premature_on_idReuse : ∃ r,
    Machine.run (step .default) (init (.leastConnections (.init [Fleet.localBackend])) 3) idReuse =
      some r ∧ ∃ t ∈ r.timeouts, t.1 < t.2 := by
  have hview : (Machine.run (step .default) (init (.leastConnections (.init [Fleet.localBackend])) 3)
      idReuse).map timeouts = some [(31, 30), (31, 40)] := by decide +kernel
  obtain ⟨r, hrun, htimeouts⟩ := Option.map_eq_some_iff.mp hview
  refine ⟨r, hrun, (31, 40), ?_, by decide⟩
  rw [htimeouts]
  exact List.mem_cons_of_mem _ List.mem_cons_self

end Reactor

end LoadBalancer
