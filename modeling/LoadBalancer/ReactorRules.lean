import LoadBalancer.Reactor

/-! The rule for a dispatch, what a dispatch leaves alone, and that a run of the event loop is a run of
its fleet of connections. -/

namespace LoadBalancer

open Outcome

namespace Reactor

variable {cfg : Config} {i : Nat}

/-! ### The parts of a dispatch -/

/-- `P` is kept by each thing that a dispatch on connection `i` does before it schedules a deadline, and
`exc` follows where something is raised. -/
structure Maintains (cfg : Config) (i : Nat) (P exc : Reactor → Prop) : Prop where
  selector : ∀ r sel, P r → P (r.setSelector sel)
  cleared : ∀ r, P r → P { r with fleet := r.fleet.clearPending i }
  called : ∀ r c io, P r →
    ((r.fleet.call cfg i c io).map fun fleet => { r with fleet := fleet }).Post P exc
  raised : ∀ r, P r → exc r

section Rule

variable {P Q exc : Reactor → Prop} {r : Reactor}

theorem withSelector_post (op : Selector → Attempt) (h : ∀ sel, P (r.setSelector sel))
    (hexc : ∀ sel, exc (r.setSelector sel)) : (r.withSelector op).Post P exc := by
  unfold withSelector
  dsimp only
  split
  · exact h _
  · exact hexc _

theorem Maintains.withSelector (h : Maintains cfg i P exc) (hr : P r) (op : Selector → Attempt) :
    (r.withSelector op).Post P exc :=
  withSelector_post op (fun sel => h.selector r sel hr) fun sel => h.raised _ (h.selector r sel hr)

theorem Maintains.flushPendingUnregister (h : Maintains cfg i P exc) (hr : P r) :
    (r.flushPendingUnregister i).Post P exc := by
  unfold Reactor.flushPendingUnregister
  split
  · exact hr
  · split
    · exact hr
    · refine (h.withSelector hr _).andThen fun r hr => ?_
      exact h.withSelector (h.cleared r hr) _

theorem Maintains.transition (h : Maintains cfg i P exc) (hr : P r) (prevState : State) :
    (r.transition i prevState).Post P exc := by
  refine (h.flushPendingUnregister hr).andThen fun r hr => ?_
  split
  · exact hr
  · split
    · exact hr
    · exact h.withSelector hr _

theorem Maintains.handleEvent (h : Maintains cfg i P exc) (hr : P r) (enabled : Bool) (c : Call)
    (io : Io) : (r.handleEvent cfg i enabled c io).Post P exc := by
  unfold Reactor.handleEvent
  split
  · trivial
  · split
    · exact (h.called r c io hr).andThen fun r hr => h.transition hr _
    · exact hr

theorem Maintains.runBranches (h : Maintains cfg i P exc) (hr : P r) (io : Call → Io)
    (branches : List (Bool × Call)) : (r.runBranches cfg i io branches).Post P exc := by
  induction branches generalizing r with
  | nil => exact hr
  | cons branch rest ih => exact (h.handleEvent hr _ _ _).andThen fun r hr => ih hr

theorem Maintains.dispatch (h : Maintains cfg i P exc) (hr : P r) (sock : Sock) (mask : Mask)
    (io : Call → Io) (hschedule : ∀ r, P r → Q (r.scheduleDeadline i)) :
    (r.dispatch cfg i sock mask io).Post Q exc := by
  unfold Reactor.dispatch
  split
  · trivial
  · exact ((h.runBranches hr io _).andThen fun r hr => h.flushPendingUnregister hr).andThen hschedule

theorem done_of_markDone {s : Session} (hs : (r.markDone i).fleet.sessions[i]? = some s) :
    s.conn.state = .done := by
  rw [Reactor.markDone, Fleet.markDone, List.getElem?_modify_eq] at hs
  obtain ⟨s₀, -, rfl⟩ := Option.map_eq_some_iff.mp hs
  rfl

/-- A dispatch as a step of the loop: what it raises makes the connection `DONE`. -/
theorem of_step_dispatch {r' : Reactor} {sock : Sock} {mask : Mask} {io : Call → Io}
    (hpost : (r.dispatch cfg i sock mask io).Post Q fun r => Q (r.markDone i))
    (hstep : r.step cfg (.dispatch i sock mask io) = some r') : Q r' := by
  rw [step] at hstep
  cases hdispatch : r.dispatch cfg i sock mask io with
  | returned r₁ =>
      rw [hdispatch] at hpost hstep
      exact Option.some.inj hstep ▸ hpost
  | raised r₁ =>
      rw [hdispatch] at hpost hstep
      exact Option.some.inj hstep ▸ hpost
  | hung =>
      rw [hdispatch] at hstep
      cases hstep

end Rule

/-! ### What a dispatch leaves alone -/

/-- Only connection `i` has changed, by `R`, and what the connections share. -/
structure Acts (R : ProxyConnection → ProxyConnection → Prop) (i : Nat) (r r' : Reactor) : Prop where
  serverSock : r'.serverSock = r.serverSock
  connections : r'.connections = r.connections
  deadlines : r'.deadlines = r.deadlines
  connById : r'.connById = r.connById
  handles : r'.handles = r.handles
  timeouts : r'.timeouts = r.timeouts
  length : r'.fleet.sessions.length = r.fleet.sessions.length
  others : ∀ j, i ≠ j → r'.fleet.sessions[j]? = r.fleet.sessions[j]?
  own : ∀ s', r'.fleet.sessions[i]? = some s' →
    ∃ s, r.fleet.sessions[i]? = some s ∧ R s.conn s'.conn

section Acts

variable {R : ProxyConnection → ProxyConnection → Prop} {r₀ r : Reactor}

theorem Acts.refl (hrefl : ∀ c, R c c) (r : Reactor) : Acts R i r r :=
  ⟨rfl, rfl, rfl, rfl, rfl, rfl, rfl, fun _ _ => rfl, fun s' hs' => ⟨s', hs', hrefl _⟩⟩

/-- Connection `i` changes once more. -/
theorem Acts.change (h : Acts R i r₀ r) {fleet : Fleet} {fdToKey : FdToKey}
    (hlength : fleet.sessions.length = r.fleet.sessions.length)
    (hothers : ∀ j, i ≠ j → fleet.sessions[j]? = r.fleet.sessions[j]?)
    (hown : ∀ s', fleet.sessions[i]? = some s' →
      ∃ s, r₀.fleet.sessions[i]? = some s ∧ R s.conn s'.conn) :
    Acts R i r₀ { r with fleet := fleet, fdToKey := fdToKey } where
  serverSock := h.serverSock
  connections := h.connections
  deadlines := h.deadlines
  connById := h.connById
  handles := h.handles
  timeouts := h.timeouts
  length := hlength.trans h.length
  others := fun j hij => (hothers j hij).trans (h.others j hij)
  own := hown

theorem Acts.modify (h : Acts R i r₀ r) {change : Session → Session}
    (hchange : ∀ c s, R c s.conn → R c (change s).conn) :
    Acts R i r₀ { r with fleet := { r.fleet with sessions := r.fleet.sessions.modify i change } } := by
  refine h.change (List.length_modify _ _ _) (fun j hij => ?_) fun s' hs' => ?_
  · simp [hij]
  · rw [List.getElem?_modify_eq] at hs'
    obtain ⟨s, hs, rfl⟩ := Option.map_eq_some_iff.mp hs'
    obtain ⟨s₀, hs₀, hR⟩ := h.own s hs
    exact ⟨s₀, hs₀, hchange _ s hR⟩

theorem Acts.put (h : Acts R i r₀ r) {s₀ : Session} (hs₀ : r₀.fleet.sessions[i]? = some s₀) {f : Frame}
    (hf : R s₀.conn f.conn) : Acts R i r₀ { r with fleet := r.fleet.put i f } := by
  refine h.change List.length_set (fun j hij => List.getElem?_set_ne hij) fun s' hs' => ⟨s₀, hs₀, ?_⟩
  have hlt : i < r.fleet.sessions.length := by
    rw [h.length]
    exact (List.getElem?_eq_some_iff.mp hs₀).1
  rw [Fleet.put, List.getElem?_set_self hlt] at hs'
  obtain rfl := Option.some.inj hs'
  exact hf

/-- Every connection, this one or another, is what it was or has changed by `R`. -/
theorem Acts.session (h : Acts R i r₀ r) (hrefl : ∀ c, R c c) {j : Nat} {s' : Session}
    (hs' : r.fleet.sessions[j]? = some s') :
    ∃ s, r₀.fleet.sessions[j]? = some s ∧ R s.conn s'.conn := by
  by_cases hij : i = j
  · subst hij
    exact h.own s' hs'
  · exact ⟨s', (h.others j hij).symm.trans hs', hrefl _⟩

theorem Acts.session_after (h : Acts R i r₀ r) (hrefl : ∀ c, R c c) {j : Nat} {s : Session}
    (hs : r₀.fleet.sessions[j]? = some s) :
    ∃ s', r.fleet.sessions[j]? = some s' ∧ R s.conn s'.conn := by
  obtain ⟨hlt, -⟩ := List.getElem?_eq_some_iff.mp hs
  rw [← h.length] at hlt
  have hs' := List.getElem?_eq_getElem hlt
  obtain ⟨s₀, hs₀, hR⟩ := h.session hrefl hs'
  obtain rfl := Option.some.inj (hs.symm.trans hs₀)
  exact ⟨_, hs', hR⟩

/-- A relation that the handlers keep is kept by the parts of a dispatch. -/
theorem maintains_acts (hclear : ∀ c c', R c c' → R c { c' with pendingBackendUnregister := none })
    (hcall : ∀ c₀ c f, R c₀ f.conn →
      (handle cfg c f).Post (fun f' => R c₀ f'.conn) fun f' => R c₀ f'.conn) (r₀ : Reactor) :
    Maintains cfg i (Acts R i r₀) (Acts R i r₀) where
  selector := fun r sel h => h.change rfl (fun _ _ => rfl) h.own
  cleared := fun r h => h.modify fun c s => hclear c s.conn
  called := by
    intro r c io h
    unfold Fleet.call
    split
    · trivial
    · next s hs =>
      rw [post_map, post_map]
      obtain ⟨s₀, hs₀, hR⟩ := h.own s hs
      exact (hcall s₀.conn c (r.fleet.frame s io) hR).mono (fun _ hf => h.put hs₀ hf) fun _ hf =>
        h.put hs₀ hf
  raised := fun _ h => h

theorem Acts.markDone (h : Acts R i r₀ r) (hdone : ∀ c c', R c c' → R c { c' with state := .done }) :
    Acts R i r₀ (r.markDone i) :=
  h.modify fun c s => hdone c s.conn

end Acts

/-! ### Accept -/

/-- The state after the registration of a new connection. -/
def registered (cfg : Config) (fd : Nat) (addr : Bytes × Nat) (clock : List Time) (connId : Nat)
    (sel : Selector) (r : Reactor) : Reactor :=
  { r with
    fleet := { r.fleet.accept cfg fd addr clock with os := sel.os }
    fdToKey := sel.fdToKey
    connections := r.connections.set (r.fleet.os.newSock fd).fd r.fleet.sessions.length
    handles := r.handles ++ [⟨connId, false⟩] }

/-- A connection is accepted if its `id()` is not in use and its registration succeeds. -/
theorem accept_cases {r r' : Reactor} {fd : Nat} {addr : Bytes × Nat} {clock : List Time} {connId : Nat}
    (h : r.accept cfg fd addr clock connId = some r') :
    connId ∉ r.aliveIds ∧ ∃ sel : Selector,
      Selector.register (r.fleet.os.newSock fd) eventRead (some r.fleet.sessions.length)
        ⟨r.fleet.os.openSock fd, r.fdToKey⟩ = sel.pass ∧
      r' = (registered cfg fd addr clock connId sel r).scheduleDeadline r.fleet.sessions.length := by
  unfold accept at h
  split at h
  · cases h
  · next hfresh =>
    refine ⟨hfresh, ?_⟩
    dsimp only at h
    split at h
    · next r₁ hregister =>
      unfold withSelector at hregister
      dsimp only at hregister
      split at hregister
      · next hpass =>
        obtain rfl := Outcome.returned.inj hregister
        exact ⟨_, Attempt.eq_pass hpass, (Option.some.inj h).symm⟩
      · cases hregister
    · cases h

/-! ### A run of the event loop is a run of the fleet -/

/-- The connections of `r` are those of `w` after some calls. -/
def Reaches (cfg : Config) (w : Fleet) (r : Reactor) : Prop :=
  ∃ events, Machine.run (Fleet.step cfg) w events = some r.fleet

section Refinement

variable {w : Fleet} {r r' : Reactor}

theorem Reaches.refl (cfg : Config) (r : Reactor) : Reaches cfg r.fleet r := ⟨[], rfl⟩

theorem Reaches.step (h : Reaches cfg w r) (e : Fleet.Event)
    (hstep : Fleet.step cfg r.fleet e = some r'.fleet) : Reaches cfg w r' := by
  obtain ⟨events, hrun⟩ := h
  refine ⟨events ++ [e], ?_⟩
  rw [Machine.run_append, hrun, Option.bind_some]
  exact Machine.run_cons_eq_some.mpr ⟨_, hstep, rfl⟩

theorem Reaches.scheduleDeadline (h : Reaches cfg w r) (i : Nat) :
    Reaches cfg w (r.scheduleDeadline i) := by
  unfold Reactor.scheduleDeadline
  split
  · split
    · exact h
    · exact h
  · exact h

theorem maintains_reaches (cfg : Config) (i : Nat) (w : Fleet) :
    Maintains cfg i (Reaches cfg w) fun r => Reaches cfg w (r.markDone i) where
  selector := fun r sel h => h.step (.sockets sel.os) rfl
  cleared := fun r h => h.step (.unregistered i) rfl
  called := by
    intro r c io h
    cases hcall : r.fleet.call cfg i c io with
    | returned w' => exact h.step (.call i c io) (by simp [Fleet.step, hcall])
    | raised w' => exact h.step (.call i c io) (by simp [Fleet.step, hcall, Reactor.markDone])
    | hung => trivial
  raised := fun r h => h.step (.abort i) rfl

theorem Reaches.dispatch (h : Reaches cfg w r) (sock : Sock) (mask : Mask) (io : Call → Io) :
    (r.dispatch cfg i sock mask io).Post (Reaches cfg w) fun r => Reaches cfg w (r.markDone i) := by
  exact (maintains_reaches cfg i w).dispatch h sock mask io fun r hr => hr.scheduleDeadline i

theorem Reaches.expireEntry (h : Reaches cfg w r) {now : Time} {io : Nat → Io} {e : Deadline}
    (hstep : r.expireEntry cfg now io e = some r') : Reaches cfg w r' := by
  unfold Reactor.expireEntry at hstep
  split at hstep
  · exact Option.some.inj hstep ▸ h
  · next j s _ =>
    obtain ⟨fleet, hcall, rfl⟩ := Option.map_eq_some_iff.mp hstep
    exact h.step _ hcall

theorem Reaches.reapOne (h : Reaches cfg w r) (fd : Nat) : Reaches cfg w (r.reapOne fd) := by
  unfold Reactor.reapOne
  split
  · exact h
  · split
    · exact h.step (.sockets _) rfl
    · exact h

/-- `accept` puts the connection into the fleet and its socket under watch. -/
theorem Reaches.accept (h : Reaches cfg w r) {fd : Nat} {addr : Bytes × Nat} {clock : List Time}
    {connId : Nat} (hstep : r.accept cfg fd addr clock connId = some r') : Reaches cfg w r' := by
  obtain ⟨-, sel, -, rfl⟩ := accept_cases hstep
  have hregistered : Reaches cfg w (registered cfg fd addr clock connId sel r) := by
    have haccepted : Reaches cfg w { r with fleet := r.fleet.accept cfg fd addr clock } :=
      h.step (.accept fd addr clock) rfl
    exact haccepted.step (.sockets sel.os) rfl
  exact hregistered.scheduleDeadline _

theorem foldlM_reaches {entries : List Deadline} {now : Time} {io : Nat → Io} (h : Reaches cfg w r)
    (hstep : entries.foldlM (Reactor.expireEntry cfg now io) r = some r') : Reaches cfg w r' := by
  induction entries generalizing r with
  | nil =>
      rw [List.foldlM_nil] at hstep
      exact Option.some.inj hstep ▸ h
  | cons e rest ih =>
      rw [List.foldlM_cons] at hstep
      obtain ⟨r₁, hfirst, hrest⟩ := Option.bind_eq_some_iff.mp hstep
      exact ih (h.expireEntry hfirst) hrest

theorem step_reaches (h : Reaches cfg w r) {e : Event} (hstep : r.step cfg e = some r') :
    Reaches cfg w r' := by
  cases e with
  | selectTimeout reading =>
      obtain rfl := Option.some.inj hstep
      exact h.step (.tick reading) rfl
  | accept fd addr clock connId => exact h.accept hstep
  | dispatch i sock mask io => exact of_step_dispatch (h.dispatch sock mask io) hstep
  | expireTimeouts reading io =>
      have htick : Reaches cfg w { r with
          fleet := r.fleet.tick reading
          deadlines := (r.deadlines.popWhile fun e => e.deadline ≤ max r.fleet.now reading).2 } :=
        h.step (.tick reading) rfl
      exact foldlM_reaches htick hstep
  | reap =>
      obtain rfl := Option.some.inj hstep
      exact List.foldlRecOn r.deadFds reapOne h fun r hr fd _ => hr.reapOne fd
  | mark m =>
      obtain rfl := Option.some.inj hstep
      exact h.step (.mark m) rfl

/-- **Refinement.** The connections that a run of the event loop leaves are those of a run of the fleet:
what holds of every run of the fleet holds of the event loop. -/
theorem fleet_of_run {router : Router} {fd : Nat} {events : List Event}
    (hrun : Machine.run (step cfg) (init router fd) events = some r) :
    ∃ events', Machine.run (Fleet.step cfg) (Fleet.init router) events' = some r.fleet := by
  have hstart : Machine.run (Fleet.step cfg) (Fleet.init router) [.sockets (init router fd).fleet.os] =
      some (init router fd).fleet := rfl
  obtain ⟨events', hrun'⟩ := Machine.run_simulates Reactor.fleet
    (fun r _ _ hstep => step_reaches (Reaches.refl cfg r) hstep) hrun
  exact ⟨_ ++ events', by rw [Machine.run_append, hstart, Option.bind_some, hrun']⟩

end Refinement

end Reactor

end LoadBalancer
