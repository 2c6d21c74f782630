import LoadBalancer.BackendSocks
import LoadBalancer.ReactorRules

/-! What the selector has registered for a connection, and what `_transition` makes of it. Each connection
owns its sockets alone, so the operations on those of one leave the keys of all others as they are. A
parameter `clean` marks what holds as long as no failed backend socket stays behind; the rest holds
always. -/

namespace LoadBalancer

open Selector

/-- The sockets that the reactor unregisters for a connection at some time. -/
def ProxyConnection.Owns (c : ProxyConnection) (s : Sock) : Prop :=
  c.clientSock = s ∨ c.backendSock = some s ∨ c.pendingBackendUnregister = some s

namespace Reactor

/-- What the client socket is registered for. -/
def clientMask : State → Mask
  | .forwardingResponse => eventWrite
  | _ => eventRead

/-- What the backend socket is to be registered for. -/
def backendMask : State → Option Mask
  | .connectingToBackend | .forwardingRequest => some eventWrite
  | .readingResponse => some eventRead
  | _ => none

/-- The keys of connection `i` between two dispatches. -/
structure ConnWired (clean : Prop) (sel : Selector) (i : Nat) (c : ProxyConnection) : Prop where
  client : c.state ≠ .done →
    c.clientSock ∈ sel.os.opened ∧ sel.Has c.clientSock (clientMask c.state) (some i)
  settled : c.state ≠ .done → c.pendingBackendUnregister = none
  flushed : clean → ∀ s, c.pendingBackendUnregister = some s → ¬ sel.Registered s
  live : c.state ≠ .done → ∀ s, c.backendSock = some s → s ∈ sel.os.opened
  idle : c.state = .readingRequest → c.backendSock = none
  watched : clean → ∀ mask, backendMask c.state = some mask →
    ∃ s, c.backendSock = some s ∧ sel.Has s mask (some i)
  released : c.state = .forwardingResponse → ∀ s, c.backendSock = some s → ¬ sel.Registered s

/-- What a handler call leaves behind for `_transition` when it returns: the sockets it found, as they
were registered in `prev`, or a new backend socket, or a connection that is `DONE`. -/
structure Ready (clean : Prop) (sel : Selector) (i : Nat) (prev : State) (c : ProxyConnection) : Prop where
  apart : c.backendSock ≠ some c.clientSock
  pendingApart : c.pendingBackendUnregister ≠ some c.clientSock
  client : c.state ≠ .done → c.clientSock ∈ sel.os.opened ∧ sel.Has c.clientSock (clientMask prev) (some i)
  live : c.state ≠ .done → ∀ s, c.backendSock = some s → s ∈ sel.os.opened
  backend :
    (c.pendingBackendUnregister = none ∧ Moves prev c.state ∧
      (prev = .readingRequest → c.backendSock = none) ∧
      (clean → ∀ mask, backendMask prev = some mask →
        ∃ s, c.backendSock = some s ∧ sel.Has s mask (some i)) ∧
      (prev = .forwardingResponse → ∀ s, c.backendSock = some s → ¬ sel.Registered s)) ∨
    (prev ≠ .forwardingResponse ∧ (c.state = .connectingToBackend ∨ c.state = .forwardingRequest) ∧
      (∃ s, c.backendSock = some s ∧ ¬ sel.Registered s) ∧
      (clean → c.pendingBackendUnregister = none → c.state ≠ prev)) ∨
    c.state = .done

theorem ne_done_of_mask {state : State} {mask : Mask} (h : backendMask state = some mask) : state ≠ .done := by
  rintro rfl
  cases h

/-- All registered sockets are open, except one that `except` may name. -/
def Live (sel : Selector) (except : Option Sock) : Prop :=
  ∀ s, sel.Registered s → s ∈ sel.os.opened ∨ except = some s

section Frame

variable {clean : Prop} {S : Sock → Prop} {data : Option Nat} {sel sel' : Selector} {j : Nat}
  {c : ProxyConnection}

/-- Operations on sockets that the connection does not own leave its keys alone. -/
theorem ConnWired.touches (h : ConnWired clean sel j c) (htouches : Touches S data sel sel')
    (hS : ∀ s, S s → ¬ c.Owns s) : ConnWired clean sel' j c where
  client := by
    intro hdone
    obtain ⟨hopen, hhas⟩ := h.client hdone
    refine ⟨htouches.opened ▸ hopen, htouches.kept _ _ _ hhas hopen fun hs => ?_⟩
    exact hS _ hs (Or.inl rfl)
  settled := h.settled
  flushed := by
    intro hclean s hs hregistered
    rcases htouches.origin s hregistered with hregistered | ⟨hs', -⟩
    · exact h.flushed hclean s hs hregistered
    · exact hS s hs' (Or.inr (Or.inr hs))
  live := fun hdone s hs => htouches.opened ▸ h.live hdone s hs
  idle := h.idle
  watched := by
    intro hclean mask hmask
    obtain ⟨s, hs, hhas⟩ := h.watched hclean mask hmask
    refine ⟨s, hs, htouches.kept _ _ _ hhas (h.live (ne_done_of_mask hmask) s hs) fun hs' => ?_⟩
    exact hS s hs' (Or.inr (Or.inl hs))
  released := by
    intro hstate s hs hregistered
    rcases htouches.origin s hregistered with hregistered | ⟨hs', -⟩
    · exact h.released hstate s hs hregistered
    · exact hS s hs' (Or.inr (Or.inl hs))

/-- So does a call that closes none of its sockets. -/
theorem ConnWired.evolves {os os' : Os} {m : FdToKey} {mine : Sock → Prop}
    (h : ConnWired clean ⟨os, m⟩ j c) (hos : os.Evolves mine os') (hmine : ∀ s, mine s → ¬ c.Owns s) :
    ConnWired clean ⟨os', m⟩ j c where
  client := by
    intro hdone
    obtain ⟨hopen, hhas⟩ := h.client hdone
    exact ⟨hos.kept _ hopen fun hs => hmine _ hs (Or.inl rfl), hhas⟩
  settled := h.settled
  flushed := h.flushed
  live := fun hdone s hs =>
    hos.kept s (h.live hdone s hs) fun hs' => hmine s hs' (Or.inr (Or.inl hs))
  idle := h.idle
  watched := h.watched
  released := h.released

theorem Live.touches (h : Live sel none) (htouches : Touches S data sel sel') : Live sel' none := by
  intro s hs
  rcases htouches.origin s hs with hs | ⟨-, hopen⟩
  · refine Or.inl (htouches.opened ▸ (h s hs).resolve_right ?_)
    exact nofun
  · exact Or.inl (htouches.opened ▸ hopen)

theorem Live.opened (h : Live sel none) {s : Sock} (hs : sel.Registered s) : s ∈ sel.os.opened :=
  (h s hs).resolve_right nofun

end Frame

/-! ### The operations of a transition -/

/-- `_flush_pending_unregister`, as an operation on the selector. -/
def flush (i : Nat) (c : ProxyConnection) (sel : Selector) : Attempt :=
  match c.pendingBackendUnregister with
  | none => sel.pass
  | some old => ((sel.unregister old).except Selector.pass).andThen (watchNewBackend i c)

/-- `_transition`, as an operation on the selector. -/
def settle (i : Nat) (prev : State) (c : ProxyConnection) (sel : Selector) : Attempt :=
  (flush i c sel).andThen fun sel => if c.state = prev then sel.pass else followState i c sel

section Operations

variable {clean : Prop} {S : Sock → Prop} {sel sel' : Selector} {i : Nat} {prev : State}
  {c : ProxyConnection} {s : Sock} {mask : Mask}

theorem touches_watchNewBackend (hS : ∀ s, c.backendSock = some s → S s)
    (h : Touches S (some i) sel sel') : Touches S (some i) sel (watchNewBackend i c sel').selector := by
  unfold watchNewBackend
  split
  · exact h
  · next s hs =>
    split
    · refine Attempt.except_induction (P := Touches S (some i) sel) (h.register (hS s hs) _) fun _ h => ?_
      exact Attempt.except_induction (P := Touches S (some i) sel) (h.modify (hS s hs) _) fun _ h => h
    · exact h

theorem touches_flush (sel : Selector) (i : Nat) (c : ProxyConnection) :
    Touches (fun s => c.backendSock = some s ∨ c.pendingBackendUnregister = some s) (some i) sel
      (flush i c sel).selector := by
  unfold flush
  split
  · exact .refl _ _ _
  · next old hold =>
    refine Attempt.andThen_induction (P := Touches _ (some i) sel) ?_ fun _ h =>
      touches_watchNewBackend (fun _ hs => Or.inl hs) h
    exact Attempt.except_induction (P := Touches _ (some i) sel)
      ((Touches.refl _ _ _).unregister (Or.inr hold)) fun _ h => h

/-- A transition touches the client socket only when the response is about to be forwarded. -/
theorem touches_followState (sel : Selector) (i : Nat) (c : ProxyConnection) :
    Touches (fun s => c.backendSock = some s ∨ (c.state = .forwardingResponse ∧ c.clientSock = s)) (some i)
      sel (followState i c sel).selector := by
  have hrefl := Touches.refl
    (fun s => c.backendSock = some s ∨ (c.state = .forwardingResponse ∧ c.clientSock = s)) (some i) sel
  unfold followState
  split
  · next s _ hs =>
    exact Attempt.except_induction (P := Touches _ (some i) sel) (hrefl.register (Or.inl hs) _) fun _ h => h
  · next s _ hs =>
    refine Attempt.except_induction (P := Touches _ (some i) sel) (hrefl.modify (Or.inl hs) _) fun _ h => ?_
    exact Attempt.except_induction (P := Touches _ (some i) sel) (h.register (Or.inl hs) _) fun _ h => h
  · next s _ hs =>
    exact Attempt.except_induction (P := Touches _ (some i) sel) (hrefl.modify (Or.inl hs) _) fun _ h => h
  · next hstate =>
    refine Attempt.andThen_induction (P := Touches _ (some i) sel) ?_ fun _ h => ?_
    · exact Attempt.except_induction (P := Touches _ (some i) sel)
        (hrefl.modify (Or.inr ⟨hstate, rfl⟩) _) fun _ h => h
    · split
      · exact h
      · next s hs =>
        exact Attempt.except_induction (P := Touches _ (some i) sel) (h.unregister (Or.inl hs)) fun _ h => h
  · exact hrefl

theorem flush_of_none (h : c.pendingBackendUnregister = none) : flush i c sel = sel.pass := by
  unfold flush
  rw [h]

theorem flush_of_some {old : Sock} (h : c.pendingBackendUnregister = some old) :
    flush i c sel = watchNewBackend i c (sel.unregister old).selector := by
  unfold flush
  rw [h]
  dsimp only
  rw [unregister_except_pass]
  rfl

theorem Live.unregister {old : Sock} (h : Live sel (some old)) : Live (sel.unregister old).selector none := by
  intro s hs
  have hne : s ≠ old := by
    rintro rfl
    exact not_registered_unregister sel s hs
  rcases h s (registered_of_unregister hs) with hopen | hold
  · exact Or.inl ((touches_unregister none sel old).opened ▸ hopen)
  · exact absurd (Option.some.inj hold).symm hne

/-- After a flush every registered socket is open. -/
theorem live_flush (hlive : Live sel c.pendingBackendUnregister) :
    Live (flush i c sel).selector none := by
  cases hpending : c.pendingBackendUnregister with
  | none =>
      rw [flush_of_none hpending]
      exact hpending ▸ hlive
  | some old =>
      rw [flush_of_some hpending]
      rw [hpending] at hlive
      exact hlive.unregister.touches
        (touches_watchNewBackend (S := fun s => c.backendSock = some s) (fun _ hs => hs) (.refl _ _ _))

/-- An open socket that is to be registered for writing, and is registered for writing already or has a
free number. -/
def Watchable (sel : Selector) (i : Nat) (s : Sock) : Prop :=
  s ∈ sel.os.opened ∧ (sel.Has s eventWrite (some i) ∨ sel.fdToKey.get? s.fd = none)

theorem Watchable.register (h : Watchable sel i s) (hcons : sel.Consistent)
    {handler : Selector → Attempt}
    (hhandler : sel.Has s eventWrite (some i) → (handler sel).selector.Has s eventWrite (some i)) :
    ((sel.register s eventWrite (some i)).except handler).selector.Has s eventWrite (some i) := by
  obtain ⟨hopen, hhas | hfree⟩ := h
  · rw [register_of_has hopen hhas]
    exact hhandler hhas
  · obtain ⟨sel', hregister, hhas⟩ := register_of_free hcons hopen hfree
    rw [hregister]
    exact hhas

theorem Watchable.modify (h : Watchable sel i s) (hcons : sel.Consistent) :
    ((sel.modify s eventWrite (some i)).except fun sel =>
      (sel.register s eventWrite (some i)).except Selector.pass).selector.Has s eventWrite (some i) := by
  obtain ⟨hopen, hhas | hfree⟩ := h
  · obtain ⟨sel', hmodify, hhas'⟩ := modify_of_has hcons hopen hhas
    rw [hmodify]
    exact hhas'
  · rw [modify_of_free hopen hfree]
    exact Watchable.register ⟨hopen, Or.inr hfree⟩ hcons fun hhas => hhas

/-- A flush for a new backend socket registers it. -/
theorem flush_watches {old : Sock} (hcons : sel.Consistent) (hlive : Live sel c.pendingBackendUnregister)
    (hstate : c.state = .connectingToBackend ∨ c.state = .forwardingRequest)
    (hs : c.backendSock = some s) (hopen : s ∈ sel.os.opened) (hnot : ¬ sel.Registered s)
    (hold : c.pendingBackendUnregister = some old) :
    (flush i c sel).selector.Has s eventWrite (some i) := by
  have htouches := touches_unregister none sel old
  have hgone : ¬ (sel.unregister old).selector.Registered s := fun h => hnot (registered_of_unregister h)
  have hlive' : Live (sel.unregister old).selector none := Live.unregister (hold ▸ hlive)
  have hfree := free_of_not_registered (fun t => hlive'.opened) (htouches.opened ▸ hopen) hgone
  rw [flush_of_some hold, watchNewBackend, hs]
  dsimp only
  rw [if_pos hstate]
  refine Watchable.register ⟨htouches.opened ▸ hopen, Or.inr hfree⟩ (htouches.consistent hcons) fun hhas => ?_
  exact absurd hhas.registered hgone

/-- The transition to a state in which the backend socket is to be watched. -/
theorem followState_watches (hcons : sel.Consistent) (hs : c.backendSock = some s)
    (hmask : backendMask c.state = some mask)
    (hready : (mask = eventWrite ∧ Watchable sel i s) ∨
      (s ∈ sel.os.opened ∧ sel.Has s eventWrite (some i))) :
    (followState i c sel).selector.Has s mask (some i) := by
  have hwatchable : mask = eventWrite → Watchable sel i s := by
    rcases hready with ⟨-, hwatchable⟩ | ⟨hopen, hhas⟩
    · exact fun _ => hwatchable
    · exact fun _ => ⟨hopen, Or.inl hhas⟩
  unfold followState
  rw [hs]
  cases hstate : c.state with
  | connectingToBackend =>
      rw [hstate] at hmask
      obtain rfl := Option.some.inj hmask
      exact (hwatchable rfl).register hcons fun hhas => hhas
  | forwardingRequest =>
      rw [hstate] at hmask
      obtain rfl := Option.some.inj hmask
      exact (hwatchable rfl).modify hcons
  | readingResponse =>
      rw [hstate] at hmask
      obtain rfl := Option.some.inj hmask
      obtain ⟨hopen, hhas⟩ : s ∈ sel.os.opened ∧ sel.Has s eventWrite (some i) :=
        hready.resolve_left fun h => absurd h.1 (by decide)
      obtain ⟨sel', hmodify, hhas'⟩ := modify_of_has hcons hopen hhas
      dsimp only
      rw [hmodify]
      exact hhas'
  | readingRequest | forwardingResponse | done =>
      rw [hstate] at hmask
      cases hmask

/-- The transition to `FORWARDING_RESPONSE` makes the client socket writable and drops the backend. -/
theorem followState_relays {mask' : Mask} (hcons : sel.Consistent) (hstate : c.state = .forwardingResponse)
    (hopen : c.clientSock ∈ sel.os.opened) (hhas : sel.Has c.clientSock mask' (some i))
    (hapart : c.backendSock ≠ some c.clientSock) :
    (followState i c sel).selector.Has c.clientSock eventWrite (some i) ∧
      ∀ s, c.backendSock = some s → ¬ (followState i c sel).selector.Registered s := by
  obtain ⟨sel', hmodify, hhas'⟩ : ∃ sel' : Selector, sel.modify c.clientSock eventWrite (some i) =
      sel'.pass ∧ sel'.Has c.clientSock eventWrite (some i) := modify_of_has hcons hopen hhas
  have htouches := touches_modify eventWrite (some i) sel c.clientSock
  rw [hmodify] at htouches
  unfold followState
  rw [hstate]
  dsimp only
  rw [hmodify]
  cases hs : c.backendSock with
  | none => exact ⟨hhas', nofun⟩
  | some s =>
      change ((sel'.unregister s).except Selector.pass).selector.Has _ _ _ ∧
        ∀ t, some s = some t → ¬ ((sel'.unregister s).except Selector.pass).selector.Registered t
      rw [unregister_except_pass]
      refine ⟨(touches_unregister none sel' s).kept _ _ _ hhas' (htouches.opened ▸ hopen) ?_, ?_⟩
      · rintro rfl
        exact hapart hs
      · rintro t ⟨rfl⟩
        exact not_registered_unregister sel' s

end Operations

/-! ### What a transition establishes -/

section Settle

variable {clean : Prop} {sel : Selector} {i : Nat} {prev state : State} {c : ProxyConnection}

/-- Where the connection is after `_transition`: the socket left behind has been unregistered. -/
def cleared (c : ProxyConnection) : ProxyConnection := { c with pendingBackendUnregister := none }

theorem clientMask_of_ne (h : state ≠ .forwardingResponse) : clientMask state = eventRead := by
  cases state with
  | forwardingResponse => exact absurd rfl h
  | _ => rfl

/-- A move to another state comes from one before it in which the backend socket is written to, or goes
to `FORWARDING_RESPONSE`. -/
theorem before_of_moves (h : Moves prev state) (hne : state ≠ prev) :
    state ≠ .readingRequest ∧ prev ≠ .forwardingResponse ∧
      (state ≠ .forwardingResponse → backendMask prev = some eventWrite) := by
  cases prev with
  | connectingToBackend => rcases h with rfl | rfl | rfl <;> simp [backendMask]
  | forwardingRequest =>
      rcases h with rfl | rfl
      · exact absurd rfl hne
      · simp [backendMask]
  | readingResponse =>
      rcases h with rfl | rfl
      · exact absurd rfl hne
      · simp
  | readingRequest | forwardingResponse | done => exact absurd h hne

theorem touches_settle (sel : Selector) (i : Nat) (prev : State) (c : ProxyConnection) :
    Touches c.Owns (some i) sel (settle i prev c sel).selector := by
  have hflush : Touches c.Owns (some i) sel (flush i c sel).selector :=
    (touches_flush sel i c).mono fun _ hs => Or.inr hs
  refine Attempt.andThen_induction (P := Touches c.Owns (some i) sel) hflush fun sel' h => ?_
  split
  · exact h
  · refine h.trans ((touches_followState sel' i c).mono fun _ hs => ?_)
    rcases hs with hs | ⟨-, hs⟩
    · exact Or.inr (Or.inl hs)
    · exact Or.inl hs

theorem live_settle (hlive : Live sel c.pendingBackendUnregister) :
    Live (settle i prev c sel).selector none := by
  refine Attempt.andThen_induction (P := fun sel => Live sel none) (live_flush hlive) fun sel' h => ?_
  split
  · exact h
  · exact h.touches (touches_followState sel' i c)

/-- The socket left behind is not registered any more, unless it is still in use. -/
theorem registered_settle {old : Sock} (hold : c.pendingBackendUnregister = some old)
    (h : (settle i prev c sel).selector.Registered old) :
    c.clientSock = old ∨ c.backendSock = some old := by
  have hflushed : (flush i c sel).selector.Registered old → c.clientSock = old ∨ c.backendSock = some old := by
    rw [flush_of_some hold]
    intro hregistered
    have hwatch := touches_watchNewBackend (S := fun s => c.backendSock = some s) (fun _ hs => hs)
      (.refl _ (some i) (sel.unregister old).selector)
    rcases hwatch.origin old hregistered with hregistered | ⟨hs, -⟩
    · exact absurd hregistered (not_registered_unregister sel old)
    · exact Or.inr hs
  refine Attempt.andThen_induction
    (P := fun sel => sel.Registered old → c.clientSock = old ∨ c.backendSock = some old) hflushed
    (fun sel' hsel' => ?_) h
  split
  · exact hsel'
  · intro hregistered
    rcases (touches_followState sel' i c).origin old hregistered with hregistered | ⟨hs | ⟨-, hs⟩, -⟩
    · exact hsel' hregistered
    · exact Or.inr hs
    · exact Or.inl hs

/-- A flush is a transition to the state that the connection is in. -/
theorem flush_eq_settle (sel : Selector) (i : Nat) (c : ProxyConnection) :
    flush i c sel = settle i c.state c sel := by
  rw [settle, Attempt.andThen]
  cases herror : (flush i c sel).error with
  | none => exact (Attempt.eq_pass herror).trans (if_pos rfl).symm
  | some e => rfl

/-- The client socket after the change of interest. -/
theorem client_followState (hcons : sel.Consistent) (hapart : c.backendSock ≠ some c.clientSock)
    (hprev : prev ≠ .forwardingResponse) (hopen : c.clientSock ∈ sel.os.opened)
    (hhas : sel.Has c.clientSock (clientMask prev) (some i)) :
    (followState i c sel).selector.Has c.clientSock (clientMask c.state) (some i) := by
  by_cases hstate : c.state = .forwardingResponse
  · rw [hstate]
    exact (followState_relays hcons hstate hopen hhas hapart).1
  · rw [clientMask_of_ne hstate]
    rw [clientMask_of_ne hprev] at hhas
    refine (touches_followState sel i c).kept _ _ _ hhas hopen ?_
    rintro (hs | ⟨hs, -⟩)
    · exact hapart hs
    · exact hstate hs

/-- The sockets are those before the call. -/
theorem kept_wired (hready : Ready clean sel i prev c) (hcons : sel.Consistent)
    (hpending : c.pendingBackendUnregister = none) (hmoves : Moves prev c.state)
    (hidle : prev = .readingRequest → c.backendSock = none)
    (hwatched : clean → ∀ mask, backendMask prev = some mask →
      ∃ s, c.backendSock = some s ∧ sel.Has s mask (some i))
    (hreleased : prev = .forwardingResponse → ∀ s, c.backendSock = some s → ¬ sel.Registered s) :
    ConnWired clean (settle i prev c sel).selector i (cleared c) := by
  have hflushed : flush i c sel = sel.pass := flush_of_none hpending
  by_cases hsame : c.state = prev
  · have hsettle : (settle i prev c sel).selector = sel := by
      rw [settle, hflushed]
      exact congrArg Attempt.selector (if_pos hsame)
    subst hsame
    rw [hsettle]
    exact ⟨hready.client, fun _ => rfl, fun _ => nofun, hready.live, hidle, hwatched, hreleased⟩
  · have hsettle : (settle i prev c sel).selector = (followState i c sel).selector := by
      rw [settle, hflushed]
      exact congrArg Attempt.selector (if_neg hsame)
    obtain ⟨hnotIdle, hprev, hwriting⟩ := before_of_moves hmoves hsame
    have hopened := (touches_followState sel i c).opened
    rw [hsettle]
    refine ⟨fun hdone => ?_, fun _ => rfl, fun _ => nofun, fun hdone s hs => ?_,
      fun h => absurd h hnotIdle, fun hclean mask hmask => ?_, fun hstate s hs => ?_⟩
    · obtain ⟨hopen, hhas⟩ := hready.client hdone
      exact ⟨hopened ▸ hopen, client_followState hcons hready.apart hprev hopen hhas⟩
    · exact hopened ▸ hready.live hdone s hs
    · have hne : c.state ≠ .forwardingResponse := by
        intro hstate
        rw [show (cleared c).state = .forwardingResponse from hstate] at hmask
        cases hmask
      obtain ⟨s, hs, hhas⟩ := hwatched hclean eventWrite (hwriting hne)
      have hopen := hready.live (ne_done_of_mask hmask) s hs
      exact ⟨s, hs, followState_watches hcons hs hmask (Or.inr ⟨hopen, hhas⟩)⟩
    · have hdone : c.state ≠ .done := by
        rw [show c.state = .forwardingResponse from hstate]
        exact State.noConfusion
      obtain ⟨hopen, hhas⟩ := hready.client hdone
      exact (followState_relays hcons hstate hopen hhas hready.apart).2 s hs

/-- The connection is on a new backend socket. -/
theorem renewed_wired {s : Sock} (hready : Ready clean sel i prev c) (hcons : sel.Consistent)
    (hlive : clean → Live sel c.pendingBackendUnregister) (hprev : prev ≠ .forwardingResponse)
    (hstate : c.state = .connectingToBackend ∨ c.state = .forwardingRequest)
    (hs : c.backendSock = some s) (hnot : ¬ sel.Registered s)
    (hmoved : clean → c.pendingBackendUnregister = none → c.state ≠ prev)
    (herror : (settle i prev c sel).error = none) :
    ConnWired clean (settle i prev c sel).selector i (cleared c) := by
  have hmask : backendMask c.state = some eventWrite := by
    rcases hstate with hstate | hstate <;> rw [hstate] <;> rfl
  have hdone : c.state ≠ .done := ne_done_of_mask hmask
  have hflush := touches_flush sel i c
  have hopen := hready.live hdone s hs
  have hcons' := hflush.consistent hcons
  obtain ⟨hclientOpen, hclient⟩ := hready.client hdone
  have hclient' : (flush i c sel).selector.Has c.clientSock (clientMask prev) (some i) := by
    refine hflush.kept _ _ _ hclient hclientOpen ?_
    rintro (heq | heq)
    · exact hready.apart heq
    · exact hready.pendingApart heq
  have hnotRelaying : c.state ≠ .forwardingResponse := by
    rcases hstate with hstate | hstate <;> rw [hstate] <;> exact State.noConfusion
  -- the flush registers the new socket, or there was none to flush and the state has changed
  have hwatched : clean → Watchable (flush i c sel).selector i s ∧
      (c.state = prev → (flush i c sel).selector.Has s eventWrite (some i)) := by
    intro hclean
    cases hpending : c.pendingBackendUnregister with
    | none =>
        have hlive' : Live sel none := hpending ▸ hlive hclean
        rw [flush_of_none hpending]
        refine ⟨⟨hopen, Or.inr ?_⟩, fun heq => absurd heq (hmoved hclean hpending)⟩
        exact free_of_not_registered (fun t => hlive'.opened) hopen hnot
    | some old =>
        have hhas := flush_watches (i := i) hcons (hlive hclean) hstate hs hopen hnot hpending
        exact ⟨⟨hflush.opened ▸ hopen, Or.inl hhas⟩, fun _ => hhas⟩
  obtain ⟨hpass, hsettle⟩ := Attempt.andThen_of_pass herror
  rw [settle, hsettle]
  split
  · next hsame =>
    subst hsame
    refine ⟨fun _ => ⟨hflush.opened ▸ hclientOpen, hclient'⟩, fun _ => rfl, fun _ => nofun,
      fun _ t ht => ?_, fun h => ?_, fun hclean mask hmask' => ?_, fun h => absurd h hnotRelaying⟩
    · exact hflush.opened ▸ hready.live hdone t ht
    · rcases hstate with hstate | hstate <;> exact absurd (h.symm.trans hstate) State.noConfusion
    · obtain rfl := Option.some.inj (hmask.symm.trans hmask')
      exact ⟨s, hs, (hwatched hclean).2 rfl⟩
  · have hfollow := touches_followState (flush i c sel).selector i c
    refine ⟨fun _ => ⟨?_, ?_⟩, fun _ => rfl, fun _ => nofun, fun _ t ht => ?_, fun h => ?_,
      fun hclean mask hmask' => ?_, fun h => absurd h hnotRelaying⟩
    · exact hfollow.opened ▸ hflush.opened ▸ hclientOpen
    · exact client_followState hcons' hready.apart hprev (hflush.opened ▸ hclientOpen) hclient'
    · exact hfollow.opened ▸ hflush.opened ▸ hready.live hdone t ht
    · rcases hstate with hstate | hstate <;> exact absurd (h.symm.trans hstate) State.noConfusion
    · obtain rfl := Option.some.inj (hmask.symm.trans hmask')
      exact ⟨s, hs, followState_watches hcons' hs hmask (Or.inl ⟨rfl, (hwatched hclean).1⟩)⟩

/-- Of a connection that is `DONE` only the socket left behind matters. -/
theorem wired_of_done (hdone : c.state = .done)
    (hflushed : clean → ∀ s, c.pendingBackendUnregister = some s → ¬ sel.Registered s) :
    ConnWired clean sel i c where
  client := fun h => absurd hdone h
  settled := fun h => absurd hdone h
  flushed := hflushed
  live := fun h => absurd hdone h
  idle := fun h => absurd (hdone.symm.trans h) State.noConfusion
  watched := by
    rw [hdone]
    exact nofun
  released := fun h => absurd (hdone.symm.trans h) State.noConfusion

/-- **The transition.** What a handler call leaves behind is wired again, if nothing is raised. -/
theorem Ready.settle (hready : Ready clean sel i prev c) (hcons : sel.Consistent)
    (hlive : clean → Live sel c.pendingBackendUnregister) (herror : (settle i prev c sel).error = none) :
    ConnWired clean (settle i prev c sel).selector i (cleared c) := by
  rcases hready.backend with ⟨hpending, hmoves, hidle, hwatched, hreleased⟩ |
    ⟨hprev, hstate, ⟨s, hs, hnot⟩, hmoved⟩ | hdone
  · exact kept_wired hready hcons hpending hmoves hidle hwatched hreleased
  · exact renewed_wired hready hcons hlive hprev hstate hs hnot hmoved herror
  · exact wired_of_done hdone fun _ => nofun

end Settle

end Reactor

end LoadBalancer
