import LoadBalancer.Bookkeeping
import LoadBalancer.Interest

/-! The invariant of the selector's keys, and what one handler call with its transition makes of it. The
keys of all connections but one stay as they are; that one is between the call and the transition. -/

namespace LoadBalancer

open Outcome Selector

namespace Reactor

variable {cfg : Config} {clean : Prop} {i : Nat} {r r' : Reactor}

/-! ### The invariant -/

/-- No socket belongs to two connections, the keys of open sockets name their owners, and all connections
are wired, except the one that `except` may name. -/
structure Wiring (clean : Prop) (except : Option Nat) (r : Reactor) : Prop where
  consistent : r.selector.Consistent
  bounded : ∀ (j : Nat) (t : Session) (s : Sock), r.fleet.sessions[j]? = some t → t.conn.Owns s → s.ref < r.fleet.os.nextRef
  disjoint : ∀ (j k : Nat) (t u : Session) (s : Sock), j ≠ k → r.fleet.sessions[j]? = some t →
    r.fleet.sessions[k]? = some u → t.conn.Owns s → ¬ u.conn.Owns s
  apart : ∀ (j : Nat) (t : Session), r.fleet.sessions[j]? = some t →
    t.conn.backendSock ≠ some t.conn.clientSock ∧
      t.conn.pendingBackendUnregister ≠ some t.conn.clientSock
  owned : ∀ s mask d, r.selector.Has s mask d → s ∈ r.fleet.os.opened →
    (s = r.serverSock ∧ d = none) ∨ ∃ (j : Nat) (t : Session), d = some j ∧
      r.fleet.sessions[j]? = some t ∧ t.conn.Owns s
  reaped : ∀ (j : Nat) (t : Session) (cid : Nat) (s : Sock), r.handles[j]? = some ⟨cid, true⟩ →
    r.fleet.sessions[j]? = some t → t.conn.Owns s → s ∉ r.fleet.os.opened
  live : clean → ∀ s, r.selector.Registered s → s ∈ r.fleet.os.opened ∨
    ∃ (j : Nat) (t : Session), except = some j ∧ r.fleet.sessions[j]? = some t ∧
      t.conn.pendingBackendUnregister = some s
  wired : ∀ (j : Nat) (t : Session), r.fleet.sessions[j]? = some t → except ≠ some j →
    ConnWired clean r.selector j t.conn

theorem Wiring.opened (h : Wiring clean none r) (hclean : clean) {s : Sock} (hs : r.selector.Registered s) :
    s ∈ r.fleet.os.opened := by
  rcases h.live hclean s hs with hopen | ⟨j, t, hexcept, -⟩
  · exact hopen
  · cases hexcept

/-- The invariant speaks of the sockets, the keys, the connections and which of them have been reaped. -/
theorem Wiring.of_eq {except : Option Nat} (h : Wiring clean except r) (hselector : r'.selector = r.selector)
    (hsessions : r'.fleet.sessions = r.fleet.sessions) (hserver : r'.serverSock = r.serverSock)
    (hhandles : r'.handles = r.handles) : Wiring clean except r' := by
  have hos : r'.fleet.os = r.fleet.os := congrArg Selector.os hselector
  refine ⟨?_, ?_, ?_, ?_, ?_, ?_, ?_, ?_⟩
  · exact hselector ▸ h.consistent
  · rw [hsessions, hos]
    exact h.bounded
  · rw [hsessions]
    exact h.disjoint
  · rw [hsessions]
    exact h.apart
  · rw [hselector, hos, hserver, hsessions]
    exact h.owned
  · rw [hhandles, hsessions, hos]
    exact h.reaped
  · rw [hselector, hos, hsessions]
    exact h.live
  · rw [hsessions, hselector]
    exact h.wired

/-- What happens to the sockets and the keys when connection `i` changes from `c` to `c'`. -/
structure Rewires (clean : Prop) (i : Nat) (c c' : ProxyConnection) (r r' : Reactor) : Prop where
  serverSock : r'.serverSock = r.serverSock
  handles : r'.handles = r.handles
  before : ∃ trace, r.fleet.sessions[i]? = some ⟨c, trace⟩
  after : ∃ trace, r'.fleet.sessions[i]? = some ⟨c', trace⟩
  others : ∀ j : Nat, i ≠ j → r'.fleet.sessions[j]? = r.fleet.sessions[j]?
  nextRef : r.fleet.os.nextRef ≤ r'.fleet.os.nextRef
  old : ∀ s ∈ r'.fleet.os.opened, s.ref < r.fleet.os.nextRef → s ∈ r.fleet.os.opened
  consistent : r.selector.Consistent → r'.selector.Consistent
  owns : ∀ s, c'.Owns s → c.Owns s ∨ (r.fleet.os.nextRef ≤ s.ref ∧ s.ref < r'.fleet.os.nextRef ∧
    ∃ cid, r.handles[i]? = some ⟨cid, false⟩)
  apart : c'.backendSock ≠ some c'.clientSock ∧ c'.pendingBackendUnregister ≠ some c'.clientSock
  given : ∀ s mask d, r'.selector.Has s mask d → s ∈ r'.fleet.os.opened →
    r.selector.Has s mask d ∨ (c.Owns s ∧ d = some i)
  claimed : ∀ s mask d, r'.selector.Has s mask d → s ∈ r'.fleet.os.opened → c.Owns s → c'.Owns s
  live : clean → ∀ s, r'.selector.Registered s →
    s ∈ r'.fleet.os.opened ∨ c'.pendingBackendUnregister = some s
  wired : ∀ j u, ConnWired clean r.selector j u → (∀ s, c.Owns s → ¬ u.Owns s) →
    ConnWired clean r'.selector j u

/-- The session at an index, after a change of the one at `i`. -/
theorem Rewires.cases {c c' : ProxyConnection} (h : Rewires clean i c c' r r') {j : Nat} {t : Session}
    (ht : r'.fleet.sessions[j]? = some t) :
    (j = i ∧ t.conn = c') ∨ (i ≠ j ∧ r.fleet.sessions[j]? = some t) := by
  by_cases hij : i = j
  · subst hij
    obtain ⟨trace, hafter⟩ := h.after
    obtain rfl := Option.some.inj (hafter.symm.trans ht)
    exact Or.inl ⟨rfl, rfl⟩
  · exact Or.inr ⟨hij, (h.others j hij).symm.trans ht⟩

section Rewires

variable {except : Option Nat} {c c' : ProxyConnection}

theorem Rewires.bounded (hr : Rewires clean i c c' r r') (h : Wiring clean except r) (j : Nat) (t : Session)
    (s : Sock) (ht : r'.fleet.sessions[j]? = some t) (hs : t.conn.Owns s) :
    s.ref < r'.fleet.os.nextRef := by
  obtain ⟨trace, hbefore⟩ := hr.before
  rcases hr.cases ht with ⟨rfl, rfl⟩ | ⟨-, ht⟩
  · rcases hr.owns s hs with hs | ⟨-, hlt⟩
    · exact (h.bounded j _ s hbefore hs).trans_le hr.nextRef
    · exact hlt.1
  · exact (h.bounded j t s ht hs).trans_le hr.nextRef

/-- What connection `i` owns now belongs to no other connection. -/
theorem Rewires.foreign (hr : Rewires clean i c c' r r') (h : Wiring clean except r) {k : Nat}
    {u : Session} {s : Sock} (hik : i ≠ k) (hu : r.fleet.sessions[k]? = some u) (hs : c'.Owns s) :
    ¬ u.conn.Owns s := by
  intro hs'
  obtain ⟨trace, hbefore⟩ := hr.before
  rcases hr.owns s hs with hs | ⟨hnew, -⟩
  · exact h.disjoint i k _ u s hik hbefore hu hs hs'
  · exact absurd (h.bounded k u s hu hs') (Nat.not_lt.mpr hnew)

theorem Rewires.disjoint (hr : Rewires clean i c c' r r') (h : Wiring clean except r) (j k : Nat)
    (t u : Session) (s : Sock) (hjk : j ≠ k) (ht : r'.fleet.sessions[j]? = some t)
    (hu : r'.fleet.sessions[k]? = some u) (hs : t.conn.Owns s) : ¬ u.conn.Owns s := by
  rcases hr.cases ht with ⟨rfl, rfl⟩ | ⟨hij, ht⟩
  · rcases hr.cases hu with ⟨rfl, -⟩ | ⟨hik, hu⟩
    · exact absurd rfl hjk
    · exact hr.foreign h hik hu hs
  · rcases hr.cases hu with ⟨rfl, rfl⟩ | ⟨hik, hu⟩
    · exact fun hs' => hr.foreign h hij ht hs' hs
    · exact h.disjoint j k t u s hjk ht hu hs

theorem Rewires.owned (hr : Rewires clean i c c' r r') (h : Wiring clean except r) (s : Sock) (mask : Mask)
    (d : Option Nat) (hhas : r'.selector.Has s mask d) (hopen : s ∈ r'.fleet.os.opened) :
    (s = r'.serverSock ∧ d = none) ∨ ∃ (j : Nat) (t : Session), d = some j ∧
      r'.fleet.sessions[j]? = some t ∧ t.conn.Owns s := by
  obtain ⟨trace, hbefore⟩ := hr.before
  rw [hr.serverSock]
  have hown : c.Owns s → ∃ t, r'.fleet.sessions[i]? = some t ∧ t.conn.Owns s := by
    intro hs
    obtain ⟨trace', hafter⟩ := hr.after
    exact ⟨_, hafter, hr.claimed s mask d hhas hopen hs⟩
  rcases hr.given s mask d hhas hopen with hold | ⟨hs, rfl⟩
  · have hbefore' : s ∈ r.fleet.os.opened := hr.old s hopen (h.consistent.known s hold.registered)
    rcases h.owned s mask d hold hbefore' with hserver | ⟨j, t, rfl, ht, hs⟩
    · exact Or.inl hserver
    · by_cases hij : i = j
      · subst hij
        obtain rfl := Option.some.inj (hbefore.symm.trans ht)
        obtain ⟨t, ht, hs⟩ := hown hs
        exact Or.inr ⟨i, t, rfl, ht, hs⟩
      · exact Or.inr ⟨j, t, rfl, (hr.others j hij).trans ht, hs⟩
  · obtain ⟨t, ht, hs⟩ := hown hs
    exact Or.inr ⟨i, t, rfl, ht, hs⟩

theorem Rewires.reaped (hr : Rewires clean i c c' r r') (h : Wiring clean except r) (j : Nat) (t : Session)
    (cid : Nat) (s : Sock) (hhandle : r'.handles[j]? = some ⟨cid, true⟩)
    (ht : r'.fleet.sessions[j]? = some t) (hs : t.conn.Owns s) : s ∉ r'.fleet.os.opened := by
  intro hopen
  obtain ⟨trace, hbefore⟩ := hr.before
  rw [hr.handles] at hhandle
  rcases hr.cases ht with ⟨rfl, rfl⟩ | ⟨-, ht⟩
  · rcases hr.owns s hs with hs | ⟨-, -, cid', halive⟩
    · exact h.reaped _ _ cid s hhandle hbefore hs (hr.old s hopen (h.bounded _ _ s hbefore hs))
    · cases hhandle.symm.trans halive
  · exact h.reaped j t cid s hhandle ht hs (hr.old s hopen (h.bounded j t s ht hs))

/-- Everything but the wiring of connection `i` itself comes from how it changes. -/
theorem Wiring.rewires (h : Wiring clean except r) (hexcept : except = none ∨ except = some i)
    (hr : Rewires clean i c c' r r') : Wiring clean (some i) r' := by
  refine ⟨hr.consistent h.consistent, hr.bounded h, hr.disjoint h, ?_, hr.owned h, hr.reaped h, ?_, ?_⟩
  · intro j t ht
    rcases hr.cases ht with ⟨rfl, rfl⟩ | ⟨-, ht⟩
    · exact hr.apart
    · exact h.apart j t ht
  · intro hclean s hs
    refine (hr.live hclean s hs).imp_right fun hs => ?_
    obtain ⟨trace', hafter⟩ := hr.after
    exact ⟨i, _, rfl, hafter, hs⟩
  · intro j t ht hne
    obtain ⟨trace, hbefore⟩ := hr.before
    rcases hr.cases ht with ⟨rfl, -⟩ | ⟨hij, ht⟩
    · exact absurd rfl hne
    · refine hr.wired j t.conn (h.wired j t ht ?_) fun s hs => h.disjoint i j _ t s hij hbefore ht hs
      rcases hexcept with rfl | rfl
      · exact nofun
      · exact fun heq => hij (Option.some.inj heq)

end Rewires

/-- Once connection `i` is wired too, so are all. -/
theorem Wiring.close (h : Wiring clean (some i) r)
    (hown : ∀ t, r.fleet.sessions[i]? = some t → ConnWired clean r.selector i t.conn) :
    Wiring clean none r := by
  refine ⟨h.consistent, h.bounded, h.disjoint, h.apart, h.owned, h.reaped, fun hclean s hs => ?_,
    fun j t ht _ => ?_⟩
  · rcases h.live hclean s hs with hopen | ⟨j, t, hj, ht, hpending⟩
    · exact Or.inl hopen
    · obtain rfl := Option.some.inj hj
      exact absurd hs ((hown t ht).flushed hclean s hpending)
  · by_cases hij : i = j
    · subst hij
      exact hown t ht
    · exact h.wired j t ht fun heq => hij (Option.some.inj heq)

/-! ### The selector part of a transition -/

/-- Other keys, and no socket left to unregister. -/
def rewired (i : Nat) (sel : Selector) (r : Reactor) : Reactor :=
  { r with fleet := { r.fleet.clearPending i with os := sel.os }, fdToKey := sel.fdToKey }

def rewire (i : Nat) (attempt : Attempt) (r : Reactor) : Outcome Reactor :=
  match attempt.error with
  | none => .returned (rewired i attempt.selector r)
  | some _ => .raised (rewired i attempt.selector r)

section Transition

variable {t : Session}

theorem getElem?_rewired (ht : r.fleet.sessions[i]? = some t) (sel : Selector) :
    (rewired i sel r).fleet.sessions[i]? = some t.clearPending :=
  (Fleet.getElem?_modify_of_some ht Session.clearPending).trans (by rw [if_pos rfl])

theorem clearPending_of_none (ht : r.fleet.sessions[i]? = some t)
    (hnone : t.conn.pendingBackendUnregister = none) : r.fleet.clearPending i = r.fleet := by
  have hsame : t.clearPending = t := by rw [Session.clearPending, ← hnone]
  have hsessions : r.fleet.sessions.modify i Session.clearPending = r.fleet.sessions := by
    apply List.ext_getElem?
    intro j
    by_cases hij : i = j
    · subst hij
      rw [Fleet.getElem?_modify_of_some ht, if_pos rfl, hsame, ht]
    · simp [hij]
  rw [Fleet.clearPending, hsessions]

theorem flushPendingUnregister_eq (ht : r.fleet.sessions[i]? = some t) :
    r.flushPendingUnregister i = rewire i (flush i t.conn r.selector) r := by
  unfold flushPendingUnregister
  rw [ht]
  dsimp only
  cases hpending : t.conn.pendingBackendUnregister with
  | none =>
      have hrewired : rewired i r.selector r = r := by
        rw [rewired, clearPending_of_none ht hpending]
        rfl
      rw [flush_of_none hpending]
      exact congrArg returned hrewired.symm
  | some old =>
      dsimp only
      rw [flush_of_some hpending, withSelector, unregister_except_pass]
      rfl

theorem transition_eq (ht : r.fleet.sessions[i]? = some t) (prev : State) :
    r.transition i prev = rewire i (settle i prev t.conn r.selector) r := by
  rw [transition, flushPendingUnregister_eq ht, settle]
  unfold rewire
  cases herror : (flush i t.conn r.selector).error with
  | some e => simp only [Outcome.andThen, Attempt.andThen, herror]
  | none =>
      simp only [Outcome.andThen, Attempt.andThen, herror, getElem?_rewired ht]
      change (if t.conn.state = prev then _ else _) = _
      split
      · rfl
      · rfl

end Transition

/-! ### The changes of one connection -/

section Changes

variable {t : Session}

theorem Wiring.settled {sel' : Selector} (h : Wiring clean (some i) r)
    (ht : r.fleet.sessions[i]? = some t) (htouches : Touches t.conn.Owns (some i) r.selector sel')
    (hlive : clean → Live sel' none)
    (hgone : ∀ s, t.conn.pendingBackendUnregister = some s → sel'.Registered s →
      t.conn.clientSock = s ∨ t.conn.backendSock = some s) :
    Wiring clean (some i) (rewired i sel' r) := by
  have hrewires : Rewires clean i t.conn (cleared t.conn) r (rewired i sel' r) := {
    serverSock := rfl
    handles := rfl
    before := ⟨t.trace, ht⟩
    after := ⟨t.trace, getElem?_rewired ht sel'⟩
    others := fun j hij => by simp [rewired, Fleet.clearPending, hij]
    nextRef := htouches.nextRef.ge
    old := fun s hs _ => htouches.opened ▸ hs
    consistent := htouches.consistent
    owns := by
      rintro s (hs | hs | ⟨⟨⟩⟩)
      · exact Or.inl (Or.inl hs)
      · exact Or.inl (Or.inr (Or.inl hs))
    apart := ⟨(h.apart i t ht).1, nofun⟩
    given := fun s mask d hhas hopen => htouches.given s mask d hhas (htouches.opened ▸ hopen)
    claimed := by
      rintro s mask d hhas - (hs | hs | hs)
      · exact Or.inl hs
      · exact Or.inr (Or.inl hs)
      · exact (hgone s hs hhas.registered).imp_right Or.inl
    live := fun hclean s hs => (hlive hclean s hs).imp_right nofun
    wired := fun j u hu hown => hu.touches htouches hown }
  exact h.rewires (Or.inr rfl) hrewires

theorem Wiring.markDone (h : Wiring clean (some i) r) (ht : r.fleet.sessions[i]? = some t)
    (hflushed : clean → ∀ s, t.conn.pendingBackendUnregister = some s → ¬ r.selector.Registered s) :
    Wiring clean none (r.markDone i) := by
  have hafter : (r.markDone i).fleet.sessions[i]? = some t.markDone :=
    (Fleet.getElem?_modify_of_some ht Session.markDone).trans (by rw [if_pos rfl])
  have hrewires : Rewires clean i t.conn t.markDone.conn r (r.markDone i) := {
    serverSock := rfl
    handles := rfl
    before := ⟨t.trace, ht⟩
    after := ⟨t.trace, hafter⟩
    others := fun j hij => by simp [Reactor.markDone, Fleet.markDone, hij]
    nextRef := le_rfl
    old := fun s hs _ => hs
    consistent := fun hcons => hcons
    owns := fun s hs => Or.inl hs
    apart := h.apart i t ht
    given := fun s mask d hhas _ => Or.inl hhas
    claimed := fun s mask d _ _ hs => hs
    live := by
      intro hclean s hs
      rcases h.live hclean s hs with hopen | ⟨j, u, hj, hu, hpending⟩
      · exact Or.inl hopen
      · obtain rfl := Option.some.inj hj
        obtain rfl := Option.some.inj (ht.symm.trans hu)
        exact Or.inr hpending
    wired := fun j u hu _ => hu }
  refine (h.rewires (Or.inr rfl) hrewires).close fun u hu => ?_
  obtain rfl := Option.some.inj (hafter.symm.trans hu)
  exact wired_of_done rfl hflushed

/-- The sockets that the connection of a frame owns after a call. -/
theorem owns_of_within {f₀ f : Frame} (h : Within f₀ f) (hclient : f.conn.clientSock = f₀.conn.clientSock)
    {s : Sock} (hs : f.conn.Owns s) :
    f₀.conn.Owns s ∨ (f₀.os.nextRef ≤ s.ref ∧ s.ref < f.os.nextRef) := by
  rcases hs with hs | hs | hs
  · exact Or.inl (Or.inl (hclient.symm.trans hs))
  · exact (h.backend s hs).imp_left fun hs => Or.inr (Or.inl hs)
  · rcases h.pending s hs with hs | hs | hs
    · exact Or.inl (Or.inr (Or.inr hs))
    · exact Or.inl (Or.inr (Or.inl hs))
    · exact Or.inr hs

/-- A handler call on a connection that is not `DONE`. -/
theorem Wiring.put (h : Wiring clean none r) (hbook : r.Bookkept) (ht : r.fleet.sessions[i]? = some t)
    (hdone : t.conn.state ≠ .done) {io : Io} {f : Frame} (hwithin : Within (r.fleet.frame t io) f)
    (hclient : f.conn.clientSock = t.conn.clientSock)
    (hhanded : clean → ∀ s, t.conn.backendSock = some s →
      s ∈ f.os.opened ∨ f.conn.pendingBackendUnregister = some s) :
    Wiring clean (some i) { r with fleet := r.fleet.put i f } := by
  have hwired := h.wired i t ht nofun
  have hnew : ∀ s, t.conn.Owns s → s.ref < r.fleet.os.nextRef := fun s hs => h.bounded i t s ht hs
  obtain ⟨hbackend, hpending⟩ := h.apart i t ht
  have hrewires : Rewires clean i t.conn f.conn r { r with fleet := r.fleet.put i f } := {
    serverSock := rfl
    handles := rfl
    before := ⟨t.trace, ht⟩
    after := ⟨f.trace, Fleet.getElem?_put_self ht f⟩
    others := fun j hij => Fleet.getElem?_put_ne hij f
    nextRef := hwithin.evolves.next
    old := fun s hs hlt => hwithin.evolves.old s hs hlt
    consistent := fun hcons => hcons.evolves hwithin.evolves
    owns := by
      intro s hs
      refine (owns_of_within hwithin hclient hs).imp_right fun hs => ⟨hs.1, hs.2, ?_⟩
      exact hbook.handle_of_not_done ht hdone
    apart := by
      have hnot : ∀ s, s = f.conn.clientSock → ¬ r.fleet.os.nextRef ≤ s.ref := by
        rintro s rfl
        exact Nat.not_le.mpr (hnew _ (Or.inl hclient.symm))
      refine ⟨fun heq => ?_, fun heq => ?_⟩
      · rcases hwithin.backend _ heq with heq | ⟨hge, -⟩
        · exact hbackend (hclient ▸ heq)
        · exact hnot _ rfl hge
      · rcases hwithin.pending _ heq with heq | heq | ⟨hge, -⟩
        · exact hpending (hclient ▸ heq)
        · exact hbackend (hclient ▸ heq)
        · exact hnot _ rfl hge
    given := fun s mask d hhas _ => Or.inl hhas
    claimed := by
      rintro s mask d - hopen (hs | hs | hs)
      · exact Or.inl (hclient.trans hs)
      · exact Or.inr (Or.inl ((hwithin.dropped (hwired.live hdone) s hs).resolve_right (not_not.mpr hopen)))
      · rw [hwired.settled hdone] at hs
        cases hs
    live := by
      intro hclean s hs
      have hopen : s ∈ r.fleet.os.opened := h.opened hclean hs
      by_cases hmine : t.conn.backendSock = some s
      · exact hhanded hclean s hmine
      · exact Or.inl (hwithin.evolves.kept s hopen hmine)
    wired := by
      intro j u hu hown
      exact hu.evolves hwithin.evolves fun s hs => hown s (Or.inr (Or.inl hs)) }
  exact h.rewires (Or.inl rfl) hrewires

/-! ### One branch of a dispatch -/

/-- Nothing is left to do for a connection that is wired. -/
theorem Wiring.ready (h : Wiring clean none r) (ht : r.fleet.sessions[i]? = some t) :
    Ready clean r.selector i t.conn.state t.conn := by
  have hwired := h.wired i t ht nofun
  refine ⟨(h.apart i t ht).1, (h.apart i t ht).2, hwired.client, hwired.live, ?_⟩
  by_cases hdone : t.conn.state = .done
  · exact Or.inr (Or.inr hdone)
  · exact Or.inl ⟨hwired.settled hdone, Moves.refl _, hwired.idle, hwired.watched, hwired.released⟩

theorem Wiring.except (h : Wiring clean none r) (i : Nat) : Wiring clean (some i) r :=
  ⟨h.consistent, h.bounded, h.disjoint, h.apart, h.owned, h.reaped,
    fun hclean _ hs => Or.inl (h.opened hclean hs),
    fun j t ht _ => h.wired j t ht nofun⟩

/-- The transition after a handler call that has returned. -/
theorem Wiring.transition (h : Wiring clean (some i) r) (ht : r.fleet.sessions[i]? = some t) {prev : State}
    (hready : Ready clean r.selector i prev t.conn) :
    (r.transition i prev).Post (Wiring clean none) fun r => Wiring clean none (r.markDone i) := by
  have hlive : clean → Live r.selector t.conn.pendingBackendUnregister := by
    intro hclean s hs
    refine (h.live hclean s hs).imp_right ?_
    rintro ⟨j, u, hj, hu, hpending⟩
    obtain rfl := Option.some.inj hj
    obtain rfl := Option.some.inj (ht.symm.trans hu)
    exact hpending
  have hsettled := h.settled ht (touches_settle r.selector i prev t.conn)
    (fun hclean => live_settle (hlive hclean)) fun s hs => registered_settle hs
  rw [transition_eq ht, rewire]
  split
  · next herror =>
    refine hsettled.close fun u hu => ?_
    obtain rfl := Option.some.inj ((getElem?_rewired ht _).symm.trans hu)
    exact hready.settle h.consistent hlive herror
  · exact hsettled.markDone (getElem?_rewired ht _) fun _ => nofun

/-- The final flush of a dispatch. -/
theorem Wiring.flush (h : Wiring clean none r) :
    (r.flushPendingUnregister i).Post (Wiring clean none) fun r => Wiring clean none (r.markDone i) := by
  cases ht : r.fleet.sessions[i]? with
  | none =>
      unfold flushPendingUnregister
      rw [ht]
      exact h
  | some t =>
      rw [flushPendingUnregister_eq ht, flush_eq_settle, ← transition_eq ht]
      exact (h.except i).transition ht (h.ready ht)

/-- What a handler call that returns leaves to the transition. -/
theorem ready_of_moved (h : Wiring clean none r) (ht : r.fleet.sessions[i]? = some t)
    (hdone : t.conn.state ≠ .done) {io : Io} {f : Frame} (hmoved : Moved (r.fleet.frame t io) f)
    (hclient : f.conn.clientSock = t.conn.clientSock)
    (hhanded : clean → Handed (r.fleet.frame t io) f)
    (hafter : Wiring clean (some i) { r with fleet := r.fleet.put i f }) :
    Ready clean { os := f.os, fdToKey := r.fdToKey } i t.conn.state f.conn := by
  have hwired := h.wired i t ht nofun
  have hwithin := hmoved.within
  obtain ⟨hapart, hpendingApart⟩ := hafter.apart i _ (Fleet.getElem?_put_self ht f)
  refine ⟨hapart, hpendingApart, fun _ => ?_, fun _ => hwithin.live (hwired.live hdone), ?_⟩
  · obtain ⟨hopen, hhas⟩ := hwired.client hdone
    rw [hclient]
    exact ⟨hwithin.evolves.kept _ hopen (h.apart i t ht).1, hhas⟩
  · cases hmoved with
    | same socks moves =>
        refine Or.inl ⟨socks.pending.trans (hwired.settled hdone), moves, ?_, ?_, ?_⟩
        · exact fun hstate => socks.backend.trans (hwired.idle hstate)
        · rw [socks.backend]
          exact hwired.watched
        · rw [socks.backend]
          exact hwired.released
    | renewed _ renewed =>
        obtain ⟨s, hs, hnew, -⟩ := renewed.backend
        refine Or.inr (Or.inl ⟨renewed.active, renewed.state, ⟨s, hs, fun hregistered => ?_⟩, ?_⟩)
        · exact absurd (h.consistent.known s hregistered) (Nat.not_lt.mpr hnew)
        · intro hclean hnone hsame
          -- the state would be one in which the old backend socket was watched, and has been handed over
          have hmask : backendMask t.conn.state = some eventWrite := by
            rw [← hsame]
            rcases renewed.state with hstate | hstate <;> rw [hstate] <;> rfl
          obtain ⟨old, hold, hhas⟩ := hwired.watched hclean eventWrite hmask
          rcases hhanded hclean with hbackend | hbackend | hbackend
          · exact absurd (hold.symm.trans hbackend) nofun
          · obtain rfl := Option.some.inj (hs.symm.trans (hbackend.trans hold))
            exact absurd (h.consistent.known s hhas.registered) (Nat.not_lt.mpr hnew)
          · exact absurd (hnone.symm.trans (hbackend.trans hold)) nofun
    | ended _ done => exact Or.inr (Or.inr done)

/-- A handler call that returns, and its transition. -/
theorem Wiring.returned (h : Wiring clean none r) (hbook : r.Bookkept) (ht : r.fleet.sessions[i]? = some t)
    (hdone : t.conn.state ≠ .done) {io : Io} {f : Frame} (hmoved : Moved (r.fleet.frame t io) f)
    (hclient : f.conn.clientSock = t.conn.clientSock) (hhanded : clean → Handed (r.fleet.frame t io) f) :
    (Reactor.transition i t.conn.state { r with fleet := r.fleet.put i f }).Post (Wiring clean none)
      fun r => Wiring clean none (r.markDone i) := by
  have hlive := (hmoved.within).live ((h.wired i t ht nofun).live hdone)
  have hput := h.put hbook ht hdone (hmoved.within) hclient fun hclean s hs => by
    rcases hhanded hclean with hnone | hsame | hpending
    · exact absurd (hs.symm.trans hnone) nofun
    · exact Or.inl (hlive s (hsame.trans hs))
    · exact Or.inr (hpending.trans hs)
  exact hput.transition (Fleet.getElem?_put_self ht f) (ready_of_moved h ht hdone hmoved hclient hhanded hput)

/-- A handler call that raises leaves no registered socket closed. -/
theorem Wiring.raised (h : Wiring clean none r) (hbook : r.Bookkept) (ht : r.fleet.sessions[i]? = some t)
    (hdone : t.conn.state ≠ .done) {io : Io} {f : Frame} (hwithin : Within (r.fleet.frame t io) f)
    (hclient : f.conn.clientSock = t.conn.clientSock)
    (hhanded : clean → t.conn.backendSock = none ∨ SameSocks (r.fleet.frame t io) f) :
    Wiring clean none (Reactor.markDone { r with fleet := r.fleet.put i f } i) := by
  have hwired := h.wired i t ht nofun
  have hput := h.put hbook ht hdone hwithin hclient fun hclean s hs => by
    rcases hhanded hclean with hnone | hsame
    · exact absurd (hs.symm.trans hnone) nofun
    · exact Or.inl (hwithin.live (hwired.live hdone) s (hsame.backend.trans hs))
  refine hput.markDone (Fleet.getElem?_put_self ht f) fun hclean s hs hregistered => ?_
  have hsettled : t.conn.pendingBackendUnregister = none := hwired.settled hdone
  rcases hhanded hclean with hnone | hsame
  · rcases hwithin.pending s hs with hs | hs | ⟨hnew, -⟩
    · exact absurd (hs.symm.trans hsettled) nofun
    · exact absurd (hs.symm.trans hnone) nofun
    · exact absurd (h.consistent.known s hregistered) (Nat.not_lt.mpr hnew)
  · exact absurd (hs.symm.trans (hsame.pending.trans hsettled)) nofun

theorem Wiring.handleEvent (h : Wiring clean none r) (hbook : r.Bookkept) (enabled : Bool) (c : Call)
    (io : Io) (hguard : clean → enabled = true → ∀ t, r.fleet.sessions[i]? = some t →
      HandsOver cfg c (r.fleet.frame t io)) :
    (r.handleEvent cfg i enabled c io).Post (Wiring clean none) fun r => Wiring clean none (r.markDone i) := by
  unfold Reactor.handleEvent
  cases ht : r.fleet.sessions[i]? with
  | none => trivial
  | some t =>
      dsimp only
      cases enabled with
      | false => exact h
      | true =>
          rw [if_pos rfl, Fleet.call_eq_of_getElem? ht]
          by_cases hdone : t.conn.state = .done
          · rw [handle_done (f := r.fleet.frame t io) c hdone]
            change (Reactor.transition i t.conn.state { r with fleet := r.fleet.put i _ }).Post _ _
            rw [Fleet.put_frame ht]
            exact (h.except i).transition ht (h.ready ht)
          · have hidle := (h.wired i t ht nofun).idle
            have hmoved : (handle cfg c (r.fleet.frame t io)).Post _ _ := handle_moved c hidle
            have hlater : (handle cfg c (r.fleet.frame t io)).Post _ _ :=
              handle_advances cfg c (Advances.refl t.conn)
            have hhanded : clean → (handle cfg c (r.fleet.frame t io)).Post _ _ := fun hclean =>
              handle_handed c hidle (hguard hclean rfl t ht)
            cases hhandle : handle cfg c (r.fleet.frame t io) with
            | hung => trivial
            | returned f =>
                rw [hhandle] at hmoved hlater hhanded
                exact h.returned hbook ht hdone hmoved hlater.clientSock hhanded
            | raised f =>
                rw [hhandle] at hmoved hlater hhanded
                exact h.raised hbook ht hdone hmoved hlater.clientSock hhanded

end Changes

end Reactor

end LoadBalancer
