import LoadBalancer.Wiring

/-! Registrations over whole runs of the event loop. The keys of the selector stay in step with the
connections as long as no failure of a backend is followed, within the same handler call, by another one
or by an exception: the single slot for the socket to unregister then loses the first socket. What the
client socket is registered for fits the handlers in two of the states only. -/

namespace LoadBalancer

open Outcome Selector

namespace Reactor

variable {cfg : Config} {clean : Prop} {i : Nat} {r r' : Reactor}

/-! ### Dispatch -/

/-- Every handler call that the branches make meets `G`, in the state it is made in. -/
def CallsMeet (cfg : Config) (G : Call → Frame → Prop) (i : Nat) (io : Call → Io) :
    List (Bool × Call) → Reactor → Prop
  | [], _ => True
  | (enabled, c) :: rest, r =>
      (enabled = true → ∀ t, r.fleet.sessions[i]? = some t → G c (r.fleet.frame t (io c))) ∧
        ∀ r', r.handleEvent cfg i enabled c (io c) = .returned r' → CallsMeet cfg G i io rest r'

/-- Every handler call that the event makes by a dispatch meets `G`. -/
def DispatchMeets (cfg : Config) (G : Call → Frame → Prop) (r : Reactor) : Event → Prop
  | .dispatch i sock mask io => ∀ t, r.fleet.sessions[i]? = some t →
      CallsMeet cfg G i io (branches (sock = t.conn.clientSock) (t.conn.backendSock = some sock) mask) r
  | _ => True

theorem Bookkept.handleEvent (h : r.Bookkept) (enabled : Bool) (c : Call) (io : Io) :
    (r.handleEvent cfg i enabled c io).Post Bookkept Bookkept := by
  have hmaintains : Maintains cfg i (Acts Advances i r) (Acts Advances i r) :=
    maintains_acts (fun _ _ h => ⟨h.toLater, h.done⟩) (fun _ c _ h => handle_advances _ c h) r
  exact (hmaintains.handleEvent (Acts.refl Advances.refl r) enabled c io).mono
    (fun _ hacts => h.acts hacts) fun _ hacts => h.acts hacts

theorem Wiring.runBranches {io : Call → Io} {branches : List (Bool × Call)} (h : Wiring clean none r)
    (hbook : r.Bookkept) (hguard : clean → CallsMeet cfg (HandsOver cfg) i io branches r) :
    (r.runBranches cfg i io branches).Post (Wiring clean none) fun r => Wiring clean none (r.markDone i) := by
  induction branches generalizing r with
  | nil => exact h
  | cons branch rest ih =>
      obtain ⟨enabled, c⟩ := branch
      have hevent := h.handleEvent hbook enabled c (io c) fun hclean => (hguard hclean).1
      have hbook' : (r.handleEvent cfg i enabled c (io c)).Post Bookkept Bookkept :=
        hbook.handleEvent enabled c (io c)
      rw [Reactor.runBranches]
      cases hcall : r.handleEvent cfg i enabled c (io c) with
      | hung => trivial
      | raised r' =>
          rw [hcall] at hevent
          exact hevent
      | returned r' =>
          rw [hcall] at hevent hbook'
          exact ih hevent hbook' fun hclean => (hguard hclean).2 r' hcall

theorem Wiring.scheduleDeadline (h : Wiring clean none r) (i : Nat) :
    Wiring clean none (r.scheduleDeadline i) := by
  unfold Reactor.scheduleDeadline
  split
  · split
    · exact h
    · exact h.of_eq rfl rfl rfl rfl
  · exact h

theorem Wiring.dispatch {sock : Sock} {mask : Mask} {io : Call → Io} (h : Wiring clean none r)
    (hbook : r.Bookkept)
    (hguard : clean → DispatchMeets cfg (HandsOver cfg) r (.dispatch i sock mask io)) :
    (r.dispatch cfg i sock mask io).Post (Wiring clean none) fun r => Wiring clean none (r.markDone i) := by
  unfold Reactor.dispatch
  split
  · trivial
  · next t ht =>
    have hbranches := h.runBranches hbook fun hclean => hguard hclean t ht
    exact (hbranches.andThen fun r hr => hr.flush).andThen fun r (hr : Wiring clean none r) =>
      hr.scheduleDeadline i

/-! ### Accept -/

/-- Connection `t` has joined those of `r`; its client socket is the newest one. -/
structure Joined (fd : Nat) (t : Session) (r r' : Reactor) : Prop where
  sessions : r'.fleet.sessions = r.fleet.sessions ++ [t]
  clientSock : t.conn.clientSock = r.fleet.os.newSock fd
  backendSock : t.conn.backendSock = none
  pending : t.conn.pendingBackendUnregister = none
  reading : t.conn.state = .readingRequest
  handles : ∃ connId, r'.handles = r.handles ++ [⟨connId, false⟩]
  serverSock : r'.serverSock = r.serverSock
  touches : Touches (· = r.fleet.os.newSock fd) (some r.fleet.sessions.length)
    ⟨r.fleet.os.openSock fd, r.fdToKey⟩ r'.selector

section Joined

variable {fd : Nat} {new : Session}

theorem joined_registered (cfg : Config) (addr : Bytes × Nat) (clock : List Time) (connId : Nat)
    {sel : Selector}
    (hregister : Selector.register (r.fleet.os.newSock fd) eventRead (some r.fleet.sessions.length)
      ⟨r.fleet.os.openSock fd, r.fdToKey⟩ = sel.pass) :
    ∃ t, Joined fd t r (registered cfg fd addr clock connId sel r) := by
  have htouches := touches_register eventRead (some r.fleet.sessions.length)
    ⟨r.fleet.os.openSock fd, r.fdToKey⟩ (r.fleet.os.newSock fd)
  rw [hregister] at htouches
  exact ⟨_, rfl, rfl, rfl, rfl, rfl, ⟨connId, rfl⟩, rfl, htouches⟩

theorem Joined.opened (hj : Joined fd new r r') :
    r'.fleet.os.opened = r.fleet.os.newSock fd :: r.fleet.os.opened := hj.touches.opened

theorem evolves_openSock (os : Os) (fd : Nat) : os.Evolves (fun _ => False) (os.openSock fd) :=
  (Os.Evolves.refl _ _).openSock fd

theorem Joined.owns (hj : Joined fd new r r') {s : Sock} (hs : new.conn.Owns s) :
    s = r.fleet.os.newSock fd := by
  rcases hs with hs | hs | hs
  · exact (hj.clientSock.symm.trans hs).symm
  · exact absurd (hj.backendSock.symm.trans hs) nofun
  · exact absurd (hj.pending.symm.trans hs) nofun

theorem Joined.cases (hj : Joined fd new r r') {j : Nat} {t : Session}
    (ht : r'.fleet.sessions[j]? = some t) :
    r.fleet.sessions[j]? = some t ∨ (j = r.fleet.sessions.length ∧ t = new) := by
  rw [hj.sessions] at ht
  exact (getElem?_concat_eq_some_iff.mp ht).imp_right fun ⟨hj, heq⟩ => ⟨hj, heq.symm⟩

/-- No older connection owns the new socket. -/
theorem Wiring.not_owns_new (h : Wiring clean none r) (fd : Nat) {j : Nat} {t : Session}
    (ht : r.fleet.sessions[j]? = some t) : ¬ t.conn.Owns (r.fleet.os.newSock fd) := fun hs =>
  absurd (h.bounded j t _ ht hs) (Nat.lt_irrefl _)

theorem Joined.bounded (hj : Joined fd new r r') (h : Wiring clean none r) (j : Nat) (t : Session)
    (s : Sock) (ht : r'.fleet.sessions[j]? = some t) (hs : t.conn.Owns s) :
    s.ref < r'.fleet.os.nextRef := by
  refine lt_of_lt_of_eq ?_ hj.touches.nextRef.symm
  rcases hj.cases ht with ht | ⟨-, rfl⟩
  · exact Nat.lt_succ_of_lt (h.bounded j t s ht hs)
  · rw [hj.owns hs]
    exact Nat.lt_succ_self _

theorem Joined.disjoint (hj : Joined fd new r r') (h : Wiring clean none r) (j k : Nat) (t u : Session)
    (s : Sock) (hjk : j ≠ k) (ht : r'.fleet.sessions[j]? = some t) (hu : r'.fleet.sessions[k]? = some u)
    (hs : t.conn.Owns s) : ¬ u.conn.Owns s := by
  intro hs'
  rcases hj.cases ht with ht | ⟨rfl, rfl⟩
  · rcases hj.cases hu with hu | ⟨-, rfl⟩
    · exact h.disjoint j k t u s hjk ht hu hs hs'
    · exact h.not_owns_new fd ht (hj.owns hs' ▸ hs)
  · rcases hj.cases hu with hu | ⟨rfl, -⟩
    · exact h.not_owns_new fd hu (hj.owns hs ▸ hs')
    · exact hjk rfl

theorem Joined.owned (hj : Joined fd new r r') (h : Wiring clean none r) (s : Sock) (mask : Mask)
    (d : Option Nat) (hhas : r'.selector.Has s mask d) (hopen : s ∈ r'.fleet.os.opened) :
    (s = r'.serverSock ∧ d = none) ∨ ∃ (j : Nat) (t : Session), d = some j ∧
      r'.fleet.sessions[j]? = some t ∧ t.conn.Owns s := by
  rw [hj.serverSock]
  rcases hj.touches.given s mask d hhas (hj.touches.opened ▸ hopen) with hhas | ⟨rfl, rfl⟩
  · have hlt : s.ref < r.fleet.os.nextRef := h.consistent.known s hhas.registered
    have hopen' : s ∈ r.fleet.os.opened :=
      (evolves_openSock r.fleet.os fd).old s (hj.touches.opened ▸ hopen) hlt
    refine (h.owned s mask d hhas hopen').imp_right ?_
    rintro ⟨j, t, rfl, ht, hs⟩
    refine ⟨j, t, rfl, ?_, hs⟩
    rw [hj.sessions]
    exact getElem?_concat_eq_some_iff.mpr (Or.inl ht)
  · refine Or.inr ⟨_, new, rfl, ?_, Or.inl hj.clientSock⟩
    rw [hj.sessions]
    exact getElem?_concat_eq_some_iff.mpr (Or.inr ⟨rfl, rfl⟩)

theorem Joined.reaped (hj : Joined fd new r r') (h : Wiring clean none r) (hbook : r.Bookkept) (j : Nat)
    (t : Session) (cid : Nat) (s : Sock) (hhandle : r'.handles[j]? = some ⟨cid, true⟩)
    (ht : r'.fleet.sessions[j]? = some t) (hs : t.conn.Owns s) : s ∉ r'.fleet.os.opened := by
  intro hopen
  obtain ⟨connId, hhandles⟩ := hj.handles
  rw [hhandles] at hhandle
  have hhandle : r.handles[j]? = some ⟨cid, true⟩ :=
    (getElem?_concat_eq_some_iff.mp hhandle).resolve_right fun ⟨_, heq⟩ => nomatch heq
  have ht : r.fleet.sessions[j]? = some t := by
    refine (hj.cases ht).resolve_right fun ⟨hj, _⟩ => ?_
    obtain ⟨hlt, -⟩ := List.getElem?_eq_some_iff.mp hhandle
    rw [hbook.length, hj] at hlt
    exact Nat.lt_irrefl _ hlt
  rw [hj.opened] at hopen
  rcases List.mem_cons.mp hopen with rfl | hopen
  · exact h.not_owns_new fd ht hs
  · exact h.reaped j t cid s hhandle ht hs hopen

/-- The new connection is wired, and the others stay so. -/
theorem Joined.wired (hj : Joined fd new r r') (h : Wiring clean none r)
    (hhas : r'.selector.Has (r.fleet.os.newSock fd) eventRead (some r.fleet.sessions.length)) (j : Nat)
    (t : Session) (ht : r'.fleet.sessions[j]? = some t) : ConnWired clean r'.selector j t.conn := by
  rcases hj.cases ht with ht | ⟨rfl, rfl⟩
  · have hkept := (h.wired j t ht nofun).evolves (evolves_openSock _ fd) fun _ hfalse => hfalse.elim
    refine hkept.touches hj.touches ?_
    rintro s rfl
    exact h.not_owns_new fd ht
  · refine ⟨fun _ => ?_, fun _ => hj.pending, fun _ s hs => ?_, fun _ s hs => ?_,
      fun _ => hj.backendSock, ?_, ?_⟩
    · rw [hj.clientSock, hj.reading]
      exact ⟨hj.opened ▸ List.mem_cons_self, hhas⟩
    · exact absurd (hj.pending.symm.trans hs) nofun
    · exact absurd (hj.backendSock.symm.trans hs) nofun
    · rw [hj.reading]
      exact nofun
    · rw [hj.reading]
      exact nofun

end Joined

/-- A new connection whose client socket has been registered. -/
theorem Wiring.registered {fd : Nat} {addr : Bytes × Nat} {clock : List Time} {connId : Nat}
    {sel : Selector} (h : Wiring clean none r) (hbook : r.Bookkept)
    (hregister : Selector.register (r.fleet.os.newSock fd) eventRead (some r.fleet.sessions.length)
      ⟨r.fleet.os.openSock fd, r.fdToKey⟩ = sel.pass) :
    Wiring clean none (registered cfg fd addr clock connId sel r) := by
  obtain ⟨new, hj⟩ := joined_registered cfg addr clock connId hregister
  refine ⟨?_, hj.bounded h, hj.disjoint h, ?_, hj.owned h, hj.reaped h hbook, ?_, ?_⟩
  · exact hj.touches.consistent (h.consistent.evolves (evolves_openSock _ fd))
  · intro j t ht
    rcases hj.cases ht with ht | ⟨-, rfl⟩
    · exact h.apart j t ht
    · rw [hj.backendSock, hj.pending]
      exact ⟨nofun, nofun⟩
  · intro hclean s hs
    refine Or.inl ?_
    rw [hj.opened]
    rcases hj.touches.origin s hs with hs | ⟨rfl, -⟩
    · exact List.mem_cons_of_mem _ (h.opened hclean hs)
    · exact List.mem_cons_self
  · exact fun j t ht _ => hj.wired h (has_of_register hregister) j t ht

/-! ### Timeouts and reaping -/

theorem Wiring.expireEntry (h : Wiring clean none r) (hbook : r.Bookkept) {now : Time} {io : Nat → Io}
    {e : Deadline} (hstep : r.expireEntry cfg now io e = some r') : Wiring clean none r' := by
  rcases expireEntry_cases hstep with ⟨-, rfl⟩ | ⟨i, t, f, hvalid, hends, rfl⟩
  · exact h
  · obtain ⟨-, ht, hdone, -⟩ := validEntry?_eq_some_iff.mp hvalid
    have hwired := h.wired i t ht nofun
    have hsame : SameSocks (r.fleet.frame t (io i)) f := by
      refine hends.of_post (P := SameSocks (r.fleet.frame t (io i))) ?_
      exact (handleTimeout_sameSocks _).mono (fun _ h => h) fun _ h => ⟨h.os, h.backend, h.pending⟩
    have hclient : f.conn.clientSock = t.conn.clientSock := by
      refine hends.of_post (P := fun f => f.conn.clientSock = t.conn.clientSock) ?_
      exact (handle_advances cfg .timeout (f := r.fleet.frame t (io i)) (Advances.refl t.conn)).mono
        (fun _ h => h.clientSock) fun _ h => h.clientSock
    have hput := h.put hbook ht hdone hsame.within hclient fun _ s hs =>
      Or.inl (hsame.within.live (hwired.live hdone) s (hsame.backend.trans hs))
    refine (hput.close fun u hu => ?_).of_eq rfl rfl rfl rfl
    obtain rfl := Fleet.eq_sessionOf_of_put ht hu
    refine wired_of_done (done_of_timeout hends) fun _ s hs => ?_
    exact absurd (hs.symm.trans (hsame.pending.trans (hwired.settled hdone))) nofun

/-- The keys after the sockets of a list have been unregistered. -/
theorem unregisterAll (sel : Selector) (socks : List Sock) :
    Touches (· ∈ socks) none sel (socks.foldl unregisterQuietly sel) ∧
      ∀ s, (socks.foldl unregisterQuietly sel).Registered s → sel.Registered s ∧ s ∉ socks := by
  induction socks generalizing sel with
  | nil => exact ⟨.refl _ _ _, fun s hs => ⟨hs, List.not_mem_nil⟩⟩
  | cons sock rest ih =>
      have hone : unregisterQuietly sel sock = (sel.unregister sock).selector := by
        rw [unregisterQuietly, unregister_except_pass]
        rfl
      obtain ⟨htouches, hregistered⟩ := ih (unregisterQuietly sel sock)
      rw [List.foldl_cons]
      refine ⟨?_, fun s hs => ?_⟩
      · refine Touches.trans ?_ (htouches.mono fun s hs => List.mem_cons_of_mem _ hs)
        rw [hone]
        exact (Touches.refl _ _ _).unregister List.mem_cons_self
      · obtain ⟨hbefore, hnot⟩ := hregistered s hs
        rw [hone] at hbefore
        refine ⟨registered_of_unregister hbefore, fun hmem => ?_⟩
        rcases List.mem_cons.mp hmem with rfl | hmem
        · exact not_registered_unregister sel s hbefore
        · exact hnot hmem

theorem mem_opened_closeAll {os : Os} {socks : List Sock} {s : Sock} :
    s ∈ (socks.foldl Os.close os).opened ↔ s ∈ os.opened ∧ s ∉ socks := by
  induction socks generalizing os with
  | nil => simp
  | cons sock rest ih =>
      rw [List.foldl_cons, ih, Os.mem_opened_close, List.mem_cons, not_or, and_assoc]

theorem mem_currentSocks {c : ProxyConnection} {s : Sock} :
    s ∈ currentSocks c ↔ c.clientSock = s ∨ c.backendSock = some s := by
  rw [currentSocks, List.mem_cons, Option.mem_toList, eq_comm]

/-- The sockets that `cleanup` closes are those that the connection owns. -/
theorem mem_cleanup {c : ProxyConnection} {s : Sock} :
    s ∈ currentSocks c ++ c.pendingBackendUnregister.toList ↔ c.Owns s := by
  rw [List.mem_append, mem_currentSocks, Option.mem_toList, or_assoc]
  rfl

theorem Wiring.reapOne (h : Wiring clean none r) {fd : Nat} (hdead : r.Dead fd) :
    Wiring clean none (r.reapOne fd) := by
  unfold Reactor.reapOne
  split
  · exact h
  · next i hi =>
    split
    · next t handle ht hhandle =>
      have hdone := hdead i t hi ht
      have hwired := h.wired i t ht nofun
      obtain ⟨htouches, hunregistered⟩ := unregisterAll r.selector (currentSocks t.conn)
      generalize (currentSocks t.conn).foldl unregisterQuietly r.selector = sel at htouches hunregistered
      have hclosed : ∀ s, s ∈ (cleanup t.conn sel.os).opened ↔ s ∈ r.fleet.os.opened ∧ ¬ t.conn.Owns s := by
        intro s
        rw [cleanup, mem_opened_closeAll, mem_cleanup, htouches.opened]
        rfl
      have hevolves : sel.os.Evolves t.conn.Owns (cleanup t.conn sel.os) :=
        (Os.Evolves.refl _ _).closeAll fun s hs => mem_cleanup.mp hs
      have hnext : (cleanup t.conn sel.os).nextRef = r.fleet.os.nextRef :=
        (Os.nextRef_closeAll _ _).trans htouches.nextRef
      refine ⟨?_, ?_, h.disjoint, h.apart, ?_, ?_, ?_, ?_⟩
      · exact (htouches.consistent h.consistent).evolves hevolves
      · intro j u s hu hs
        exact lt_of_lt_of_eq (h.bounded j u s hu hs) hnext.symm
      · intro s mask d hhas hopen
        obtain ⟨hopen, hnot⟩ := (hclosed s).mp hopen
        rcases htouches.given s mask d hhas hopen with hhas | ⟨hs, -⟩
        · exact h.owned s mask d hhas hopen
        · exact absurd (mem_cleanup.mp (List.mem_append_left _ hs)) hnot
      · intro j u cid s hj hu hs hopen
        obtain ⟨hopen, hnot⟩ := (hclosed s).mp hopen
        by_cases hij : i = j
        · subst hij
          obtain rfl := Option.some.inj (ht.symm.trans hu)
          exact hnot hs
        · have hj : r.handles[j]? = some ⟨cid, true⟩ := (List.getElem?_set_ne hij).symm.trans hj
          exact h.reaped j u cid s hj hu hs hopen
      · intro hclean s hs
        obtain ⟨hregistered, hnot⟩ := hunregistered s hs
        have hopen := h.opened hclean hregistered
        refine Or.inl ((hclosed s).mpr ⟨hopen, ?_⟩)
        rintro (hclient | hbackend | hpending)
        · exact hnot (mem_currentSocks.mpr (Or.inl hclient))
        · exact hnot (mem_currentSocks.mpr (Or.inr hbackend))
        · exact hwired.flushed hclean s hpending hregistered
      · intro j u hu _
        by_cases hij : i = j
        · subst hij
          obtain rfl := Option.some.inj (ht.symm.trans hu)
          exact wired_of_done hdone fun hclean s hs hregistered =>
            hwired.flushed hclean s hs (hunregistered s hregistered).1
        · have hown : ∀ s, t.conn.Owns s → ¬ u.conn.Owns s := fun s => h.disjoint i j t u s hij ht hu
          refine ((h.wired j u hu nofun).touches htouches fun s hs => ?_).evolves hevolves hown
          exact hown s (mem_cleanup.mp (List.mem_append_left _ hs))
    · exact h

/-! ### Runs -/

/-- The state in which the listener has been registered, whatever it took. -/
theorem wiring_of_listener (clean : Prop) (router : Router) {listener : Sock} {os : Os} {sel : Selector}
    (hepoll : os.epoll = Dict.empty) (htouches : Touches (· = listener) none ⟨os, .empty⟩ sel) :
    Wiring clean none
      { fleet := { Fleet.init router with os := sel.os }
        fdToKey := sel.fdToKey
        serverSock := listener
        connections := Dict.empty
        deadlines := HeapQueue.empty
        connById := Dict.empty
        handles := []
        timeouts := [] } := by
  have hnone : ∀ s, ¬ (FdToKey.empty).Registered s := by
    rintro s ⟨key, hkey, -⟩
    rw [FdToKey.get?_empty] at hkey
    cases hkey
  have hempty : Selector.Consistent ⟨os, .empty⟩ := by
    refine ⟨fun fd key hkey => absurd (FdToKey.registered_of_get? hkey) (hnone _), fun fd mask hmask => ?_,
      fun s hs => absurd hs (hnone s)⟩
    rw [show os.epoll.get? fd = none by rw [hepoll]; rfl] at hmask
    cases hmask
  have hno : ∀ (j : Nat) (t : Session), ¬ ([] : List Session)[j]? = some t := by
    intro j t ht
    rw [List.getElem?_nil] at ht
    cases ht
  refine ⟨htouches.consistent hempty, fun j t _ ht => absurd ht (hno j t),
    fun j _ t _ _ _ ht => absurd ht (hno j t), fun j t ht => absurd ht (hno j t),
    fun s mask d hhas hopen => ?_, fun j t _ _ _ ht => absurd ht (hno j t),
    fun _ s hs => Or.inl ?_, fun j t ht => absurd ht (hno j t)⟩
  · rcases htouches.given s mask d hhas (htouches.opened ▸ hopen) with hhas | ⟨rfl, rfl⟩
    · exact absurd hhas.registered (hnone s)
    · exact Or.inl ⟨rfl, rfl⟩
  · rcases htouches.origin s hs with hs | ⟨rfl, hopen⟩
    · exact absurd hs (hnone s)
    · exact htouches.opened ▸ hopen

theorem Wiring.init (clean : Prop) (router : Router) (fd : Nat) :
    Wiring clean none (Reactor.init router fd) :=
  wiring_of_listener clean router rfl (touches_register eventRead none ⟨Os.init.openSock fd, .empty⟩ _)

theorem Wiring.step (h : Wiring clean none r) (hbook : r.Bookkept) {e : Event}
    (hguard : clean → DispatchMeets cfg (HandsOver cfg) r e) (hstep : r.step cfg e = some r') :
    Wiring clean none r' := by
  cases e with
  | selectTimeout reading =>
      obtain rfl := Option.some.inj hstep
      exact h.of_eq rfl rfl rfl rfl
  | accept fd addr clock connId =>
      obtain ⟨-, sel, hregister, rfl⟩ := accept_cases hstep
      exact (h.registered hbook hregister).scheduleDeadline _
  | dispatch i sock mask io => exact of_step_dispatch (h.dispatch hbook hguard) hstep
  | expireTimeouts reading io =>
      refine (expireTimeouts_induction (P := fun _ r => Wiring clean none r ∧ r.Bookkept) hstep ?_ ?_).1
      · exact ⟨h.of_eq rfl rfl rfl rfl, hbook.length, hbook.distinct, hbook.reaped, hbook.listed, hbook.byId⟩
      · exact fun e rest r₁ r₂ h₁ _ hentry => ⟨h₁.1.expireEntry h₁.2 hentry, h₁.2.expireEntry hentry⟩
  | reap =>
      obtain rfl := Option.some.inj hstep
      refine (reap_induction (P := fun r => Wiring clean none r ∧ r.Bookkept) ⟨h, hbook⟩ ?_).1
      exact fun r fd hr hdead => ⟨hr.1.reapOne hdead, hr.2.reapOne hdead⟩
  | mark m =>
      obtain rfl := Option.some.inj hstep
      exact h.of_eq rfl rfl rfl rfl

/-- The invariant after every run, without what only holds as long as no failed socket stays behind. -/
theorem wiring_of_run {router : Router} {fd : Nat} {events : List Event}
    (hrun : Machine.run (step cfg) (init router fd) events = some r) : Wiring False none r := by
  refine (Machine.run_invariant (fun r => Wiring False none r ∧ r.Bookkept) ?_ ?_ hrun).1
  · exact fun r e r' h hstep => ⟨h.1.step h.2 False.elim hstep, h.2.step hstep⟩
  · exact ⟨.init False router fd, .init router fd⟩

/-- The invariant after a run whose handler calls all hand over. -/
theorem wiring_of_guarded {router : Router} {fd : Nat} {events : List Event}
    (hguard : Machine.Guarded (step cfg) (DispatchMeets cfg (HandsOver cfg)) (init router fd) events)
    (hrun : Machine.run (step cfg) (init router fd) events = some r) :
    Wiring True none r ∧ r.Bookkept := by
  refine Machine.run_invariant_of_guarded (fun r => Wiring True none r ∧ r.Bookkept) ?_ ?_ hguard hrun
  · exact fun r e r' h hG hstep => ⟨h.1.step h.2 (fun _ => hG) hstep, h.2.step hstep⟩
  · exact ⟨.init True router fd, .init router fd⟩

/-! ### Registrations in step with the sockets -/

/-- The socket is registered for these events of connection `i`, and `epoll` watches it. -/
def Monitored (r : Reactor) (i : Nat) (s : Sock) (mask : Mask) : Prop :=
  r.selector.Has s mask (some i) ∧ r.fleet.os.epoll.get? s.fd = some mask

/-- Every registered socket is open, and is the listener or a current socket of a connection that has not
been reaped; every connection that waits for a socket has it registered for what it waits for. -/
structure KeysInStep (r : Reactor) : Prop where
  registered : ∀ s, r.selector.Registered s → s ∈ r.fleet.os.opened ∧
    (s = r.serverSock ∨ ∃ (i : Nat) (t : Session) (cid : Nat), r.fleet.sessions[i]? = some t ∧
      r.handles[i]? = some ⟨cid, false⟩ ∧ (t.conn.clientSock = s ∨ t.conn.backendSock = some s))
  backend : ∀ (i : Nat) (t : Session), r.fleet.sessions[i]? = some t →
    (t.conn.state = .connectingToBackend ∨ t.conn.state = .forwardingRequest →
      ∃ s, t.conn.backendSock = some s ∧ r.Monitored i s eventWrite) ∧
    (t.conn.state = .readingResponse → ∃ s, t.conn.backendSock = some s ∧ r.Monitored i s eventRead)
  client : ∀ (i : Nat) (t : Session), r.fleet.sessions[i]? = some t →
    (t.conn.state = .readingRequest → r.Monitored i t.conn.clientSock eventRead) ∧
    (t.conn.state = .forwardingResponse → r.Monitored i t.conn.clientSock eventWrite)

theorem Wiring.monitored {except : Option Nat} (h : Wiring clean except r) {s : Sock} {mask : Mask}
    (hhas : r.selector.Has s mask (some i)) (hopen : s ∈ r.fleet.os.opened) : r.Monitored i s mask :=
  ⟨hhas, h.consistent.watched _ _ hhas hopen⟩

theorem keysInStep_of_wiring (h : Wiring True none r) (hbook : r.Bookkept) : r.KeysInStep := by
  refine ⟨fun s hs => ⟨h.opened trivial hs, ?_⟩, fun i t ht => ?_, fun i t ht => ?_⟩
  · obtain ⟨⟨s', mask, d⟩, hkey, rfl⟩ := id hs
    refine (h.owned _ mask d hkey (h.opened trivial hs)).imp And.left ?_
    rintro ⟨i, t, -, ht, hown⟩
    obtain ⟨⟨cid, reaped⟩, hhandle⟩ : ∃ handle, r.handles[i]? = some handle := by
      refine ⟨_, List.getElem?_eq_getElem ?_⟩
      rw [hbook.length]
      exact (List.getElem?_eq_some_iff.mp ht).1
    cases reaped with
    | true => exact absurd (h.opened trivial hs) (h.reaped i t cid _ hhandle ht hown)
    | false =>
        refine ⟨i, t, cid, ht, hhandle, ?_⟩
        rcases hown with hclient | hbackend | hpending
        · exact Or.inl hclient
        · exact Or.inr hbackend
        · exact absurd hs ((h.wired i t ht nofun).flushed trivial _ hpending)
  · have hwired := h.wired i t ht nofun
    have hwatched : ∀ mask, backendMask t.conn.state = some mask →
        ∃ s, t.conn.backendSock = some s ∧ r.Monitored i s mask := by
      intro mask hmask
      obtain ⟨s, hs, hhas⟩ := hwired.watched trivial mask hmask
      exact ⟨s, hs, h.monitored hhas (hwired.live (ne_done_of_mask hmask) s hs)⟩
    refine ⟨fun hstate => hwatched eventWrite ?_, fun hstate => hwatched eventRead ?_⟩
    · rcases hstate with hstate | hstate <;> rw [hstate] <;> rfl
    · rw [hstate]
      rfl
  · have hclient := (h.wired i t ht nofun).client
    refine ⟨fun hstate => ?_, fun hstate => ?_⟩
    · rw [hstate] at hclient
      obtain ⟨hopen, hhas⟩ := hclient nofun
      exact h.monitored hhas hopen
    · rw [hstate] at hclient
      obtain ⟨hopen, hhas⟩ := hclient nofun
      exact h.monitored hhas hopen

/-- **Registrations in step.** If, in a run of the event loop, every failure of a backend that a handler
finds is followed within the call by a connect that is accepted, or by an error response that raises
nothing, then after every step each registered socket is open and belongs to the listener or to a
connection that has not been reaped, and each connection has its sockets registered for what its state
waits for. -/
theorem keys_in_step {router : Router} {fd : Nat} {events : List Event}
    (hguard : Machine.Guarded (step cfg) (DispatchMeets cfg (HandsOver cfg)) (init router fd) events)
    (hrun : Machine.run (step cfg) (init router fd) events = some r) : r.KeysInStep := by
  obtain ⟨hwiring, hbook⟩ := wiring_of_guarded hguard hrun
  exact keysInStep_of_wiring hwiring hbook

/-- Answers with which every retry is accepted and an error response raises nothing, whatever fails. -/
structure Retries (io : Io) : Prop where
  connect : ∀ attempt, (io.connect attempt).Accepted
  sendall : ∀ n, io.sendall ≠ .raises n

theorem Retries.handsOver {c : Call} {f : Frame} (h : Retries f.io) : HandsOver cfg c f := by
  intro _
  unfold FailsCleanly
  split
  · exact h.connect _
  · exact h.sendall

theorem Retries.dispatchMeets {io : Io} (h : Retries io) (i : Nat) (sock : Sock) (mask : Mask) (r : Reactor) :
    DispatchMeets cfg (HandsOver cfg) r (.dispatch i sock mask fun _ => io) := by
  have hcalls : ∀ branches r, CallsMeet cfg (HandsOver cfg) i (fun _ => io) branches r := by
    intro branches
    induction branches with
    | nil => exact fun _ => trivial
    | cons branch rest ih => exact fun r => ⟨fun _ t _ => Retries.handsOver h, fun r' _ => ih r'⟩
  exact fun t _ => hcalls _ r

/-- A client whose request is routed to a backend whose connect fails, is sent to the other one, and is
answered. -/
def retried : List Event :=
  [.accept 7 (PyText.ascii "10.0.0.1", 50000) [] 5,
    .dispatch 0 ⟨1, 7⟩ eventRead fun _ =>
      { Fleet.quiet with
        recv := .data (PyText.ascii "GET / HTTP/1.1\r\n\r\n")
        connect := fun _ => .errno 9 115 },
    .dispatch 0 ⟨2, 9⟩ eventWrite fun _ =>
      { Fleet.quiet with
        soError := .errno 111
        connect := fun _ => .errno 10 115 },
    .dispatch 0 ⟨3, 10⟩ eventWrite fun _ => { Fleet.quiet with send := .sent 4096 },
    .dispatch 0 ⟨3, 10⟩ eventRead fun _ =>
      { Fleet.quiet with recv := .data (PyText.ascii "HTTP/1.1 200 OK\r\nContent-Length: 0\r\n\r\n") },
    .dispatch 0 ⟨1, 7⟩ eventWrite fun _ => { Fleet.quiet with send := .sent 4096 }, .reap]

theorem keys_in_step_retried :
    ∃ r, Machine.run (step .default) (init Fleet.twoBackends 3) retried = some r ∧ r.KeysInStep := by
  obtain ⟨r, hrun⟩ : ∃ r, Machine.run (step .default) (init Fleet.twoBackends 3) retried = some r :=
    Option.isSome_iff_exists.mp (by decide +kernel)
  have hguard : ∀ e ∈ retried, ∀ r, DispatchMeets .default (HandsOver .default) r e := by
    simp only [retried, List.forall_mem_cons]
    refine ⟨fun _ => trivial, Retries.dispatchMeets ⟨fun _ => ?_, fun _ => ?_⟩ _ _ _,
      Retries.dispatchMeets ⟨fun _ => ?_, fun _ => ?_⟩ _ _ _,
      Retries.dispatchMeets ⟨fun _ => ?_, fun _ => ?_⟩ _ _ _,
      Retries.dispatchMeets ⟨fun _ => ?_, fun _ => ?_⟩ _ _ _,
      Retries.dispatchMeets ⟨fun _ => ?_, fun _ => ?_⟩ _ _ _, fun _ => trivial, nofun⟩
    all_goals first
      | exact SendallResult.noConfusion
      | simp [ConnectResult.Accepted, Fleet.quiet, connectInProgress]
  exact ⟨r, hrun, keys_in_step (Machine.guarded_of_mem hguard _) hrun⟩

/-- A client is accepted and its request routed to a backend whose connect takes its time. The connect
fails, and the retry on the other backend is refused at once. -/
def refusedTwice : List Event :=
  [.accept 7 (PyText.ascii "10.0.0.1", 50000) [] 5,
    .dispatch 0 ⟨1, 7⟩ eventRead fun _ =>
      { Fleet.quiet with
        recv := .data (PyText.ascii "GET / HTTP/1.1\r\n\r\n")
        connect := fun _ => .errno 9 115 },
    .dispatch 0 ⟨2, 9⟩ eventWrite fun _ =>
      { Fleet.quiet with
        soError := .errno 111
        connect := fun _ => .errno 10 111 }]

/-- The socket of the first attempt has been closed, and is registered for good. -/
theorem stale_key_refusedTwice :
    ∃ r, Machine.run (step .default) (init Fleet.twoBackends 3) refusedTwice = some r ∧ ¬ r.KeysInStep := by
  obtain ⟨r, hrun, hview⟩ := Option.map_eq_some_iff.mp (show
    (Machine.run (step .default) (init Fleet.twoBackends 3) refusedTwice).map
      (fun r => (r.fdToKey.get? 9, decide ((⟨2, 9⟩ : Sock) ∈ r.fleet.os.opened))) =
        some (some ⟨⟨2, 9⟩, eventWrite, some 0⟩, false) by decide +kernel)
  obtain ⟨hkey, hclosed⟩ := Prod.mk.inj hview
  refine ⟨r, hrun, fun h => of_decide_eq_false hclosed (h.registered ⟨2, 9⟩ ?_).1⟩
  exact ⟨_, hkey, rfl⟩

/-! ### Interest that the handlers ignore -/

/-- The state in which a handler acts on its event. -/
def ActsIn : Call → State → Prop
  | .timeout, state => state ≠ .done
  | .clientReadable, state => state = .readingRequest
  | .clientWritable, state => state = .forwardingResponse
  | .backendReadable, state => state = .readingResponse
  | .backendWritable, state => state = .connectingToBackend ∨ state = .forwardingRequest

/-- In every other state the handler returns at once. -/
theorem handle_of_not_actsIn {c : Call} {f : Frame} (h : ¬ ActsIn c f.conn.state) :
    handle cfg c f = .returned f := by
  cases c with
  | timeout => exact handle_done .timeout (not_not.mp h)
  | clientReadable => exact if_pos h
  | clientWritable => exact if_pos h
  | backendReadable => exact if_pos h
  | backendWritable =>
      obtain ⟨hconnecting, hforwarding⟩ := not_or.mp h
      rw [handle, handleBackendWritable]
      split
      · next hstate => exact absurd hstate hconnecting
      · next hstate => exact absurd hstate hforwarding
      · rfl

/-- Each event of the mask on this socket is one on which a handler of the connection acts. -/
def Heeds (c : ProxyConnection) (s : Sock) (mask : Mask) : Prop :=
  (mask.read = true → (s = c.clientSock ∧ ActsIn .clientReadable c.state) ∨
    (c.backendSock = some s ∧ ActsIn .backendReadable c.state)) ∧
  (mask.write = true → (s = c.clientSock ∧ ActsIn .clientWritable c.state) ∨
    (c.backendSock = some s ∧ ActsIn .backendWritable c.state))

/-- Whatever the selector has registered for connection `i`, its handlers act on in the present state. -/
def NoIgnoredInterest (r : Reactor) (i : Nat) (c : ProxyConnection) : Prop :=
  ∀ s mask, r.selector.Has s mask (some i) → Heeds c s mask

/-- In the two states in which nothing is ignored, only the client socket is registered. -/
theorem Wiring.key_of_idle (h : Wiring clean none r) {t : Session} (ht : r.fleet.sessions[i]? = some t)
    (hstate : t.conn.state = .readingRequest ∨ t.conn.state = .forwardingResponse) {s : Sock} {mask : Mask}
    (hhas : r.selector.Has s mask (some i)) (hopen : s ∈ r.fleet.os.opened) :
    s = t.conn.clientSock ∧ mask = clientMask t.conn.state := by
  have hwired := h.wired i t ht nofun
  have hdone : t.conn.state ≠ .done := by
    rcases hstate with hstate | hstate <;> rw [hstate] <;> exact State.noConfusion
  have hown : t.conn.Owns s := by
    rcases h.owned s mask _ hhas hopen with ⟨-, ⟨⟩⟩ | ⟨j, u, hj, hu, hown⟩
    obtain rfl := Option.some.inj hj
    obtain rfl := Option.some.inj (ht.symm.trans hu)
    exact hown
  rcases hown with rfl | hbackend | hpending
  · have hkey := Option.some.inj (hhas.symm.trans (hwired.client hdone).2)
    exact ⟨rfl, (Key.mk.inj hkey).2.1⟩
  · rcases hstate with hstate | hstate
    · exact absurd (hbackend.symm.trans (hwired.idle hstate)) nofun
    · exact absurd hhas.registered (hwired.released hstate s hbackend)
  · exact absurd (hpending.symm.trans (hwired.settled hdone)) nofun

/-- **Interest that is heeded.** In every state that the event loop can reach, nothing is registered for a
connection that is not `DONE` which its handlers ignore if and only if it reads its request or forwards
its response, and no socket that is registered for it has been closed. In all other states the client
socket is still registered for reading. -/
theorem interest_heeded_iff {router : Router} {fd : Nat} {events : List Event}
    (hrun : Machine.run (step cfg) (init router fd) events = some r) {t : Session}
    (ht : r.fleet.sessions[i]? = some t) (hdone : t.conn.state ≠ .done) :
    r.NoIgnoredInterest i t.conn ↔
      (t.conn.state = .readingRequest ∨ t.conn.state = .forwardingResponse) ∧
      ∀ s mask, r.selector.Has s mask (some i) → mask.read = true ∨ mask.write = true →
        s ∈ r.fleet.os.opened := by
  have h := wiring_of_run hrun
  have hwired := h.wired i t ht nofun
  obtain ⟨hopen, hclient⟩ := hwired.client hdone
  have hapart := (h.apart i t ht).1
  constructor
  · intro hheeds
    refine ⟨?_, fun s mask hhas hevent => ?_⟩
    · by_cases hstate : t.conn.state = .forwardingResponse
      · exact Or.inr hstate
      · rw [clientMask_of_ne hstate] at hclient
        rcases (hheeds _ _ hclient).1 rfl with ⟨-, hreading⟩ | ⟨hbackend, -⟩
        · exact Or.inl hreading
        · exact absurd hbackend hapart
    · have hcurrent : s = t.conn.clientSock ∨ t.conn.backendSock = some s := by
        rcases hevent with hread | hwrite
        · exact ((hheeds s mask hhas).1 hread).imp And.left And.left
        · exact ((hheeds s mask hhas).2 hwrite).imp And.left And.left
      rcases hcurrent with rfl | hbackend
      · exact hopen
      · exact hwired.live hdone s hbackend
  · rintro ⟨hstate, hlive⟩ s mask hhas
    have hkey : mask.read = true ∨ mask.write = true →
        s = t.conn.clientSock ∧ mask = clientMask t.conn.state := fun hevent =>
      h.key_of_idle ht hstate hhas (hlive s mask hhas hevent)
    refine ⟨fun hread => Or.inl ?_, fun hwrite => Or.inl ?_⟩
    · obtain ⟨rfl, rfl⟩ := hkey (Or.inl hread)
      rcases hstate with hstate | hstate
      · exact ⟨rfl, hstate⟩
      · rw [hstate] at hread
        cases hread
    · obtain ⟨rfl, rfl⟩ := hkey (Or.inr hwrite)
      rcases hstate with hstate | hstate
      · rw [hstate] at hwrite
        cases hwrite
      · exact ⟨rfl, hstate⟩

theorem interest_heeded_retried :
    ∃ (r : Reactor) (t : Session), Machine.run (step .default) (init Fleet.twoBackends 3)
        (retried.take 5) = some r ∧ r.fleet.sessions[0]? = some t ∧ t.conn.state ≠ .done ∧
      (r.NoIgnoredInterest 0 t.conn ↔
        (t.conn.state = .readingRequest ∨ t.conn.state = .forwardingResponse) ∧
        ∀ s mask, r.selector.Has s mask (some 0) → mask.read = true ∨ mask.write = true →
          s ∈ r.fleet.os.opened) := by
  obtain ⟨r, hrun, hview⟩ := Option.bind_eq_some_iff.mp (show
    (Machine.run (step .default) (init Fleet.twoBackends 3) (retried.take 5)).bind
      (fun r => r.fleet.sessions[0]?.map fun t => t.conn.state) = some .forwardingResponse by decide +kernel)
  obtain ⟨t, ht, hstate⟩ := Option.map_eq_some_iff.mp hview
  have hdone : t.conn.state ≠ .done := by
    rw [hstate]
    exact State.noConfusion
  exact ⟨r, t, hrun, ht, hdone, interest_heeded_iff hrun ht hdone⟩

/-- While the request is on its way to the backend, the client socket is registered for reading, which
no handler does anything about. -/
theorem ignored_interest_connecting :
    ∃ (r : Reactor) (t : Session), Machine.run (step .default) (init Fleet.twoBackends 3)
        (refusedTwice.take 2) = some r ∧ r.fleet.sessions[0]? = some t ∧ t.conn.state ≠ .done ∧
      ¬ r.NoIgnoredInterest 0 t.conn := by
  obtain ⟨r, hrun, hview⟩ := Option.bind_eq_some_iff.mp (show
    (Machine.run (step .default) (init Fleet.twoBackends 3) (refusedTwice.take 2)).bind
      (fun r => r.fleet.sessions[0]?.map fun t =>
        (t.conn.state, t.conn.clientSock, t.conn.backendSock, r.fdToKey.get? 7)) =
      some (.connectingToBackend, ⟨1, 7⟩, some ⟨2, 9⟩, some ⟨⟨1, 7⟩, eventRead, some 0⟩) by decide +kernel)
  obtain ⟨t, ht, hsocks⟩ := Option.map_eq_some_iff.mp hview
  obtain ⟨hstate, hclient, hbackend, hkey⟩ : t.conn.state = .connectingToBackend ∧
      t.conn.clientSock = ⟨1, 7⟩ ∧ t.conn.backendSock = some ⟨2, 9⟩ ∧
      r.fdToKey.get? 7 = some ⟨⟨1, 7⟩, eventRead, some 0⟩ := by
    simpa only [Prod.mk.injEq] using hsocks
  refine ⟨r, t, hrun, ht, ?_, fun hheeds => ?_⟩
  · rw [hstate]
    exact State.noConfusion
  · rcases (hheeds ⟨1, 7⟩ eventRead hkey).1 rfl with ⟨-, hreading⟩ | ⟨hsame, -⟩
    · exact absurd (hreading.symm.trans hstate) State.noConfusion
    · exact absurd (hsame.symm.trans hbackend) (by decide)

end Reactor

end LoadBalancer
