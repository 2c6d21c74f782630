import Mathlib.Algebra.Order.Ring.Nat
import Mathlib.Algebra.Order.BigOperators.Group.List
import LoadBalancer.Dict

/-! What the operating system keeps about the process's sockets: which are open, under which
descriptor number each, and which events `epoll` watches. A number is free for the next socket as soon
as its socket is closed, and closing a socket takes its number out of `epoll`. -/

namespace LoadBalancer

/-- A socket object: its identity, and the descriptor number it has while it is open. -/
structure Sock where
  ref : Nat
  fd : Nat
  deriving DecidableEq

/-- A combination of `EVENT_READ` and `EVENT_WRITE`. -/
structure Mask where
  read : Bool
  write : Bool
  deriving DecidableEq

def eventRead : Mask := ⟨true, false⟩

def eventWrite : Mask := ⟨false, true⟩

structure Os where
  nextRef : Nat
  opened : List Sock
  epoll : Dict Nat Mask
  distinct : (opened.map Sock.fd).Nodup
  fresh : ∀ s ∈ opened, s.ref < nextRef
  watched : ∀ fd mask, epoll.get? fd = some mask → ∃ s ∈ opened, s.fd = fd

namespace Os

def init : Os where
  nextRef := 0
  opened := []
  epoll := Dict.empty
  distinct := List.nodup_nil
  fresh := by simp
  watched := by simp

/-- The number given to the next socket: the one asked for if it is free, else one above all. -/
def allocate (os : Os) (fd : Nat) : Nat :=
  if fd ∈ os.opened.map Sock.fd then (os.opened.map Sock.fd).sum + 1 else fd

theorem allocate_not_mem (os : Os) (fd : Nat) : os.allocate fd ∉ os.opened.map Sock.fd := by
  unfold allocate
  split
  · intro hmem
    have := List.single_le_sum (fun _ _ => Nat.zero_le _) _ hmem
    omega
  · assumption

/-- The socket that `socket.socket()` or `accept()` creates. -/
def newSock (os : Os) (fd : Nat) : Sock := ⟨os.nextRef, os.allocate fd⟩

def openSock (os : Os) (fd : Nat) : Os where
  nextRef := os.nextRef + 1
  opened := os.newSock fd :: os.opened
  epoll := os.epoll
  distinct := List.nodup_cons.mpr ⟨os.allocate_not_mem fd, os.distinct⟩
  fresh := by
    intro s hs
    rcases List.mem_cons.mp hs with rfl | hs
    · exact Nat.lt_succ_self _
    · exact Nat.lt_succ_of_lt (os.fresh s hs)
  watched := fun fd' mask h =>
    let ⟨s, hs, hfd⟩ := os.watched fd' mask h
    ⟨s, List.mem_cons_of_mem _ hs, hfd⟩

/-- Two open sockets have different numbers. -/
theorem fd_injective {os : Os} {s s' : Sock} (hs : s ∈ os.opened) (hs' : s' ∈ os.opened)
    (h : s.fd = s'.fd) : s = s' :=
  List.inj_on_of_nodup_map os.distinct hs hs' h

/-- `sock.close()`; closing a closed socket does nothing. -/
def close (os : Os) (s : Sock) : Os :=
  if hs : s ∈ os.opened then
    { nextRef := os.nextRef
      opened := os.opened.filter (· ≠ s)
      epoll := os.epoll.pop s.fd
      distinct := os.distinct.sublist (List.filter_sublist.map Sock.fd)
      fresh := fun s' hs' => os.fresh s' (List.mem_of_mem_filter hs')
      watched := by
        intro fd mask h
        rw [Dict.get?_pop] at h
        split at h
        · cases h
        · next hne =>
          obtain ⟨s', hs', rfl⟩ := os.watched fd mask h
          refine ⟨s', List.mem_filter.mpr ⟨hs', decide_eq_true ?_⟩, rfl⟩
          rintro rfl
          exact hne rfl }
  else os

/-- `epoll_ctl` on a descriptor of an open socket: watch `mask`. -/
def watch (os : Os) (s : Sock) (mask : Mask) : Os :=
  if hs : s ∈ os.opened then
    { os with
      epoll := os.epoll.set s.fd mask
      watched := by
        intro fd mask' h
        rw [Dict.get?_set] at h
        split at h
        · next hfd => exact ⟨s, hs, hfd⟩
        · exact os.watched fd mask' h }
  else os

/-- `epoll_ctl` with `EPOLL_CTL_MOD`, on a watched descriptor. -/
def rewatch (os : Os) (fd : Nat) (mask : Mask) : Os :=
  if hfd : (os.epoll.get? fd).isSome then
    { os with
      epoll := os.epoll.set fd mask
      watched := by
        intro fd' mask' h
        rw [Dict.get?_set] at h
        split at h
        · next heq =>
          obtain ⟨m, hm⟩ := Option.isSome_iff_exists.mp hfd
          exact heq ▸ os.watched fd m hm
        · exact os.watched fd' mask' h }
  else os

/-- `epoll_ctl` with `EPOLL_CTL_DEL`. -/
def unwatch (os : Os) (fd : Nat) : Os :=
  { os with
    epoll := os.epoll.pop fd
    watched := by
      intro fd' mask h
      rw [Dict.get?_pop] at h
      split at h
      · cases h
      · exact os.watched fd' mask h }

/-- The `epoll` object itself is closed. -/
def closeEpoll (os : Os) : Os := { os with epoll := Dict.empty, watched := by simp }

section Lemmas

variable (os : Os) (s : Sock) (fd : Nat) (mask : Mask)

@[simp] theorem opened_openSock : (os.openSock fd).opened = os.newSock fd :: os.opened := rfl
@[simp] theorem nextRef_openSock : (os.openSock fd).nextRef = os.nextRef + 1 := rfl
@[simp] theorem epoll_openSock : (os.openSock fd).epoll = os.epoll := rfl
@[simp] theorem newSock_ref : (os.newSock fd).ref = os.nextRef := rfl

/-- A new descriptor is not watched. -/
theorem epoll_newSock : os.epoll.get? (os.newSock fd).fd = none := by
  cases h : os.epoll.get? (os.newSock fd).fd with
  | none => rfl
  | some mask =>
      obtain ⟨s, hs, hfd⟩ := os.watched _ _ h
      exact absurd (List.mem_map.mpr ⟨s, hs, hfd⟩) (os.allocate_not_mem fd)

theorem mem_opened_close {s' : Sock} : s' ∈ (os.close s).opened ↔ s' ∈ os.opened ∧ s' ≠ s := by
  unfold close
  split
  · simp
  · next hs => exact ⟨fun h => ⟨h, fun heq => hs (heq ▸ h)⟩, And.left⟩

@[simp] theorem nextRef_close : (os.close s).nextRef = os.nextRef := by
  unfold close
  split <;> rfl

theorem epoll_close {s' : Sock} (hs' : s' ∈ os.opened) (hne : s' ≠ s) :
    (os.close s).epoll.get? s'.fd = os.epoll.get? s'.fd := by
  unfold close
  split
  · next hs =>
    exact (Dict.get?_pop _ _ _).trans (if_neg fun h => hne (os.fd_injective hs' hs h.symm))
  · rfl

@[simp] theorem opened_watch : (os.watch s mask).opened = os.opened := by
  unfold watch
  split <;> rfl

@[simp] theorem nextRef_watch : (os.watch s mask).nextRef = os.nextRef := by
  unfold watch
  split <;> rfl

theorem epoll_watch (hs : s ∈ os.opened) (fd : Nat) :
    (os.watch s mask).epoll.get? fd = if s.fd = fd then some mask else os.epoll.get? fd := by
  rw [watch, dif_pos hs]
  exact Dict.get?_set _ _ _ _

@[simp] theorem opened_rewatch : (os.rewatch fd mask).opened = os.opened := by
  unfold rewatch
  split <;> rfl

@[simp] theorem nextRef_rewatch : (os.rewatch fd mask).nextRef = os.nextRef := by
  unfold rewatch
  split <;> rfl

theorem epoll_rewatch (hfd : (os.epoll.get? fd).isSome) (fd' : Nat) :
    (os.rewatch fd mask).epoll.get? fd' = if fd = fd' then some mask else os.epoll.get? fd' := by
  rw [rewatch, dif_pos hfd]
  exact Dict.get?_set _ _ _ _

@[simp] theorem opened_unwatch : (os.unwatch fd).opened = os.opened := rfl
@[simp] theorem nextRef_unwatch : (os.unwatch fd).nextRef = os.nextRef := rfl

theorem epoll_unwatch (fd' : Nat) :
    (os.unwatch fd).epoll.get? fd' = if fd = fd' then none else os.epoll.get? fd' :=
  Dict.get?_pop _ _ _

end Lemmas

/-! ### The sockets after a call -/

/-- The sockets before and after a call that opens some and closes none of the old ones but `mine`. -/
structure Evolves (mine : Sock → Prop) (os os' : Os) : Prop where
  next : os.nextRef ≤ os'.nextRef
  old : ∀ s ∈ os'.opened, s.ref < os.nextRef → s ∈ os.opened
  kept : ∀ s ∈ os.opened, ¬ mine s → s ∈ os'.opened
  epoll_old : ∀ s ∈ os'.opened, s.ref < os.nextRef → os'.epoll.get? s.fd = os.epoll.get? s.fd
  epoll_new : ∀ s ∈ os'.opened, os.nextRef ≤ s.ref → os'.epoll.get? s.fd = none

namespace Evolves

variable {mine : Sock → Prop} {os os' : Os}

theorem refl (mine : Sock → Prop) (os : Os) : Evolves mine os os :=
  ⟨le_rfl, fun _ hs _ => hs, fun _ hs _ => hs, fun _ _ _ => rfl,
    fun s hs hnew => absurd (os.fresh s hs) (Nat.not_lt.mpr hnew)⟩

theorem openSock (h : Evolves mine os os') (fd : Nat) : Evolves mine os (os'.openSock fd) where
  next := Nat.le_succ_of_le h.next
  old := by
    intro s hs hlt
    rcases List.mem_cons.mp hs with rfl | hs
    · exact absurd hlt (Nat.not_lt.mpr h.next)
    · exact h.old s hs hlt
  kept := fun s hs hmine => List.mem_cons_of_mem _ (h.kept s hs hmine)
  epoll_old := by
    intro s hs hlt
    rcases List.mem_cons.mp hs with rfl | hs
    · exact absurd hlt (Nat.not_lt.mpr h.next)
    · exact h.epoll_old s hs hlt
  epoll_new := by
    intro s hs hnew
    rcases List.mem_cons.mp hs with rfl | hs
    · exact os'.epoll_newSock fd
    · exact h.epoll_new s hs hnew

theorem close (h : Evolves mine os os') {s : Sock} (hs : mine s ∨ os.nextRef ≤ s.ref) :
    Evolves mine os (os'.close s) where
  next := by
    rw [nextRef_close]
    exact h.next
  old := fun t ht hlt => h.old t ((os'.mem_opened_close s).mp ht).1 hlt
  kept := by
    intro t ht hmine
    refine (os'.mem_opened_close s).mpr ⟨h.kept t ht hmine, ?_⟩
    rintro rfl
    exact Nat.not_lt.mpr (hs.resolve_left hmine) (os.fresh t ht)
  epoll_old := by
    intro t ht hlt
    obtain ⟨hopen, hne⟩ := (os'.mem_opened_close s).mp ht
    rw [os'.epoll_close s hopen hne]
    exact h.epoll_old t hopen hlt
  epoll_new := by
    intro t ht hnew
    obtain ⟨hopen, hne⟩ := (os'.mem_opened_close s).mp ht
    rw [os'.epoll_close s hopen hne]
    exact h.epoll_new t hopen hnew

theorem closeAll (h : Evolves mine os os') {socks : List Sock} (hsocks : ∀ s ∈ socks, mine s) :
    Evolves mine os (socks.foldl Os.close os') :=
  List.foldlRecOn socks Os.close h fun _ h s hs => h.close (Or.inl (hsocks s hs))

end Evolves

theorem nextRef_closeAll (os : Os) (socks : List Sock) :
    (socks.foldl Os.close os).nextRef = os.nextRef :=
  List.foldlRecOn (motive := fun os' : Os => os'.nextRef = os.nextRef) socks Os.close rfl
    fun os' h s _ => (os'.nextRef_close s).trans h

end Os

end LoadBalancer
