import LoadBalancer.Sockets

/-! `selectors.EpollSelector`: the map from descriptor numbers to keys, and what the three operations on
it do and raise. A key stays where it is when its socket is closed; `epoll` forgets the number, and a
later socket can be given it. -/

namespace LoadBalancer

/-- `SelectorKey`. Its `fd` is the number that `fileobj` had when it was registered, so it is no field of
its own; `data` is the index of a connection, or `none` for `"accept"`. -/
structure Key where
  fileobj : Sock
  events : Mask
  data : Option Nat
  deriving DecidableEq

/-- `_fd_to_key` -/
structure FdToKey where
  keys : Dict Nat Key
  keyed : ∀ fd key, keys.get? fd = some key → key.fileobj.fd = fd

namespace FdToKey

def empty : FdToKey := ⟨Dict.empty, by simp⟩

def get? (m : FdToKey) (fd : Nat) : Option Key := m.keys.get? fd

def set (m : FdToKey) (key : Key) : FdToKey where
  keys := m.keys.set key.fileobj.fd key
  keyed := by
    intro fd key' h
    rw [Dict.get?_set] at h
    split at h
    · next hfd => exact Option.some.inj h ▸ hfd
    · exact m.keyed fd key' h

def pop (m : FdToKey) (fd : Nat) : FdToKey where
  keys := m.keys.pop fd
  keyed := by
    intro fd' key h
    rw [Dict.get?_pop] at h
    split at h
    · cases h
    · exact m.keyed fd' key h

/-- The exhaustive search of `_fileobj_lookup`, by identity. -/
def find (m : FdToKey) (s : Sock) : Option Key :=
  (m.keys.items.find? fun item => item.2.fileobj = s).map Prod.snd

@[simp] theorem get?_empty (fd : Nat) : empty.get? fd = none := rfl

theorem get?_set (m : FdToKey) (key : Key) (fd : Nat) :
    (m.set key).get? fd = if key.fileobj.fd = fd then some key else m.get? fd :=
  Dict.get?_set _ _ _ _

theorem get?_pop (m : FdToKey) (fd fd' : Nat) :
    (m.pop fd).get? fd' = if fd = fd' then none else m.get? fd' :=
  Dict.get?_pop _ _ _

theorem fd_of_get? {m : FdToKey} {fd : Nat} {key : Key} (h : m.get? fd = some key) :
    key.fileobj.fd = fd :=
  m.keyed fd key h

/-- The socket has a key, found by its number. -/
def Registered (m : FdToKey) (s : Sock) : Prop := ∃ key, m.get? s.fd = some key ∧ key.fileobj = s

theorem registered_of_get? {m : FdToKey} {fd : Nat} {key : Key} (h : m.get? fd = some key) :
    m.Registered key.fileobj :=
  ⟨key, by rw [fd_of_get? h, h], rfl⟩

/-- The search finds the key of a registered socket, and none of another. -/
theorem find_eq_some_iff {m : FdToKey} {s : Sock} {key : Key} :
    m.find s = some key ↔ m.get? s.fd = some key ∧ key.fileobj = s := by
  constructor
  · intro h
    obtain ⟨⟨fd, key'⟩, hfind, rfl⟩ := Option.map_eq_some_iff.mp h
    have hobj : key'.fileobj = s := of_decide_eq_true (List.find?_some hfind :)
    have hget : m.get? fd = some key' := Dict.get?_eq_some_iff.mpr (List.mem_of_find?_eq_some hfind)
    exact ⟨by rw [← hobj, fd_of_get? hget, hget], hobj⟩
  · rintro ⟨hget, hobj⟩
    have hmem : (s.fd, key) ∈ m.keys.items := Dict.get?_eq_some_iff.mp hget
    cases hfind : m.keys.items.find? fun item => item.2.fileobj = s with
    | none =>
        have hnot := List.find?_eq_none.mp hfind _ hmem
        exact absurd (decide_eq_true hobj) hnot
    | some item =>
        obtain ⟨fd, key'⟩ := item
        have hobj' : key'.fileobj = s := of_decide_eq_true (List.find?_some hfind :)
        have hget' : m.get? fd = some key' :=
          Dict.get?_eq_some_iff.mpr (List.mem_of_find?_eq_some hfind)
        have hfd : s.fd = fd := hobj' ▸ fd_of_get? hget'
        rw [← hfd, hget] at hget'
        rw [find, hfind]
        exact hget'.symm

theorem registered_set {m : FdToKey} {key : Key} {s : Sock} (h : (m.set key).Registered s) :
    s = key.fileobj ∨ m.Registered s := by
  obtain ⟨key', hget, rfl⟩ := h
  rw [get?_set] at hget
  split at hget
  · exact Or.inl (congrArg Key.fileobj (Option.some.inj hget).symm)
  · exact Or.inr ⟨key', hget, rfl⟩

theorem registered_pop {m : FdToKey} {fd : Nat} {s : Sock} :
    (m.pop fd).Registered s ↔ fd ≠ s.fd ∧ m.Registered s := by
  simp only [Registered, get?_pop]
  by_cases hfd : fd = s.fd <;> simp [hfd]

end FdToKey

inductive SelectorError where
  | keyError
  | valueError
  | osError
  deriving DecidableEq

structure Selector where
  os : Os
  fdToKey : FdToKey

/-- The selector after an operation, and what the operation raised. -/
structure Attempt where
  selector : Selector
  error : Option SelectorError

namespace Selector

def pass (sel : Selector) : Attempt := ⟨sel, none⟩

def raise (error : SelectorError) (sel : Selector) : Attempt := ⟨sel, some error⟩

/-- The number of an open socket, and of a closed one the number in its key; `none` is `ValueError`. -/
def fileobjLookup (sel : Selector) (s : Sock) : Option Nat :=
  if s ∈ sel.os.opened then some s.fd else (sel.fdToKey.find s).map fun key => key.fileobj.fd

def register (s : Sock) (events : Mask) (data : Option Nat) (sel : Selector) : Attempt :=
  match sel.fileobjLookup s with
  | none => sel.raise .valueError
  | some fd =>
      if (sel.fdToKey.get? fd).isSome then sel.raise .keyError
      else if (sel.os.epoll.get? fd).isSome then sel.raise .osError
      else pass ⟨sel.os.watch s events, sel.fdToKey.set ⟨s, events, data⟩⟩

/-- An `OSError` of `epoll_ctl` is ignored. -/
def unregister (s : Sock) (sel : Selector) : Attempt :=
  match sel.fileobjLookup s with
  | none => sel.raise .valueError
  | some fd =>
      if (sel.fdToKey.get? fd).isSome then pass ⟨sel.os.unwatch fd, sel.fdToKey.pop fd⟩
      else sel.raise .keyError

/-- The key keeps its `fileobj`. Where `epoll` does not know the number, the key is dropped. -/
def modify (s : Sock) (events : Mask) (data : Option Nat) (sel : Selector) : Attempt :=
  match sel.fileobjLookup s with
  | none => sel.raise .valueError
  | some fd =>
      match sel.fdToKey.get? fd with
      | none => sel.raise .keyError
      | some key =>
          let replaced := sel.fdToKey.set { key with events := events, data := data }
          if events = key.events then pass ⟨sel.os, replaced⟩
          else if (sel.os.epoll.get? fd).isSome then pass ⟨sel.os.rewatch fd events, replaced⟩
          else raise .osError ⟨sel.os, sel.fdToKey.pop fd⟩

end Selector

namespace Attempt

/-- `try: ... except (KeyError, ValueError): ...` -/
def except (attempt : Attempt) (handler : Selector → Attempt) : Attempt :=
  match attempt.error with
  | some .keyError | some .valueError => handler attempt.selector
  | _ => attempt

def andThen (attempt : Attempt) (next : Selector → Attempt) : Attempt :=
  match attempt.error with
  | none => next attempt.selector
  | some _ => attempt

@[simp] theorem except_pass (sel : Selector) (handler : Selector → Attempt) :
    sel.pass.except handler = sel.pass := rfl

theorem eq_pass {attempt : Attempt} (h : attempt.error = none) :
    attempt = attempt.selector.pass := by
  cases attempt
  obtain rfl := h
  rfl

/-- If nothing is raised, both parts have been done. -/
theorem andThen_of_pass {attempt : Attempt} {next : Selector → Attempt}
    (h : (attempt.andThen next).error = none) :
    attempt.error = none ∧ attempt.andThen next = next attempt.selector := by
  cases herror : attempt.error with
  | none => exact ⟨rfl, by rw [andThen, herror]⟩
  | some e =>
      rw [andThen, herror] at h
      exact absurd (herror.symm.trans h) nofun

/-- What both the attempt and its handler keep, the whole statement keeps. -/
theorem except_induction {P : Selector → Prop} {attempt : Attempt} {handler : Selector → Attempt}
    (h : P attempt.selector) (hhandler : ∀ sel, P sel → P (handler sel).selector) :
    P (attempt.except handler).selector := by
  unfold except
  split
  · exact hhandler _ h
  · exact hhandler _ h
  · exact h

theorem andThen_induction {P : Selector → Prop} {attempt : Attempt} {next : Selector → Attempt}
    (h : P attempt.selector) (hnext : ∀ sel, P sel → P (next sel).selector) :
    P (attempt.andThen next).selector := by
  unfold andThen
  split
  · exact hnext _ h
  · exact h

end Attempt

/-! ### What an operation on one socket leaves alone -/

namespace Selector

/-- The key of an open socket is what `epoll` watches, and nothing else is watched. -/
structure Consistent (sel : Selector) : Prop where
  watched : ∀ fd key, sel.fdToKey.get? fd = some key → key.fileobj ∈ sel.os.opened →
    sel.os.epoll.get? fd = some key.events
  mapped : ∀ fd mask, sel.os.epoll.get? fd = some mask →
    ∃ key, sel.fdToKey.get? fd = some key ∧ key.fileobj ∈ sel.os.opened
  known : ∀ s, sel.fdToKey.Registered s → s.ref < sel.os.nextRef

/-- Opening sockets, and closing registered ones, leaves the keys consistent. -/
theorem Consistent.evolves {mine : Sock → Prop} {os os' : Os} {m : FdToKey}
    (h : Consistent ⟨os, m⟩) (hos : os.Evolves mine os') : Consistent ⟨os', m⟩ where
  watched := by
    intro fd key hget hopen
    have hlt := h.known key.fileobj (FdToKey.registered_of_get? hget)
    have hold := hos.epoll_old key.fileobj hopen hlt
    rw [FdToKey.fd_of_get? hget] at hold
    exact hold.trans (h.watched fd key hget (hos.old key.fileobj hopen hlt))
  mapped := by
    intro fd mask hmask
    obtain ⟨s, hs, rfl⟩ := os'.watched fd mask hmask
    rcases Nat.lt_or_ge s.ref os.nextRef with hlt | hnew
    · rw [hos.epoll_old s hs hlt] at hmask
      obtain ⟨key, hget, hopen⟩ := h.mapped s.fd mask hmask
      have hsame := os.fd_injective hopen (hos.old s hs hlt) (FdToKey.fd_of_get? hget)
      exact ⟨key, hget, hsame ▸ hs⟩
    · rw [hos.epoll_new s hs hnew] at hmask
      cases hmask
  known := fun s hs => (h.known s hs).trans_le hos.next

def Registered (sel : Selector) (s : Sock) : Prop := sel.fdToKey.Registered s

/-- The socket is registered, under these events, for this connection. -/
def Has (sel : Selector) (s : Sock) (events : Mask) (data : Option Nat) : Prop :=
  sel.fdToKey.get? s.fd = some ⟨s, events, data⟩

theorem Has.registered {sel : Selector} {s : Sock} {events : Mask} {data : Option Nat}
    (h : sel.Has s events data) : sel.Registered s :=
  ⟨_, h, rfl⟩

/-- What holds after any number of operations on sockets of the set `S` with this `data`, whatever they
raised. -/
structure Touches (S : Sock → Prop) (data : Option Nat) (sel sel' : Selector) : Prop where
  opened : sel'.os.opened = sel.os.opened
  nextRef : sel'.os.nextRef = sel.os.nextRef
  kept : ∀ s events d, sel.Has s events d → s ∈ sel.os.opened → ¬ S s → sel'.Has s events d
  origin : ∀ s, sel'.Registered s → sel.Registered s ∨ (S s ∧ s ∈ sel.os.opened)
  given : ∀ s events d, sel'.Has s events d → s ∈ sel.os.opened → sel.Has s events d ∨ (S s ∧ d = data)
  consistent : sel.Consistent → sel'.Consistent

namespace Touches

variable {S : Sock → Prop} {data : Option Nat} {sel sel' sel'' : Selector}

theorem refl (S : Sock → Prop) (data : Option Nat) (sel : Selector) : Touches S data sel sel :=
  ⟨rfl, rfl, fun _ _ _ h _ _ => h, fun _ h => Or.inl h, fun _ _ _ h _ => Or.inl h, fun h => h⟩

theorem trans (h : Touches S data sel sel') (h' : Touches S data sel' sel'') :
    Touches S data sel sel'' where
  opened := h'.opened.trans h.opened
  nextRef := h'.nextRef.trans h.nextRef
  kept := fun s events d hs hopen hS =>
    h'.kept s events d (h.kept s events d hs hopen hS) (h.opened ▸ hopen) hS
  origin := by
    intro s hs
    rcases h'.origin s hs with hs | ⟨hS, hopen⟩
    · exact h.origin s hs
    · exact Or.inr ⟨hS, h.opened ▸ hopen⟩
  given := by
    intro s events d hs hopen
    rcases h'.given s events d hs (h.opened ▸ hopen) with hs | hS
    · exact h.given s events d hs hopen
    · exact Or.inr hS
  consistent := fun hsel => h'.consistent (h.consistent hsel)

theorem mono {S' : Sock → Prop} (h : Touches S data sel sel') (hS : ∀ s, S s → S' s) :
    Touches S' data sel sel' where
  opened := h.opened
  nextRef := h.nextRef
  kept := fun s events d hs hopen hS' => h.kept s events d hs hopen fun hs => hS' (hS s hs)
  origin := fun s hs => (h.origin s hs).imp_right fun ⟨hs, hopen⟩ => ⟨hS s hs, hopen⟩
  given := fun s events d hs hopen => (h.given s events d hs hopen).imp_right fun ⟨hs, hd⟩ => ⟨hS s hs, hd⟩
  consistent := h.consistent

end Touches

section Operations

variable {sel : Selector} {s : Sock} {events : Mask} {data : Option Nat}

theorem fileobjLookup_eq {fd : Nat} (h : sel.fileobjLookup s = some fd) : fd = s.fd := by
  unfold fileobjLookup at h
  split at h
  · exact (Option.some.inj h).symm
  · obtain ⟨key, hkey, rfl⟩ := Option.map_eq_some_iff.mp h
    exact congrArg Sock.fd (FdToKey.find_eq_some_iff.mp hkey).2

theorem fileobjLookup_of_open (h : s ∈ sel.os.opened) : sel.fileobjLookup s = some s.fd := if_pos h

/-- A socket that the lookup finds is open, or the key under its number is its own. -/
theorem open_or_registered_of_lookup {fd : Nat} (h : sel.fileobjLookup s = some fd) :
    s ∈ sel.os.opened ∨ sel.Registered s := by
  unfold fileobjLookup at h
  split at h
  · next hs => exact Or.inl hs
  · obtain ⟨key, hkey, -⟩ := Option.map_eq_some_iff.mp h
    exact Or.inr ⟨key, FdToKey.find_eq_some_iff.mp hkey⟩

/-- An operation found its way to the number of `s`, and an open socket of another identity has its key
there: then `s` is neither open nor registered. -/
theorem ne_fd_of_lookup {fd : Nat} (h : sel.fileobjLookup s = some fd) {t : Sock} {events : Mask}
    {data : Option Nat} (ht : sel.Has t events data) (hopen : t ∈ sel.os.opened) (hne : t ≠ s) :
    t.fd ≠ s.fd := by
  intro hfd
  rcases open_or_registered_of_lookup h with hs | ⟨key, hkey, hobj⟩
  · exact hne (sel.os.fd_injective hopen hs hfd)
  · rw [← hfd, ht] at hkey
    exact hne (by rw [← hobj, ← Option.some.inj hkey])

/-- A key that replaces the one under its number, or is the first there. -/
theorem has_set_of_ne {m : FdToKey} {key : Key} {t : Sock} (hne : t.fd ≠ key.fileobj.fd) :
    (m.set key).get? t.fd = m.get? t.fd := by
  rw [FdToKey.get?_set, if_neg (Ne.symm hne)]

theorem has_pop_of_ne {m : FdToKey} {fd : Nat} {t : Sock} (hne : t.fd ≠ fd) :
    (m.pop fd).get? t.fd = m.get? t.fd := by
  rw [FdToKey.get?_pop, if_neg (Ne.symm hne)]

/-- A key found after a key was put in place is an old one or that key. -/
theorem has_of_set {m : FdToKey} {key : Key} {t : Sock}
    (h : (m.set key).get? t.fd = some ⟨t, events, data⟩) :
    m.get? t.fd = some ⟨t, events, data⟩ ∨
      (t = key.fileobj ∧ events = key.events ∧ data = key.data) := by
  rw [FdToKey.get?_set] at h
  split at h
  · obtain rfl := Option.some.inj h
    exact Or.inr ⟨rfl, rfl, rfl⟩
  · exact Or.inl h

theorem has_of_pop {m : FdToKey} {fd : Nat} {t : Sock}
    (h : (m.pop fd).get? t.fd = some ⟨t, events, data⟩) : m.get? t.fd = some ⟨t, events, data⟩ := by
  rw [FdToKey.get?_pop] at h
  split at h
  · cases h
  · exact h

theorem Consistent.register (h : sel.Consistent) (hopen : s ∈ sel.os.opened) :
    Consistent ⟨sel.os.watch s events, sel.fdToKey.set ⟨s, events, data⟩⟩ where
  watched := by
    intro fd key hget hkey
    rw [FdToKey.get?_set] at hget
    rw [Os.epoll_watch _ _ _ hopen]
    split at hget
    · next hfd => rw [if_pos hfd, ← Option.some.inj hget]
    · next hfd =>
      rw [if_neg hfd]
      exact h.watched fd key hget (by simpa using hkey)
  mapped := by
    intro fd mask hmask
    rw [Os.epoll_watch _ _ _ hopen] at hmask
    simp only [FdToKey.get?_set, Os.opened_watch]
    split at hmask
    · next hfd => exact ⟨_, if_pos hfd, hopen⟩
    · next hfd =>
      obtain ⟨key, hget, hkey⟩ := h.mapped fd mask hmask
      exact ⟨key, (if_neg hfd).trans hget, hkey⟩
  known := by
    intro t ht
    rw [Os.nextRef_watch]
    rcases FdToKey.registered_set ht with rfl | ht
    · exact sel.os.fresh _ hopen
    · exact h.known t ht

/-- A key is dropped whose number `epoll` does not have any more. -/
theorem Consistent.drop (h : sel.Consistent) {fd : Nat} {os : Os} (hopened : os.opened = sel.os.opened)
    (hnext : os.nextRef = sel.os.nextRef)
    (hepoll : ∀ fd', os.epoll.get? fd' = if fd = fd' then none else sel.os.epoll.get? fd') :
    Consistent ⟨os, sel.fdToKey.pop fd⟩ where
  watched := by
    intro fd' key hget hkey
    simp only [FdToKey.get?_pop, hopened, hepoll] at hget hkey ⊢
    split at hget
    · cases hget
    · next hfd => exact (if_neg hfd).trans (h.watched fd' key hget hkey)
  mapped := by
    intro fd' mask hmask
    simp only [FdToKey.get?_pop, hopened, hepoll] at hmask ⊢
    split at hmask
    · cases hmask
    · next hfd =>
      obtain ⟨key, hget, hkey⟩ := h.mapped fd' mask hmask
      exact ⟨key, (if_neg hfd).trans hget, hkey⟩
  known := by
    intro t ht
    simp only [hnext]
    exact h.known t (FdToKey.registered_pop.mp ht).2

/-- New events and new data for a key, with what `epoll` then has for its number. -/
theorem Consistent.replace (h : sel.Consistent) {fd : Nat} {key : Key}
    (hkey : sel.fdToKey.get? fd = some key) {os : Os} (hopened : os.opened = sel.os.opened)
    (hnext : os.nextRef = sel.os.nextRef)
    (hothers : ∀ fd', fd ≠ fd' → os.epoll.get? fd' = sel.os.epoll.get? fd')
    (hlive : key.fileobj ∈ sel.os.opened → os.epoll.get? fd = some events)
    (hstale : key.fileobj ∉ sel.os.opened → os.epoll.get? fd = none) :
    Consistent ⟨os, sel.fdToKey.set { key with events := events, data := data }⟩ where
  watched := by
    intro fd' key' hget hopen
    rw [FdToKey.get?_set, FdToKey.fd_of_get? hkey] at hget
    simp only [hopened] at hopen ⊢
    split at hget
    · next heq =>
      obtain rfl := Option.some.inj hget
      exact heq ▸ hlive hopen
    · next heq => exact (hothers fd' heq).trans (h.watched fd' key' hget hopen)
  mapped := by
    intro fd' mask hmask
    simp only [FdToKey.get?_set, FdToKey.fd_of_get? hkey, hopened] at hmask ⊢
    by_cases heq : fd = fd'
    · subst heq
      refine ⟨_, if_pos rfl, ?_⟩
      by_contra hclosed
      rw [hstale hclosed] at hmask
      cases hmask
    · rw [hothers fd' heq] at hmask
      obtain ⟨key', hget, hopen⟩ := h.mapped fd' mask hmask
      exact ⟨key', (if_neg heq).trans hget, hopen⟩
  known := by
    intro t ht
    simp only [hnext]
    rcases FdToKey.registered_set ht with heq | ht
    · obtain rfl : t = key.fileobj := heq
      exact h.known _ (FdToKey.registered_of_get? hkey)
    · exact h.known t ht

/-- Where `epoll` does not know the number of a key, its socket is closed. -/
theorem Consistent.stale_iff (h : sel.Consistent) {fd : Nat} {key : Key}
    (hkey : sel.fdToKey.get? fd = some key) :
    key.fileobj ∉ sel.os.opened ↔ sel.os.epoll.get? fd = none := by
  constructor
  · intro hclosed
    by_contra hwatched
    obtain ⟨mask, hmask⟩ := Option.ne_none_iff_exists'.mp hwatched
    obtain ⟨key', hget, hopen⟩ := h.mapped fd mask hmask
    obtain rfl := Option.some.inj (hkey.symm.trans hget)
    exact hclosed hopen
  · intro hnone hopen
    rw [h.watched fd key hkey hopen] at hnone
    cases hnone

theorem touches_register (events : Mask) (data : Option Nat) (sel : Selector) (s : Sock) :
    Touches (· = s) data sel (sel.register s events data).selector := by
  unfold register
  split
  · exact .refl _ _ _
  · next fd hlookup =>
    obtain rfl := fileobjLookup_eq hlookup
    split
    · exact .refl _ _ _
    · next hfree =>
      split
      · exact .refl _ _ _
      · have hopen : s ∈ sel.os.opened := by
          refine (open_or_registered_of_lookup hlookup).resolve_right ?_
          rintro ⟨key, hkey, -⟩
          exact hfree (Option.isSome_iff_exists.mpr ⟨key, hkey⟩)
        refine ⟨Os.opened_watch _ _ _, Os.nextRef_watch _ _ _, ?_, ?_, ?_, fun h => h.register hopen⟩
        · intro t events' data' ht htopen hne
          exact (has_set_of_ne (ne_fd_of_lookup hlookup ht htopen hne)).trans ht
        · intro t ht
          rcases FdToKey.registered_set ht with rfl | ht
          · exact Or.inr ⟨rfl, hopen⟩
          · exact Or.inl ht
        · intro t events' data' ht _
          exact (has_of_set ht).imp_right fun ⟨hobj, _, hdata⟩ => ⟨hobj, hdata⟩

theorem touches_unregister (data : Option Nat) (sel : Selector) (s : Sock) :
    Touches (· = s) data sel (sel.unregister s).selector := by
  unfold unregister
  split
  · exact .refl _ _ _
  · next fd hlookup =>
    obtain rfl := fileobjLookup_eq hlookup
    split
    · refine ⟨rfl, rfl, fun t events data ht htopen hne => ?_,
        fun t ht => Or.inl (FdToKey.registered_pop.mp ht).2,
        fun t events data ht _ => Or.inl (has_of_pop ht),
        fun h => h.drop rfl rfl (Os.epoll_unwatch _ _)⟩
      exact (has_pop_of_ne (ne_fd_of_lookup hlookup ht htopen hne)).trans ht
    · exact .refl _ _ _

theorem touches_modify (events : Mask) (data : Option Nat) (sel : Selector) (s : Sock) :
    Touches (· = s) data sel (sel.modify s events data).selector := by
  unfold modify
  split
  · exact .refl _ _ _
  · next fd hlookup =>
    obtain rfl := fileobjLookup_eq hlookup
    split
    · exact .refl _ _ _
    · next key hkey =>
      have hfd : key.fileobj.fd = s.fd := FdToKey.fd_of_get? hkey
      have hkept : ∀ t events' data', sel.Has t events' data' → t ∈ sel.os.opened → ¬ t = s →
          (sel.fdToKey.set { key with events := events, data := data }).get? t.fd =
            some ⟨t, events', data'⟩ := by
        intro t events' data' ht htopen hne
        rw [has_set_of_ne (by rw [hfd]; exact ne_fd_of_lookup hlookup ht htopen hne)]
        exact ht
      have horigin : ∀ t, (sel.fdToKey.set { key with events := events, data := data }).Registered t →
          sel.Registered t := by
        intro t ht
        rcases FdToKey.registered_set ht with heq | ht
        · obtain rfl : t = key.fileobj := heq
          exact FdToKey.registered_of_get? hkey
        · exact ht
      have hgiven : ∀ t events' data',
          (sel.fdToKey.set { key with events := events, data := data }).get? t.fd =
            some ⟨t, events', data'⟩ → t ∈ sel.os.opened →
          sel.Has t events' data' ∨ (t = s ∧ data' = data) := by
        intro t events' data' ht htopen
        refine (has_of_set ht).imp_right ?_
        rintro ⟨rfl, -, rfl⟩
        have hown : sel.Has key.fileobj key.events key.data := by rw [Has, hfd, hkey]
        exact ⟨by_contra fun hne => ne_fd_of_lookup hlookup hown htopen hne hfd, rfl⟩
      dsimp only
      split
      · next hsame =>
        refine ⟨rfl, rfl, hkept, fun t ht => Or.inl (horigin t ht), hgiven, fun h => ?_⟩
        exact h.replace hkey rfl rfl (fun _ _ => rfl)
          (fun hopen => by rw [hsame]; exact h.watched _ _ hkey hopen) (h.stale_iff hkey).mp
      · split
        · next hwatched =>
          refine ⟨Os.opened_rewatch _ _ _, Os.nextRef_rewatch _ _ _, hkept,
            fun t ht => Or.inl (horigin t ht), hgiven, fun h => ?_⟩
          refine h.replace hkey (Os.opened_rewatch _ _ _) (Os.nextRef_rewatch _ _ _) ?_ ?_ ?_
          · intro fd' hne
            rw [Os.epoll_rewatch _ _ _ hwatched, if_neg hne]
          · intro _
            rw [Os.epoll_rewatch _ _ _ hwatched, if_pos rfl]
          · intro hclosed
            rw [(h.stale_iff hkey).mp hclosed] at hwatched
            cases hwatched
        · next hunknown =>
          refine ⟨rfl, rfl, fun t events' data' ht htopen hne => ?_,
            fun t ht => Or.inl (FdToKey.registered_pop.mp ht).2,
            fun t events' data' ht _ => Or.inl (has_of_pop ht), fun h => h.drop rfl rfl fun fd' => ?_⟩
          · exact (has_pop_of_ne (ne_fd_of_lookup hlookup ht htopen hne)).trans ht
          · split
            · next heq => exact heq ▸ Option.not_isSome_iff_eq_none.mp hunknown
            · rfl

/-! ### One more operation on a socket of the set -/

theorem Touches.register {S : Sock → Prop} {sel' : Selector} (h : Touches S data sel sel') (hs : S s)
    (events : Mask) : Touches S data sel (sel'.register s events data).selector :=
  h.trans ((touches_register events data sel' s).mono fun _ heq => heq ▸ hs)

theorem Touches.modify {S : Sock → Prop} {sel' : Selector} (h : Touches S data sel sel') (hs : S s)
    (events : Mask) : Touches S data sel (sel'.modify s events data).selector :=
  h.trans ((touches_modify events data sel' s).mono fun _ heq => heq ▸ hs)

theorem Touches.unregister {S : Sock → Prop} {sel' : Selector} (h : Touches S data sel sel') (hs : S s) :
    Touches S data sel (sel'.unregister s).selector :=
  h.trans ((touches_unregister data sel' s).mono fun _ heq => heq ▸ hs)

/-! ### What an operation does to its socket -/

theorem register_of_free (h : sel.Consistent) (hopen : s ∈ sel.os.opened)
    (hfree : sel.fdToKey.get? s.fd = none) :
    ∃ sel' : Selector, sel.register s events data = sel'.pass ∧ sel'.Has s events data := by
  have hunwatched : sel.os.epoll.get? s.fd = none := by
    by_contra hwatched
    obtain ⟨mask, hmask⟩ := Option.ne_none_iff_exists'.mp hwatched
    obtain ⟨key, hget, -⟩ := h.mapped _ _ hmask
    rw [hfree] at hget
    cases hget
  refine ⟨⟨sel.os.watch s events, sel.fdToKey.set ⟨s, events, data⟩⟩, ?_,
    (FdToKey.get?_set sel.fdToKey ⟨s, events, data⟩ s.fd).trans (if_pos rfl)⟩
  simp [register, fileobjLookup_of_open hopen, hfree, hunwatched]

theorem register_of_has {events' : Mask} {data' : Option Nat} (hopen : s ∈ sel.os.opened)
    (hhas : sel.Has s events' data') :
    sel.register s events data = sel.raise .keyError := by
  have hsome : sel.fdToKey.get? s.fd = some ⟨s, events', data'⟩ := hhas
  simp [register, fileobjLookup_of_open hopen, hsome]

theorem modify_of_has {events' : Mask} {data' : Option Nat} (h : sel.Consistent)
    (hopen : s ∈ sel.os.opened) (hhas : sel.Has s events' data') :
    ∃ sel' : Selector, sel.modify s events data = sel'.pass ∧ sel'.Has s events data := by
  have hsome : sel.fdToKey.get? s.fd = some ⟨s, events', data'⟩ := hhas
  have hset : (sel.fdToKey.set ⟨s, events, data⟩).get? s.fd = some ⟨s, events, data⟩ :=
    (FdToKey.get?_set _ _ _).trans (if_pos rfl)
  by_cases hsame : events = events'
  · refine ⟨⟨sel.os, sel.fdToKey.set ⟨s, events, data⟩⟩, ?_, hset⟩
    simp [modify, fileobjLookup_of_open hopen, hsome, hsame]
  · refine ⟨⟨sel.os.rewatch s.fd events, sel.fdToKey.set ⟨s, events, data⟩⟩, ?_, hset⟩
    simp [modify, fileobjLookup_of_open hopen, hsome, hsame, h.watched _ _ hsome hopen]

theorem modify_of_free (hopen : s ∈ sel.os.opened) (hfree : sel.fdToKey.get? s.fd = none) :
    sel.modify s events data = sel.raise .keyError := by
  simp [modify, fileobjLookup_of_open hopen, hfree]

theorem not_registered_unregister (sel : Selector) (s : Sock) :
    ¬ (sel.unregister s).selector.Registered s := by
  unfold unregister
  split
  · next hnone =>
    rintro ⟨key, hkey, hobj⟩
    have hfind : sel.fdToKey.find s = some key := FdToKey.find_eq_some_iff.mpr ⟨hkey, hobj⟩
    unfold fileobjLookup at hnone
    split at hnone
    · cases hnone
    · rw [hfind] at hnone
      cases hnone
  · next fd hlookup =>
    obtain rfl := fileobjLookup_eq hlookup
    split
    · exact fun h => (FdToKey.registered_pop.mp h).1 rfl
    · next hnone =>
      rintro ⟨key, hkey, -⟩
      exact hnone (Option.isSome_iff_exists.mpr ⟨key, hkey⟩)

theorem registered_of_unregister {t : Sock} (h : (sel.unregister s).selector.Registered t) :
    sel.Registered t := by
  unfold unregister at h
  split at h
  · exact h
  · split at h
    · exact (FdToKey.registered_pop.mp h).2
    · exact h

theorem has_of_register {sel' : Selector} (h : sel.register s events data = sel'.pass) :
    sel'.Has s events data := by
  unfold register at h
  split at h
  · cases h
  · split at h
    · cases h
    · split at h
      · cases h
      · obtain rfl := congrArg Attempt.selector h
        exact (FdToKey.get?_set sel.fdToKey ⟨s, events, data⟩ s.fd).trans (if_pos rfl)

/-- Where all registered sockets are open, the number of an open socket is free or its own. -/
theorem free_of_not_registered (hlive : ∀ t, sel.Registered t → t ∈ sel.os.opened)
    (hopen : s ∈ sel.os.opened) (hnot : ¬ sel.Registered s) : sel.fdToKey.get? s.fd = none := by
  by_contra hsome
  obtain ⟨key, hkey⟩ := Option.ne_none_iff_exists'.mp hsome
  have hregistered := FdToKey.registered_of_get? hkey
  have hsame := sel.os.fd_injective (hlive _ hregistered) hopen (FdToKey.fd_of_get? hkey)
  exact hnot (hsame ▸ hregistered)

/-- `unregister` raises nothing but what its callers catch. -/
theorem unregister_except_pass (sel : Selector) (s : Sock) :
    (sel.unregister s).except pass = (sel.unregister s).selector.pass := by
  unfold unregister
  split
  · rfl
  · split <;> rfl

end Operations

end Selector

end LoadBalancer
