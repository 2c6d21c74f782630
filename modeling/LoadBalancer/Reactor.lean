import Mathlib.Algebra.Order.Ring.Rat
import LoadBalancer.Fleet
import LoadBalancer.HeapQueue
import LoadBalancer.Selector

/-! The event loop. A connection is named by its index in the fleet; `_connections` and `_conn_by_id`
map descriptor numbers and `id()`s to indices. A step is one call that `_loop` makes, in any order and
any number: a dispatch need not be one that the selector has just reported, so every batch of events
that `select` can return is covered. -/

namespace LoadBalancer

open Outcome

/-- An entry `(deadline, gen, conn_id)` of `_deadlines`. -/
structure Deadline where
  deadline : Time
  gen : Nat
  connId : Nat
  deriving DecidableEq

namespace Deadline

/-- Entries are compared as tuples. -/
def key (e : Deadline) : Time ×ₗ Nat ×ₗ Nat := toLex (e.deadline, toLex (e.gen, e.connId))

theorem key_injective : Function.Injective key := by
  intro e e' h
  obtain ⟨hdeadline, hrest⟩ := Prod.mk.inj (toLex.injective h)
  obtain ⟨hgen, hconnId⟩ := Prod.mk.inj (toLex.injective hrest)
  cases e
  cases e'
  simp_all

instance : LinearOrder Deadline := LinearOrder.lift' key key_injective

theorem deadline_le {e e' : Deadline} (h : e ≤ e') : e.deadline ≤ e'.deadline := by
  have hkey : e.key ≤ e'.key := h
  exact Prod.Lex.monotone_fst_ofLex hkey

end Deadline

/-- A connection object: its `id()`, and whether `_reap` has removed it. -/
structure Handle where
  connId : Nat
  reaped : Bool
  deriving DecidableEq

/-- `handles` belongs to the interpreter, and nothing reads `timeouts`: the calls of `handle_timeout` so
far, each with its time and the deadline that the connection had. -/
structure Reactor where
  fleet : Fleet
  fdToKey : FdToKey
  serverSock : Sock
  connections : Dict Nat Nat
  deadlines : HeapQueue Deadline
  connById : Dict Nat Nat
  handles : List Handle
  timeouts : List (Time × Time)

namespace Reactor

def selector (r : Reactor) : Selector := ⟨r.fleet.os, r.fdToKey⟩

def setSelector (r : Reactor) (sel : Selector) : Reactor :=
  { r with fleet := { r.fleet with os := sel.os }, fdToKey := sel.fdToKey }

/-- Statements on the selector; what they raise and do not catch escapes. -/
def withSelector (op : Selector → Attempt) (r : Reactor) : Outcome Reactor :=
  let attempt := op r.selector
  match attempt.error with
  | none => .returned (r.setSelector attempt.selector)
  | some _ => .raised (r.setSelector attempt.selector)

def markDone (r : Reactor) (i : Nat) : Reactor := { r with fleet := r.fleet.markDone i }

/-- The state after `start` has opened the listener. -/
def init (router : Router) (fd : Nat) : Reactor :=
  let listener := Os.init.newSock fd
  let registered := (Selector.register listener eventRead none ⟨Os.init.openSock fd, .empty⟩).selector
  { fleet := { Fleet.init router with os := registered.os }
    fdToKey := registered.fdToKey
    serverSock := listener
    connections := Dict.empty
    deadlines := HeapQueue.empty
    connById := Dict.empty
    handles := []
    timeouts := [] }

/-! ### Deadline scheduling -/

/-- `_schedule_deadline` -/
def scheduleDeadline (i : Nat) (r : Reactor) : Reactor :=
  match r.fleet.sessions[i]?, r.handles[i]? with
  | some s, some handle =>
      if s.conn.state = .done then r
      else
        { r with
          connById := r.connById.set handle.connId i
          deadlines := r.deadlines.push ⟨s.conn.deadline, s.conn.deadlineGen, handle.connId⟩ }
  | _, _ => r

/-- The connection of an entry, unless the entry is stale. -/
def validEntry? (r : Reactor) (e : Deadline) : Option (Nat × Session) :=
  match r.connById.get? e.connId with
  | none => none
  | some i =>
      match r.fleet.sessions[i]? with
      | none => none
      | some s => if s.conn.state ≠ .done ∧ e.gen = s.conn.deadlineGen then some (i, s) else none

/-- `_select_timeout` -/
def selectTimeout (reading : Time) (r : Reactor) : Time × Reactor :=
  let now := max r.fleet.now reading
  let deadlines := (r.deadlines.popWhile fun e => (r.validEntry? e).isNone).2
  (match deadlines.peek with
    | none => 1
    | some e => min 1 (max 0 (e.deadline - now)),
    { r with fleet := r.fleet.tick reading, deadlines := deadlines })

section Steps

variable (cfg : Config)

/-- What `_expire_timeouts` does with an entry it has popped. -/
def expireEntry (now : Time) (io : Nat → Io) (r : Reactor) (e : Deadline) : Option Reactor :=
  match r.validEntry? e with
  | none => some r
  | some (i, s) =>
      (r.fleet.step cfg (.call i .timeout (io i))).map fun fleet =>
        { r with fleet := fleet, timeouts := r.timeouts ++ [(now, s.conn.deadline)] }

/-- `_expire_timeouts` -/
def expireTimeouts (reading : Time) (io : Nat → Io) (r : Reactor) : Option Reactor :=
  let now := max r.fleet.now reading
  let popped := r.deadlines.popWhile fun e => e.deadline ≤ now
  popped.1.foldlM (expireEntry cfg now io)
    { r with fleet := r.fleet.tick reading, deadlines := popped.2 }

/-! ### Accept -/

/-- The `id()`s of the connections that have not been reaped. -/
def aliveIds (r : Reactor) : List Nat := (r.handles.filter fun h => !h.reaped).map Handle.connId

/-- One round of `_accept`. The `id()` of the new object is none that is in use; what `register` raises
ends `_loop`. -/
def accept (fd : Nat) (addr : Bytes × Nat) (clock : List Time) (connId : Nat) (r : Reactor) :
    Option Reactor :=
  if connId ∈ r.aliveIds then none
  else
    let clientSock := r.fleet.os.newSock fd
    let i := r.fleet.sessions.length
    let r := { r with
      fleet := r.fleet.accept cfg fd addr clock
      handles := r.handles ++ [Handle.mk connId false] }
    match r.withSelector (Selector.register clientSock eventRead (some i)) with
    | .returned r =>
        some (scheduleDeadline i { r with connections := r.connections.set clientSock.fd i })
    | _ => none

/-! ### Dispatch -/

/-- The second half of `_flush_pending_unregister`. -/
def watchNewBackend (i : Nat) (conn : ProxyConnection) (sel : Selector) : Attempt :=
  match conn.backendSock with
  | none => sel.pass
  | some sock =>
      if conn.state = .connectingToBackend ∨ conn.state = .forwardingRequest then
        (sel.register sock eventWrite (some i)).except fun sel =>
          (sel.modify sock eventWrite (some i)).except Selector.pass
      else sel.pass

/-- `_flush_pending_unregister` -/
def flushPendingUnregister (i : Nat) (r : Reactor) : Outcome Reactor :=
  match r.fleet.sessions[i]? with
  | none => .returned r
  | some s =>
      match s.conn.pendingBackendUnregister with
      | none => .returned r
      | some old =>
          (r.withSelector fun sel => (sel.unregister old).except Selector.pass).andThen fun r =>
            withSelector (watchNewBackend i s.conn) { r with fleet := r.fleet.clearPending i }

/-- The changes of interest that `_transition` makes, by the state the connection is in. -/
def followState (i : Nat) (conn : ProxyConnection) (sel : Selector) : Attempt :=
  match conn.state, conn.backendSock with
  | .connectingToBackend, some sock => (sel.register sock eventWrite (some i)).except Selector.pass
  | .forwardingRequest, some sock =>
      (sel.modify sock eventWrite (some i)).except fun sel =>
        (sel.register sock eventWrite (some i)).except Selector.pass
  | .readingResponse, some sock => (sel.modify sock eventRead (some i)).except Selector.pass
  | .forwardingResponse, backend =>
      ((sel.modify conn.clientSock eventWrite (some i)).except Selector.pass).andThen fun sel =>
        match backend with
        | none => sel.pass
        | some sock => (sel.unregister sock).except Selector.pass
  | _, _ => sel.pass

/-- `_transition`; without a pending socket `_flush_pending_unregister` returns at once. -/
def transition (i : Nat) (prevState : State) (r : Reactor) : Outcome Reactor :=
  (r.flushPendingUnregister i).andThen fun r =>
    match r.fleet.sessions[i]? with
    | none => .returned r
    | some s =>
        if s.conn.state = prevState then .returned r else r.withSelector (followState i s.conn)

/-- One branch of `_dispatch`: a handler call and its transition. -/
def handleEvent (r : Reactor) (i : Nat) (enabled : Bool) (c : Call) (io : Io) : Outcome Reactor :=
  match r.fleet.sessions[i]? with
  | none => .hung
  | some s =>
      if enabled then
        ((r.fleet.call cfg i c io).map fun fleet => { r with fleet := fleet }).andThen
          (transition i s.conn.state)
      else .returned r

/-- The four branches of `_dispatch`, in order: the test of each, and the handler it calls. -/
def branches (isClient isBackend : Bool) (mask : Mask) : List (Bool × Call) :=
  [(isClient && mask.read, .clientReadable), (isClient && mask.write, .clientWritable),
    (isBackend && mask.read, .backendReadable), (isBackend && mask.write, .backendWritable)]

def runBranches (i : Nat) (io : Call → Io) : List (Bool × Call) → Reactor → Outcome Reactor
  | [], r => .returned r
  | (enabled, c) :: rest, r =>
      (r.handleEvent cfg i enabled c (io c)).andThen (runBranches i io rest)

/-- `_dispatch`, with the answers to each of the calls it can make. -/
def dispatch (i : Nat) (sock : Sock) (mask : Mask) (io : Call → Io) (r : Reactor) : Outcome Reactor :=
  match r.fleet.sessions[i]? with
  | none => .hung
  | some s =>
      let isClient : Bool := sock = s.conn.clientSock
      let isBackend : Bool := s.conn.backendSock = some sock
      ((runBranches cfg i io (branches isClient isBackend mask) r).andThen
        (flushPendingUnregister i)).andThen fun r => .returned (r.scheduleDeadline i)

/-! ### Reap -/

/-- The sockets that `_reap` unregisters. -/
def currentSocks (conn : ProxyConnection) : List Sock := conn.clientSock :: conn.backendSock.toList

/-- `try: self._sel.unregister(sock) except (KeyError, ValueError): pass`, which raises nothing. -/
def unregisterQuietly (sel : Selector) (sock : Sock) : Selector :=
  ((sel.unregister sock).except Selector.pass).selector

/-- `cleanup` -/
def cleanup (conn : ProxyConnection) (os : Os) : Os :=
  (currentSocks conn ++ conn.pendingBackendUnregister.toList).foldl Os.close os

/-- One round of `_reap`. -/
def reapOne (r : Reactor) (fd : Nat) : Reactor :=
  match r.connections.get? fd with
  | none => r
  | some i =>
      match r.fleet.sessions[i]?, r.handles[i]? with
      | some s, some handle =>
          let sel := (currentSocks s.conn).foldl unregisterQuietly r.selector
          { r.setSelector { sel with os := cleanup s.conn sel.os } with
            connections := r.connections.pop fd
            connById := r.connById.pop handle.connId
            handles := r.handles.set i { handle with reaped := true } }
      | _, _ => r

def deadFds (r : Reactor) : List Nat :=
  (r.connections.items.filter fun item =>
    (r.fleet.sessions[item.2]?).any fun s => s.conn.state = .done).map Prod.fst

/-- `_reap` -/
def reap (r : Reactor) : Reactor := r.deadFds.foldl reapOne r

/-! ### Shutdown -/

/-- `for conn in self._connections.values(): conn.cleanup()` -/
def cleanupAll (r : Reactor) : Os :=
  r.connections.items.foldl
    (fun os item =>
      match r.fleet.sessions[item.2]? with
      | none => os
      | some s => cleanup s.conn os)
    r.fleet.os

/-- `_shutdown`, which `start` calls when `_loop` has ended. -/
def shutdown (r : Reactor) : Reactor :=
  let sel := unregisterQuietly ⟨r.cleanupAll, r.fdToKey⟩ r.serverSock
  { r with
    fleet := { r.fleet with os := (sel.os.close r.serverSock).closeEpoll }
    fdToKey := .empty
    connections := Dict.empty
    deadlines := HeapQueue.empty
    connById := Dict.empty }

/-! ### The loop -/

inductive Event where
  | selectTimeout (reading : Time)
  /-- A connection accepted, with the descriptor number and the `id()` it gets. -/
  | accept (fd : Nat) (addr : Bytes × Nat) (clock : List Time) (connId : Nat)
  | dispatch (i : Nat) (sock : Sock) (mask : Mask) (io : Call → Io)
  | expireTimeouts (reading : Time) (io : Nat → Io)
  | reap
  /-- A call of the health-checker thread. -/
  | mark (m : Mark)

/-- What escapes `_dispatch` makes the connection `DONE`. -/
def step (r : Reactor) : Event → Option Reactor
  | .selectTimeout reading => some (r.selectTimeout reading).2
  | .accept fd addr clock connId => r.accept cfg fd addr clock connId
  | .dispatch i sock mask io =>
      match r.dispatch cfg i sock mask io with
      | .returned r => some r
      | .raised r => some (r.markDone i)
      | .hung => none
  | .expireTimeouts reading io => r.expireTimeouts cfg reading io
  | .reap => some r.reap
  | .mark m => some { r with fleet := { r.fleet with router := r.fleet.router.mark m } }

end Steps

/-! ### A run with one request -/

/-- One round of the loop after another: a client is accepted, its request is forwarded to a backend that
accepts the connection at once, and the answer is sent back. -/
def oneRequest : List Event :=
  [.selectTimeout 0, .accept 7 (PyText.ascii "10.0.0.1", 50000) [] 5,
    .selectTimeout 1,
    .dispatch 0 ⟨1, 7⟩ eventRead fun _ =>
      { Fleet.quiet with recv := .data (PyText.ascii "GET / HTTP/1.1\r\n\r\n") },
    .selectTimeout 2,
    .dispatch 0 ⟨2, 9⟩ eventWrite fun _ => { Fleet.quiet with send := .sent 4096 },
    .selectTimeout 3,
    .dispatch 0 ⟨2, 9⟩ eventRead fun _ =>
      { Fleet.quiet with
        recv := .data (PyText.ascii "HTTP/1.1 200 OK\r\nContent-Length: 0\r\n\r\n") },
    .selectTimeout 4,
    .dispatch 0 ⟨1, 7⟩ eventWrite fun _ => { Fleet.quiet with send := .sent 4096 },
    .expireTimeouts 5 fun _ => Fleet.quiet, .reap]

end Reactor

end LoadBalancer
