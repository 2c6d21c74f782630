import Mathlib.Data.Finset.Basic
import LoadBalancer.Dict
import LoadBalancer.Machine

/-! The supervisor of `--workers N`. The parent forks its workers, waits for them, forwards signals, and takes
the others down when one ends. Parent, workers and signals in flight are one system: a step is a statement of
the parent, a stage of a worker's start, the delivery of a `SIGTERM`, or the end of a worker. -/

namespace LoadBalancer

/-- A status of `os.waitpid`, as `WIFEXITED` and `WIFSIGNALED` take it apart. -/
inductive WaitStatus where
  | exited (code : Nat)
  | signaled (sig : Nat)
  | other (status : Nat)

/-- How far a worker has come; this decides what a `SIGTERM` does to it. -/
inductive Stage where
  /-- It has the handler of the parent still, and the children forked before it. -/
  | inherited (children : List Nat)
  /-- `signal.SIG_DFL` -/
  | default
  /-- `_run_worker` has installed its handler, and the reactor does not run yet. -/
  | starting
  /-- `_running` -/
  | serving
  /-- `not _running`, after `reactor.stop()` -/
  | stopping

/-- The stages of a worker's start. -/
def Stage.next : Stage → Option Stage
  | .inherited _ => some .default
  | .default => some .starting
  | .starting => some .serving
  | .serving | .stopping => none

/-- A child that has not been waited for. -/
inductive Process where
  /-- `deaf` says that a `SIGTERM` was lost on it. -/
  | running (stage : Stage) (deaf : Bool)
  | ended (status : WaitStatus)

def Process.isRunning : Process → Bool
  | .running _ _ => true
  | .ended _ => false

/-- Where the parent is. -/
inductive Place where
  /-- At the head of the `for` loop, with this many workers left to fork. -/
  | forking (left : Nat)
  /-- Between `os.fork` and `children.append`. -/
  | forked (pid left : Nat)
  /-- At the head of the `while` loop. -/
  | waiting
  /-- `os.waitpid` has returned. -/
  | reaped (pid : Nat) (status : WaitStatus)
  /-- In the loop that shuts down the remaining workers. -/
  | teardown (remaining : List Nat)
  | exited (code : Nat)
  /-- `os.fork` has raised an `OSError`. -/
  | crashed

/-- The parent is in the loops, where a signal finds its handler. -/
def Place.handlesSignals : Place → Bool
  | .exited _ | .crashed => false
  | _ => true

structure Supervisor where
  place : Place
  children : List Nat
  exitCode : Nat
  processes : Dict Nat Process
  /-- The processes that a `SIGTERM` is on its way to. -/
  pending : Finset Nat
  /-- Where the parent has sent a `SIGTERM`. Nothing in the program reads it. -/
  told : List Nat
  /-- What `os.waitpid` has returned. Nothing in the program reads it. -/
  reaped : List (Nat × WaitStatus)

namespace Supervisor

inductive Event where
  /-- `os.fork()` returns a process number that no child has. -/
  | fork (pid : Nat)
  | forkFails
  | append
  | enterLoop
  /-- `os.waitpid(-1, 0)` returns a child that has ended. -/
  | waitpid (pid : Nat)
  /-- `except ChildProcessError: break` -/
  | noChild
  /-- `while children` ends. -/
  | leave
  /-- From `if pid not in children` to `list(children)`. -/
  | handleExit
  | killNext
  /-- A `SIGINT` or `SIGTERM` reaches the parent, which may be anywhere. -/
  | interrupt
  | advance (pid : Nat)
  /-- A `SIGTERM` reaches a worker. -/
  | deliver (pid : Nat)
  | ends (pid : Nat) (status : WaitStatus)
  /-- Another process sends a `SIGTERM` to a worker. -/
  | outsider (pid : Nat)

/-- Without `SO_REUSEPORT` the supervisor exits at once. -/
def init (hasReuseport : Bool) (workers : Nat) : Supervisor where
  place := if hasReuseport then .forking workers else .exited 1
  children := []
  exitCode := 0
  processes := Dict.empty
  pending := ∅
  told := []
  reaped := []

variable (s : Supervisor)

def isRunning (pid : Nat) : Bool := (s.processes.get? pid).any Process.isRunning

/-- `os.kill(pid, signal.SIGTERM)` for each of them. It comes to nothing if the process has ended, and to a
`ProcessLookupError`, which is passed over, if it has been waited for. -/
def kill (pids : List Nat) : Supervisor :=
  { s with pending := s.pending ∪ pids.toFinset.filter fun pid => s.isRunning pid }

/-- The parent sends `SIGTERM`. -/
def terminate (pids : List Nat) : Supervisor := { s.kill pids with told := s.told ++ pids }

/-- `_forward_and_exit` -/
def forwardAndExit : Supervisor := s.terminate s.children

def setProcess (pid : Nat) (process : Process) : Supervisor :=
  { s with processes := s.processes.set pid process }

/-- The process ends; what was on its way to it is lost. -/
def endProcess (pid : Nat) (status : WaitStatus) : Supervisor :=
  { s.setProcess pid (.ended status) with pending := s.pending.erase pid }

/-- What a `SIGTERM` does to a worker. One that has the parent's handler still forwards it to the children that
it knows; one whose reactor does not run yet clears a flag that `start` will set. -/
def receive (pid : Nat) (deaf : Bool) : Stage → Supervisor
  | .inherited children =>
      ({ s with pending := s.pending.erase pid }.setProcess pid (.running (.inherited children) true)).kill
        children
  | .default => s.endProcess pid (.signaled 15)
  | .starting => { s with pending := s.pending.erase pid }.setProcess pid (.running .starting true)
  | .serving => { s with pending := s.pending.erase pid }.setProcess pid (.running .stopping deaf)
  | .stopping => { s with pending := s.pending.erase pid }

def updateExitCode (exitCode : Nat) : WaitStatus → Nat
  | .exited code => if code ≠ 0 then code else exitCode
  | .signaled _ => 1
  | .other _ => 1

def step : Event → Option Supervisor
  | .fork pid =>
      match s.place, s.processes.get? pid with
      | .forking (left + 1), none =>
          some { s.setProcess pid (.running (.inherited s.children) false) with place := .forked pid left }
      | _, _ => none
  | .forkFails =>
      match s.place with
      | .forking (_ + 1) => some { s with place := .crashed }
      | _ => none
  | .append =>
      match s.place with
      | .forked pid left => some { s with children := s.children ++ [pid], place := .forking left }
      | _ => none
  | .enterLoop =>
      match s.place with
      | .forking 0 => some { s with exitCode := 0, place := .waiting }
      | _ => none
  | .waitpid pid =>
      match s.place, s.children, s.processes.get? pid with
      | .waiting, _ :: _, some (.ended status) =>
          some
            { s with
              place := .reaped pid status
              processes := s.processes.pop pid
              reaped := s.reaped ++ [(pid, status)] }
      | _, _, _ => none
  | .noChild =>
      match s.place, s.children, s.processes.items with
      | .waiting, _ :: _, [] => some { s with place := .exited s.exitCode }
      | _, _, _ => none
  | .leave =>
      match s.place, s.children with
      | .waiting, [] => some { s with place := .exited s.exitCode }
      | _, _ => none
  | .handleExit =>
      match s.place with
      | .reaped pid status =>
          if pid ∉ s.children then some { s with place := .waiting }
          else
            some
              { s with
                children := s.children.erase pid
                exitCode := updateExitCode s.exitCode status
                place := .teardown (s.children.erase pid) }
      | _ => none
  | .killNext =>
      match s.place with
      | .teardown [] => some { s with place := .waiting }
      | .teardown (pid :: remaining) => some { s.terminate [pid] with place := .teardown remaining }
      | _ => none
  | .interrupt => if s.place.handlesSignals then some s.forwardAndExit else none
  | .advance pid =>
      match s.processes.get? pid with
      | some (.running stage deaf) => stage.next.map fun next => s.setProcess pid (.running next deaf)
      | _ => none
  | .deliver pid =>
      match s.processes.get? pid with
      | some (.running stage deaf) => if pid ∈ s.pending then some (s.receive pid deaf stage) else none
      | _ => none
  | .ends pid status =>
      match s.processes.get? pid with
      | some (.running _ _) => some (s.endProcess pid status)
      | _ => none
  | .outsider pid => some (s.kill [pid])

/-! ### What each step needs and what it makes of the state -/

variable {s}

inductive Moves (s : Supervisor) : Event → Supervisor → Prop
  | fork {pid left : Nat} (place : s.place = .forking (left + 1)) (fresh : s.processes.get? pid = none) :
      Moves s (.fork pid)
        { s.setProcess pid (.running (.inherited s.children) false) with place := .forked pid left }
  | forkFails {left : Nat} (place : s.place = .forking (left + 1)) :
      Moves s .forkFails { s with place := .crashed }
  | append {pid left : Nat} (place : s.place = .forked pid left) :
      Moves s .append { s with children := s.children ++ [pid], place := .forking left }
  | enterLoop (place : s.place = .forking 0) : Moves s .enterLoop { s with exitCode := 0, place := .waiting }
  | waitpid {pid : Nat} {status : WaitStatus} (place : s.place = .waiting)
      (ended : s.processes.get? pid = some (.ended status)) :
      Moves s (.waitpid pid)
        { s with
          place := .reaped pid status
          processes := s.processes.pop pid
          reaped := s.reaped ++ [(pid, status)] }
  | noChild (place : s.place = .waiting) (children : s.children ≠ []) (empty : s.processes.items = []) :
      Moves s .noChild { s with place := .exited s.exitCode }
  | leave (place : s.place = .waiting) (empty : s.children = []) :
      Moves s .leave { s with place := .exited s.exitCode }
  | stranger {pid : Nat} {status : WaitStatus} (place : s.place = .reaped pid status)
      (other : pid ∉ s.children) : Moves s .handleExit { s with place := .waiting }
  | handleExit {pid : Nat} {status : WaitStatus} (place : s.place = .reaped pid status)
      (own : pid ∈ s.children) :
      Moves s .handleExit
        { s with
          children := s.children.erase pid
          exitCode := updateExitCode s.exitCode status
          place := .teardown (s.children.erase pid) }
  | allTold (place : s.place = .teardown []) : Moves s .killNext { s with place := .waiting }
  | killNext {pid : Nat} {remaining : List Nat} (place : s.place = .teardown (pid :: remaining)) :
      Moves s .killNext { s.terminate [pid] with place := .teardown remaining }
  | interrupt (place : s.place.handlesSignals = true) : Moves s .interrupt s.forwardAndExit
  | advance {pid : Nat} {stage next : Stage} {deaf : Bool}
      (running : s.processes.get? pid = some (.running stage deaf)) (further : stage.next = some next) :
      Moves s (.advance pid) (s.setProcess pid (.running next deaf))
  | deliver {pid : Nat} {stage : Stage} {deaf : Bool}
      (running : s.processes.get? pid = some (.running stage deaf)) (pending : pid ∈ s.pending) :
      Moves s (.deliver pid) (s.receive pid deaf stage)
  | ends {pid : Nat} {stage : Stage} {deaf : Bool} {status : WaitStatus}
      (running : s.processes.get? pid = some (.running stage deaf)) :
      Moves s (.ends pid status) (s.endProcess pid status)
  | outsider {pid : Nat} : Moves s (.outsider pid) (s.kill [pid])

theorem moves_of_step {e : Event} {s' : Supervisor} (h : s.step e = some s') : s.Moves e s' := by
  cases e with
  | fork pid =>
      simp only [step] at h
      split at h
      · next left hplace hfresh =>
        obtain rfl := Option.some.inj h
        exact .fork hplace hfresh
      · cases h
  | forkFails =>
      simp only [step] at h
      split at h
      · next left hplace =>
        obtain rfl := Option.some.inj h
        exact .forkFails hplace
      · cases h
  | append =>
      simp only [step] at h
      split at h
      · next pid left hplace =>
        obtain rfl := Option.some.inj h
        exact .append hplace
      · cases h
  | enterLoop =>
      simp only [step] at h
      split at h
      · next hplace =>
        obtain rfl := Option.some.inj h
        exact .enterLoop hplace
      · cases h
  | waitpid pid =>
      simp only [step] at h
      split at h
      · next status hplace hchildren hended =>
        obtain rfl := Option.some.inj h
        exact .waitpid hplace hended
      · cases h
  | noChild =>
      simp only [step] at h
      split at h
      · next hplace hchildren hnone =>
        obtain rfl := Option.some.inj h
        exact .noChild hplace (by rw [hchildren]; exact List.cons_ne_nil _ _) hnone
      · cases h
  | leave =>
      simp only [step] at h
      split at h
      · next hplace hnone =>
        obtain rfl := Option.some.inj h
        exact .leave hplace hnone
      · cases h
  | handleExit =>
      simp only [step] at h
      split at h
      · next pid status hplace =>
        split at h
        · next hother =>
          obtain rfl := Option.some.inj h
          exact .stranger hplace hother
        · next hown =>
          obtain rfl := Option.some.inj h
          exact .handleExit hplace (not_not.mp hown)
      · cases h
  | killNext =>
      simp only [step] at h
      split at h
      · next hplace =>
        obtain rfl := Option.some.inj h
        exact .allTold hplace
      · next pid remaining hplace =>
        obtain rfl := Option.some.inj h
        exact .killNext hplace
      · cases h
  | interrupt =>
      simp only [step] at h
      split at h
      · next hplace =>
        obtain rfl := Option.some.inj h
        exact .interrupt hplace
      · cases h
  | advance pid =>
      simp only [step] at h
      split at h
      · next stage deaf hrunning =>
        obtain ⟨next, hnext, rfl⟩ := Option.map_eq_some_iff.mp h
        exact .advance hrunning hnext
      · cases h
  | deliver pid =>
      simp only [step] at h
      split at h
      · next stage deaf hrunning =>
        split at h
        · next hpending =>
          obtain rfl := Option.some.inj h
          exact .deliver hrunning hpending
        · cases h
      · cases h
  | ends pid status =>
      simp only [step] at h
      split at h
      · next stage deaf hrunning =>
        obtain rfl := Option.some.inj h
        exact .ends hrunning
      · cases h
  | outsider pid =>
      obtain rfl := Option.some.inj h
      exact .outsider

end Supervisor

end LoadBalancer
