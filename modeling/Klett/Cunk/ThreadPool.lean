import Klett.Cunk.MpmcQueue
import Klett.Lib.Fifo
import Klett.Lib.Placement

namespace Klett.Cunk.ThreadPool

open Klett.Lib

section Data

structure ThreadPoolConfig where
  numThreads : ℕ := 0
  workerQueueSize : ℕ := 1024
  globalQueueSize : ℕ := 4096

/-- The number of workers that the constructor makes, given `hardware_concurrency()`. -/
def workerCount (hardware : ℕ) (config : ThreadPoolConfig) : ℕ :=
  if config.numThreads = 0 then if hardware = 0 then 4 else hardware else config.numThreads

/-- A `std::function<void()>`, which may be empty, with the number of the call of `submit` it came with. -/
structure Task (κ : Type) where
  id : ℕ
  callable : Option κ
  deriving DecidableEq

variable {σ κ : Type} {w g : ℕ}

/-- What a move leaves behind. -/
def Task.movedFrom (task : Task κ) : Task κ := { task with callable := none }

/-- A thread in `submit`. -/
inductive Submitter (κ : Type) where
  | idle
  | check (task : Task κ)
  | ticket (task : Task κ)
  | push (task : Task κ) (idx : ℕ)
  | overflow (task : Task κ)
  | notify

/-- Which loop of `worker_loop` a call returns to. -/
inductive Loop where
  | main
  | drainOwn
  | drainGlobal

inductive Worker (κ : Type) where
  | check
  | own
  | steal (i : ℕ)
  | global
  | wait
  | call (task : Task κ) (loop : Loop)
  | running (loop : Loop)
  | drainOwn
  | drainGlobal
  | done

def Loop.resume : Loop → Worker κ
  | .main => .check
  | .drainOwn => .drainOwn
  | .drainGlobal => .drainGlobal

/-- Beside the pool: what callers submitted, the numbers of the tasks that a queue took before shutdown was
requested, and what became of the tasks. -/
structure State (σ κ : Type) (w g : ℕ) where
  stop : Bool := false
  nextWorker : ℕ := 0
  queues : ℕ → Fifo (Task κ) w := fun _ => .empty
  global : Fifo (Task κ) g := .empty
  submitters : σ → Submitter κ := fun _ => .idle
  workers : ℕ → Worker κ := fun _ => .check
  submitted : List (Option κ) := []
  accepted : List ℕ := []
  executed : List (Task κ) := []
  dropped : List (Task κ) := []

inductive Action (σ κ : Type) where
  | submit (i : σ) (callable : Option κ)
  | submitter (i : σ)
  | worker (k : ℕ)
  | shutdown

end Data

section Model

variable {σ κ : Type} [DecidableEq σ] {w g : ℕ} (n : ℕ)

def State.atSubmitter (s : State σ κ w g) (i : σ) (p : Submitter κ) : State σ κ w g :=
  { s with submitters := Function.update s.submitters i p }

def State.atWorker (s : State σ κ w g) (k : ℕ) (p : Worker κ) : State σ κ w g :=
  { s with workers := Function.update s.workers k p }

def State.withQueue (s : State σ κ w g) (v : ℕ) (q : Fifo (Task κ) w) : State σ κ w g :=
  { s with queues := Function.update s.queues v q }

def State.withGlobal (s : State σ κ w g) (q : Fifo (Task κ) g) : State σ κ w g := { s with global := q }

def State.accept (s : State σ κ w g) (task : Task κ) : State σ κ w g :=
  { s with accepted := if s.stop then s.accepted else s.accepted ++ [task.id] }

def State.execute (s : State σ κ w g) (task : Task κ) : State σ κ w g := { s with executed := s.executed ++ [task] }

def State.drop (s : State σ κ w g) (task : Task κ) : State σ κ w g := { s with dropped := s.dropped ++ [task] }

/-- `try_push` takes its argument by value, so that the caller's task has been moved away when it fails. -/
def submit (s : State σ κ w g) (i : σ) : Option (State σ κ w g) :=
  match s.submitters i with
  | .idle => none
  | .check task =>
    if s.stop then some ((s.drop task).atSubmitter i .idle) else some (s.atSubmitter i (.ticket task))
  | .ticket task =>
    some { s.atSubmitter i (.push task (s.nextWorker % n)) with
      nextWorker := (s.nextWorker + 1) % MpmcQueue.size }
  | .push task idx =>
    match (s.queues idx).tryPush task with
    | some q => some (((s.withQueue idx q).accept task).atSubmitter i .notify)
    | none => some (s.atSubmitter i (.overflow task.movedFrom))
  | .overflow task =>
    match s.global.tryPush task with
    | some q => some (((s.withGlobal q).accept task).atSubmitter i .notify)
    | none => some ((s.drop task).atSubmitter i .idle)
  | .notify => some (s.atSubmitter i .idle)

/-- The pop of `try_execute_from`, and what is next when the queue is empty. -/
def tryExecuteFrom (s : State σ κ w g) (k v : ℕ) (loop : Loop) (otherwise : Worker κ) : State σ κ w g :=
  match (s.queues v).tryPop with
  | some (task, q) => (s.withQueue v q).atWorker k (.call task loop)
  | none => s.atWorker k otherwise

def tryExecuteGlobal (s : State σ κ w g) (k : ℕ) (loop : Loop) (otherwise : Worker κ) : State σ κ w g :=
  match s.global.tryPop with
  | some (task, q) => (s.withGlobal q).atWorker k (.call task loop)
  | none => s.atWorker k otherwise

/-- The wait has a deadline, so that it may end at any time. A call may throw, also the call of an empty
function, and what it throws is swallowed. -/
def workerLoop (s : State σ κ w g) (k : ℕ) : Option (State σ κ w g) :=
  match s.workers k with
  | .check => some (s.atWorker k (if s.stop then .drainOwn else .own))
  | .own => some (tryExecuteFrom s k k .main (.steal 1))
  | .steal i =>
    if i < n then some (tryExecuteFrom s k ((k + i) % n) .main (.steal (i + 1))) else some (s.atWorker k .global)
  | .global => some (tryExecuteGlobal s k .main .wait)
  | .wait => some (s.atWorker k .check)
  | .call task loop => some ((s.execute task).atWorker k (.running loop))
  | .running loop => some (s.atWorker k loop.resume)
  | .drainOwn => some (tryExecuteFrom s k k .drainOwn .drainGlobal)
  | .drainGlobal => some (tryExecuteGlobal s k .drainGlobal .done)
  | .done => none

def act (s : State σ κ w g) : Action σ κ → Option (State σ κ w g)
  | .submit i callable =>
    match s.submitters i with
    | .idle =>
      some { s.atSubmitter i (.check { id := s.submitted.length, callable := callable }) with
        submitted := s.submitted ++ [callable] }
    | _ => none
  | .submitter i => submit n s i
  | .worker k => if k < n then workerLoop n s k else none
  | .shutdown => some { s with stop := true }

def machine : Machine (State σ κ w g) (Action σ κ) Empty where
  step s a := (act n s a).map (·, [])

end Model

section Pool

variable (σ κ : Type) [DecidableEq σ] (hardware : ℕ) (config : ThreadPoolConfig)

abbrev Pool := State σ κ (MpmcQueue.capacityOf config.workerQueueSize) (MpmcQueue.capacityOf config.globalQueueSize)

def pool : Machine (Pool σ κ config) (Action σ κ) Empty := machine (workerCount hardware config)

end Pool

section Specification

variable {σ κ : Type} {w g : ℕ} (n : ℕ)

/-- In the queue of a worker, in the global queue, or with the worker that is about to call it. -/
def Pending (s : State σ κ w g) (task : Task κ) : Prop :=
  (∃ v < n, task ∈ (s.queues v).items) ∨ task ∈ s.global.items ∨ ∃ k < n, ∃ loop, s.workers k = .call task loop

/-- Every accepted task is executed, once and as the callable that was submitted. -/
structure Delivered (s : State σ κ w g) : Prop where
  once : (s.executed.map Task.id).Nodup
  own : ∀ task ∈ s.executed, task.id ∈ s.accepted → s.submitted[task.id]? = some task.callable
  kept : ∀ id ∈ s.accepted, ∃ callable, s.submitted[id]? = some callable ∧
    (Pending n s ⟨id, callable⟩ ∨ ⟨id, callable⟩ ∈ s.executed)
  finished : (∀ k < n, s.workers k = .done) → ∀ id ∈ s.accepted, ∃ callable, s.submitted[id]? = some callable ∧
    ⟨id, callable⟩ ∈ s.executed

/-- No queue takes what is left of a task that its caller submitted as a callable: a task that its worker's queue
refused was empty from the start, or the global queue refuses it too, or shutdown has been requested. -/
def Fits (_ : Trace (Action σ κ) Empty) (s : State σ κ w g) : Action σ κ → Prop
  | .submitter i =>
    match s.submitters i with
    | .overflow task => s.submitted[task.id]? = some none ∨ g ≤ s.global.items.length ∨ s.stop = true
    | _ => True
  | _ => True

end Specification

end Klett.Cunk.ThreadPool
