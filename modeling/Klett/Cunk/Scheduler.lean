import Klett.Cunk.MpmcQueue
import Klett.Lib.Machine
import Mathlib.Logic.Function.Basic

namespace Klett.Cunk.Scheduler

open Klett.Lib

section Data

structure ScheduledTask (α : Type) where
  id : ℕ
  deadline : ℤ
  interval : ℤ
  task : α
  cancelled : Bool := false
  deriving DecidableEq

/-- The arguments of `schedule_once` and `schedule_periodic`. -/
structure Request (α : Type) where
  delay : ℤ
  interval : ℤ
  task : α

/-- A thread in `schedule_once`, `schedule_periodic` or `cancel`. -/
inductive Client (α : Type) where
  | idle
  | ticket (r : Request α)
  | lock (id : ℕ) (r : Request α)
  | push (id : ℕ) (r : Request α)
  | unlock (id : ℕ)
  | notify (id : ℕ)
  | cancelLock (id : ℕ)
  | cancelUnlock (id : ℕ)

/-- The thread in `scheduler_loop`. The wait without a deadline goes from `testRunning` to `relock`, the wait with
one from `timedTest` to `timedRelock`. -/
inductive Loop (α : Type) where
  | off
  | check
  | lock
  | empty
  | testRunning
  | testQueue
  | block
  | blocked
  | relock
  | due
  | timedTest (deadline : ℤ)
  | timedBlock (deadline : ℤ)
  | timedBlocked (deadline : ℤ)
  | timedRelock (deadline : ℤ) (timedOut : Bool)
  | unlock
  | unlockRun (task : ScheduledTask α)
  | run (task : ScheduledTask α)
  | running
  deriving DecidableEq

/-- The thread that starts the scheduler and shuts it down. -/
inductive Manager where
  | idle
  | startLoad
  | startStore
  | spawn
  | shutdownStore
  | notifyAll
  | join
  deriving DecidableEq

inductive Owner (ι : Type) where
  | loop
  | client (i : ι)
  deriving DecidableEq

structure State (ι α : Type) where
  now : ℤ
  running : Bool := false
  nextId : ℕ := 1
  queue : List (ScheduledTask α) := []
  mutex : Option (Owner ι) := none
  clients : ι → Client α := fun _ => .idle
  loop : Loop α := .off
  manager : Manager := .idle

inductive Action (ι α : Type) where
  | schedule (i : ι) (r : Request α)
  | cancel (i : ι) (id : ℕ)
  | client (i : ι)
  | loop (pick : ℕ)
  | spurious
  | start
  | shutdown
  | manager
  | tick (d : ℕ)

inductive Event (ι α : Type) where
  | scheduled (i : ι) (id : ℕ)
  | cancelled (i : ι) (id : ℕ) (result : Bool)
  | started (task : ScheduledTask α)
  deriving DecidableEq

end Data

section Model

variable {ι α : Type}

def scheduleOnce (i : ι) (delay : ℤ) (task : α) : Action ι α := .schedule i ⟨delay, 0, task⟩

def schedulePeriodic (i : ι) (initialDelay interval : ℤ) (task : α) : Action ι α :=
  .schedule i ⟨initialDelay, interval, task⟩

def State.atLoop (s : State ι α) (l : Loop α) : State ι α := { s with loop := l }

def State.atManager (s : State ι α) (m : Manager) : State ι α := { s with manager := m }

def State.withRunning (s : State ι α) (running : Bool) : State ι α := { s with running := running }

def State.withQueue (s : State ι α) (queue : List (ScheduledTask α)) : State ι α := { s with queue := queue }

def State.withMutex (s : State ι α) (mutex : Option (Owner ι)) : State ι α := { s with mutex := mutex }

/-- Only the loop ever waits. -/
def State.notify (s : State ι α) : State ι α :=
  match s.loop with
  | .blocked => s.atLoop .relock
  | .timedBlocked deadline => s.atLoop (.timedRelock deadline false)
  | _ => s

/-- `queue_.top()` is a task with the least deadline. Which one it is among several depends on the heap. -/
def IsTop (queue : List (ScheduledTask α)) (task : ScheduledTask α) : Prop :=
  ∀ other ∈ queue, task.deadline ≤ other.deadline

instance (queue : List (ScheduledTask α)) (task : ScheduledTask α) : Decidable (IsTop queue task) :=
  inferInstanceAs (Decidable (∀ other ∈ queue, task.deadline ≤ other.deadline))

/-- The part of the loop's body that looks at the top, where the mutex is held. -/
def due (s : State ι α) (pick : ℕ) : Option (State ι α) :=
  match s.queue[pick]? with
  | none => none
  | some task =>
    if IsTop s.queue task then
      if task.deadline ≤ s.now then
        let rest := s.queue.eraseIdx pick
        if task.cancelled then some ((s.withQueue rest).atLoop .unlock)
        else if 0 < task.interval then
          let next := { task with deadline := task.deadline + task.interval, cancelled := false }
          some ((s.withQueue (rest ++ [next])).atLoop (.unlockRun task))
        else some ((s.withQueue rest).atLoop (.unlockRun task))
      else some (s.atLoop (.timedTest task.deadline))
    else none

def schedulerLoop (s : State ι α) (pick : ℕ) : Option (State ι α × List (Event ι α)) :=
  match s.loop with
  | .off => none
  | .check => some (s.atLoop (if s.running then .lock else .off), [])
  | .lock => if s.mutex.isNone then some ((s.withMutex (some .loop)).atLoop .empty, []) else none
  | .empty => some (s.atLoop (if s.queue.isEmpty then .testRunning else .due), [])
  | .testRunning => some (s.atLoop (if s.running then .testQueue else .unlock), [])
  | .testQueue => some (s.atLoop (if s.queue.isEmpty then .block else .unlock), [])
  | .block => some ((s.withMutex none).atLoop .blocked, [])
  | .blocked => none
  | .relock => if s.mutex.isNone then some ((s.withMutex (some .loop)).atLoop .testRunning, []) else none
  | .due => (due s pick).map (·, [])
  | .timedTest deadline => some (s.atLoop (if s.running then .timedBlock deadline else .unlock), [])
  | .timedBlock deadline => some ((s.withMutex none).atLoop (.timedBlocked deadline), [])
  | .timedBlocked deadline => if deadline ≤ s.now then some (s.atLoop (.timedRelock deadline true), []) else none
  | .timedRelock deadline timedOut =>
    if s.mutex.isNone then
      some ((s.withMutex (some .loop)).atLoop (if timedOut then .unlock else .timedTest deadline), [])
    else none
  | .unlock => some ((s.withMutex none).atLoop .check, [])
  | .unlockRun task => some ((s.withMutex none).atLoop (.run task), [])
  | .run task => some (s.atLoop .running, [.started task])
  | .running => some (s.atLoop .check, [])

def manage (s : State ι α) : Option (State ι α) :=
  match s.manager with
  | .idle => none
  | .startLoad => some (s.atManager (if s.running then .idle else .startStore))
  | .startStore => some ((s.withRunning true).atManager .spawn)
  | .spawn =>
    match s.loop with
    | .off => some ((s.atLoop .check).atManager .idle)
    | _ => none
  | .shutdownStore => some ((s.withRunning false).atManager .notifyAll)
  | .notifyAll => some (s.notify.atManager .join)
  | .join =>
    match s.loop with
    | .off => some (s.atManager .idle)
    | _ => none

variable [DecidableEq ι]

def State.atClient (s : State ι α) (i : ι) (c : Client α) : State ι α :=
  { s with clients := Function.update s.clients i c }

/-- `cancel` takes the mutex and marks nothing. -/
def clientStep (s : State ι α) (i : ι) : Option (State ι α × List (Event ι α)) :=
  match s.clients i with
  | .idle => none
  | .ticket r =>
    some ({ s.atClient i (.lock s.nextId r) with nextId := (s.nextId + 1) % MpmcQueue.size }, [])
  | .lock id r => if s.mutex.isNone then some ((s.withMutex (some (.client i))).atClient i (.push id r), []) else none
  | .push id r =>
    let task := { id := id, deadline := s.now + r.delay, interval := r.interval, task := r.task, cancelled := false }
    some ((s.withQueue (s.queue ++ [task])).atClient i (.unlock id), [])
  | .unlock id => some ((s.withMutex none).atClient i (.notify id), [])
  | .notify id => some (s.notify.atClient i .idle, [.scheduled i id])
  | .cancelLock id =>
    if s.mutex.isNone then some ((s.withMutex (some (.client i))).atClient i (.cancelUnlock id), []) else none
  | .cancelUnlock id => some ((s.withMutex none).atClient i .idle, [.cancelled i id false])

def act (s : State ι α) : Action ι α → Option (State ι α × List (Event ι α))
  | .schedule i r =>
    match s.clients i with
    | .idle => some (s.atClient i (.ticket r), [])
    | _ => none
  | .cancel i id =>
    match s.clients i with
    | .idle => some (s.atClient i (.cancelLock id), [])
    | _ => none
  | .client i => clientStep s i
  | .loop pick => schedulerLoop s pick
  | .spurious =>
    match s.loop with
    | .blocked => some (s.atLoop .relock, [])
    | .timedBlocked deadline => some (s.atLoop (.timedRelock deadline false), [])
    | _ => none
  | .start => if s.manager = .idle then some (s.atManager .startLoad, []) else none
  | .shutdown => if s.manager = .idle then some (s.atManager .shutdownStore, []) else none
  | .manager => (manage s).map (·, [])
  | .tick d => some ({ s with now := s.now + d }, [])

def machine : Machine (State ι α) (Action ι α) (Event ι α) where
  step := act

end Model

section Top

variable {ι α : Type} {s t : State ι α} {pick : ℕ}

/-- What the loop does with the task on top: it runs it, after it has put a periodic one back, or it waits for it. -/
inductive Looks (s t : State ι α) (pick : ℕ) : Prop
  | dropped (task : ScheduledTask α) (hpick : s.queue[pick]? = some task) (htop : IsTop s.queue task)
      (hdue : task.deadline ≤ s.now) (hcancelled : task.cancelled = true)
      (ht : t = (s.withQueue (s.queue.eraseIdx pick)).atLoop .unlock)
  | again (task : ScheduledTask α) (hpick : s.queue[pick]? = some task) (htop : IsTop s.queue task)
      (hdue : task.deadline ≤ s.now) (hlive : task.cancelled = false) (hinterval : 0 < task.interval)
      (ht : t = (s.withQueue (s.queue.eraseIdx pick ++
        [{ task with deadline := task.deadline + task.interval, cancelled := false }])).atLoop (.unlockRun task))
  | once (task : ScheduledTask α) (hpick : s.queue[pick]? = some task) (htop : IsTop s.queue task)
      (hdue : task.deadline ≤ s.now) (hlive : task.cancelled = false) (hinterval : ¬0 < task.interval)
      (ht : t = (s.withQueue (s.queue.eraseIdx pick)).atLoop (.unlockRun task))
  | early (task : ScheduledTask α) (hpick : s.queue[pick]? = some task) (htop : IsTop s.queue task)
      (hdue : ¬task.deadline ≤ s.now) (ht : t = s.atLoop (.timedTest task.deadline))

theorem looks_of_due (hs : due s pick = some t) : Looks s t pick := by
  unfold due at hs
  split at hs
  · cases hs
  next task hpick =>
    split_ifs at hs with htop hdue hcancelled hinterval
    · exact .dropped task hpick htop hdue hcancelled (Option.some.inj hs).symm
    · exact .again task hpick htop hdue (eq_false_of_ne_true hcancelled) hinterval (Option.some.inj hs).symm
    · exact .once task hpick htop hdue (eq_false_of_ne_true hcancelled) hinterval (Option.some.inj hs).symm
    · exact .early task hpick htop hdue (Option.some.inj hs).symm

end Top

section Specification

variable {ι α : Type}

/-- Shutdown has been requested and its notification is out, and the loop sleeps on. -/
def Lost (s : State ι α) : Prop := s.running = false ∧ s.manager = .join ∧ s.loop = .blocked

/-- The loop has found the scheduler running and no task to wait for, and does not block yet. -/
def Deciding (s : State ι α) : Prop := s.loop = .testQueue ∧ s.queue = [] ∨ s.loop = .block

/-- Shutdown does not notify while the loop is about to block. -/
def Timely (_ : Trace (Action ι α) (Event ι α)) (s : State ι α) (a : Action ι α) : Prop :=
  match a with
  | .manager => s.manager = .notifyAll → ¬Deciding s
  | _ => True

instance [DecidableEq α] (s : State ι α) : Decidable (Deciding s) :=
  inferInstanceAs (Decidable (s.loop = .testQueue ∧ s.queue = [] ∨ s.loop = .block))

instance [DecidableEq α] (h : Trace (Action ι α) (Event ι α)) (s : State ι α) (a : Action ι α) :
    Decidable (Timely h s a) :=
  match a with
  | .manager => inferInstanceAs (Decidable (s.manager = .notifyAll → ¬Deciding s))
  | .schedule _ _ | .cancel _ _ | .client _ | .loop _ | .spurious | .start | .shutdown | .tick _ => isTrue trivial

end Specification

end Klett.Cunk.Scheduler
