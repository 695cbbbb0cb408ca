import Klett.Lib.Machine
import Mathlib.Logic.Function.Basic

namespace Klett.Cunk.AsyncTask

open Klett.Lib

section Model

variable {α ε : Type}

/-- A continuation and whether its task is an `AsyncTask<void>`. A void task hands no value on. -/
structure Link (α ε : Type) where
  isVoid : Bool
  func : Option α → Except ε α

/-- The root promise with what it is settled with, and the continuations attached one after the other. -/
structure Chain (α ε : Type) where
  rootIsVoid : Bool
  root : Except ε α
  length : ℕ
  link : ℕ → Link α ε

def Chain.isVoid (c : Chain α ε) : ℕ → Bool
  | 0 => c.rootIsVoid
  | i + 1 => (c.link i).isVoid

def Chain.held (c : Chain α ε) (i : ℕ) (v : α) : Option α := if c.isVoid i then none else some v

/-- Which continuation is stored is known from the task. -/
structure SharedState (α ε : Type) where
  value : Option α := none
  exception : Option ε := none
  ready : Bool := false
  continuation : Bool := false

/-- What a thread is in the middle of: calling the function of a link, or settling a task. -/
inductive Job (α ε : Type) where
  | call (i : ℕ) (arg : Option α)
  | settle (i : ℕ) (result : Except ε α)

inductive Thread where
  | producer
  | consumer
deriving DecidableEq

structure State (α ε : Type) where
  tasks : ℕ → SharedState α ε := fun _ => {}
  attached : ℕ := 0
  jobs : Thread → Option (Job α ε)
  undefined : Bool := false

variable (c : Chain α ε)

def setValue (tasks : ℕ → SharedState α ε) (i : ℕ) (v : α) : (ℕ → SharedState α ε) × Option (Job α ε) :=
  let s := tasks i
  (Function.update tasks i { s with value := c.held i v, ready := true, continuation := false },
    if s.continuation then some (.call i (c.held i v)) else none)

def setException (tasks : ℕ → SharedState α ε) (i : ℕ) (e : ε) : ℕ → SharedState α ε :=
  Function.update tasks i { tasks i with exception := some e, ready := true }

/-- What a thread does next with its job, the links it calls being observed. -/
def work (tasks : ℕ → SharedState α ε) : Job α ε → (ℕ → SharedState α ε) × Option (Job α ε) × List ℕ
  | .call i arg => (tasks, some (.settle (i + 1) ((c.link i).func arg)), [i])
  | .settle i (.ok v) =>
    let (tasks, job) := setValue c tasks i v
    (tasks, job, [])
  | .settle i (.error e) => (setException tasks i e, none, [])

/-- `then` on the last task there is. It does not look at the exception: a void task calls the continuation, and
another one takes a value that may not be there. -/
def attach (s : State α ε) : State α ε :=
  let i := s.attached
  let task := s.tasks i
  let s := { s with attached := i + 1 }
  if task.ready then
    if c.isVoid i then { s with jobs := Function.update s.jobs .consumer (some (.call i none)) }
    else
      match task.value with
      | some v => { s with jobs := Function.update s.jobs .consumer (some (.call i (some v))) }
      | none => { s with undefined := true }
  else { s with tasks := Function.update s.tasks i { task with continuation := true } }

/-- Only the consumer attaches, and it is in `then` until the continuation is stored or has run. -/
def machine : Machine (State α ε) Thread ℕ where
  step s t :=
    if s.undefined then none
    else
      match s.jobs t with
      | some job =>
        let (tasks, next, called) := work c s.tasks job
        some ({ s with tasks := tasks, jobs := Function.update s.jobs t next }, called)
      | none => if t = .consumer ∧ s.attached < c.length then some (attach c s, []) else none

def initial : State α ε := { jobs := fun t => if t = .producer then some (.settle 0 c.root) else none }

end Model

section Specification

variable {α ε : Type} (c : Chain α ε)

def outcome : ℕ → Except ε α
  | 0 => c.root
  | i + 1 =>
    match outcome i with
    | .ok v => (c.link i).func (c.held i v)
    | .error e => .error e

def Settled (task : SharedState α ε) (held : α → Option α) : Except ε α → Prop
  | .ok v => task.ready = true ∧ task.value = held v ∧ task.exception = none
  | .error e => task.ready = true ∧ task.value = none ∧ task.exception = some e

structure Propagated (h : Trace Thread ℕ) (s : State α ε) : Prop where
  defined : s.undefined = false
  settled : ∀ i ≤ c.length, Settled (s.tasks i) (c.held i) (outcome c i)
  called : ∀ i ∈ h.events, ∃ v, outcome c i = .ok v

end Specification

end Klett.Cunk.AsyncTask
