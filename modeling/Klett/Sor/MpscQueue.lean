import Klett.Lib.Machine
import Mathlib.Algebra.Order.Ring.Nat
import Mathlib.Data.Int.Basic
import Mathlib.Logic.Function.Basic

namespace Klett.Sor.MpscQueue

open Klett.Lib

section Model

variable {ι α : Type} (capacity : ℕ)

structure Cell (α : Type) where
  sequence : ℕ
  data : Option α := none

/-- A producer between two of its operations. -/
inductive Producer (α : Type) where
  | idle
  | loadPos (item : α)
  | loadSequence (item : α) (pos : ℕ)
  | exchange (item : α) (pos : ℕ)
  | write (item : α) (pos : ℕ)
  | publish (item : α) (pos : ℕ)

inductive Consumer where
  | idle
  | loadSequence (cell : ℕ)
  | loadPos (cell seq : ℕ)
  | move (cell pos : ℕ)
  | release (cell pos : ℕ)
  | advance (pos : ℕ)

/-- The items claimed and popped so far are kept beside the queue. -/
structure State (ι α : Type) where
  writePos : ℕ := 0
  readPos : ℕ := 0
  cells : ℕ → Cell α := fun i => { sequence := i }
  producers : ι → Producer α := fun _ => .idle
  consumer : Consumer := .idle
  claimed : List α := []
  popped : List (Option α) := []

inductive Action (ι α : Type) where
  | push (i : ι) (item : α)
  | producer (i : ι) (spurious : Bool)
  | pop
  | consumer

def mask (pos : ℕ) : ℕ := pos &&& (capacity - 1)

def size : ℕ := 2 ^ 64

def diff (seq pos : ℕ) : ℤ := ((seq : ℤ) - pos).bmod size

variable [DecidableEq ι]

def State.atProducer (s : State ι α) (i : ι) (p : Producer α) : State ι α :=
  { s with producers := Function.update s.producers i p }

def State.withCell (s : State ι α) (cell : ℕ) (c : Cell α) : State ι α :=
  { s with cells := Function.update s.cells cell c }

/-- The weak exchange may fail where it could succeed. -/
def tryPush (s : State ι α) (i : ι) (spurious : Bool) : Option (State ι α) :=
  match s.producers i with
  | .idle => none
  | .loadPos item => some (s.atProducer i (.loadSequence item s.writePos))
  | .loadSequence item pos =>
    let d := diff (s.cells (mask capacity pos)).sequence pos
    if d = 0 then some (s.atProducer i (.exchange item pos))
    else if d < 0 then some (s.atProducer i .idle)
    else some (s.atProducer i (.loadPos item))
  | .exchange item pos =>
    if s.writePos = pos ∧ spurious = false then
      some { s.atProducer i (.write item pos) with
        writePos := (pos + 1) % size
        claimed := s.claimed ++ [item] }
    else some (s.atProducer i (.loadSequence item s.writePos))
  | .write item pos =>
    let cell := s.cells (mask capacity pos)
    some ((s.withCell (mask capacity pos) { cell with data := some item }).atProducer i (.publish item pos))
  | .publish _ pos =>
    let cell := s.cells (mask capacity pos)
    some ((s.withCell (mask capacity pos) { cell with sequence := (pos + 1) % size }).atProducer i .idle)

def tryPop (s : State ι α) : Option (State ι α) :=
  match s.consumer with
  | .idle => none
  | .loadSequence cell => some { s with consumer := .loadPos cell (s.cells cell).sequence }
  | .loadPos cell seq =>
    if seq ≠ (s.readPos + 1) % size then some { s with consumer := .idle }
    else some { s with consumer := .move cell s.readPos }
  | .move cell pos =>
    let c := s.cells cell
    some { s.withCell cell { c with data := none } with
      consumer := .release cell pos
      popped := s.popped ++ [c.data] }
  | .release cell pos =>
    let c := s.cells cell
    some { s.withCell cell { c with sequence := (pos + capacity) % size } with consumer := .advance pos }
  | .advance pos => some { s with readPos := (pos + 1) % size, consumer := .idle }

def act (s : State ι α) : Action ι α → Option (State ι α)
  | .push i item =>
    match s.producers i with
    | .idle => some (s.atProducer i (.loadPos item))
    | _ => none
  | .producer i spurious => tryPush capacity s i spurious
  | .pop =>
    match s.consumer with
    | .idle => some { s with consumer := .loadSequence (mask capacity s.readPos) }
    | _ => none
  | .consumer => tryPop capacity s

def machine : Machine (State ι α) (Action ι α) Empty where
  step s a := (act capacity s a).map (·, [])

/-- The sum that the next step forms from a counter, before it is cut to the counter's type. -/
def counter (s : State ι α) : Action ι α → ℕ
  | .push _ _ => 0
  | .producer i _ =>
    match s.producers i with
    | .exchange _ pos => pos + 1
    | .publish _ pos => pos + 1
    | _ => 0
  | .pop => 0
  | .consumer =>
    match s.consumer with
    | .loadPos _ _ => s.readPos + 1
    | .release _ pos => pos + capacity
    | .advance pos => pos + 1
    | _ => 0

/-- No counter reaches the size of its type. -/
def Counting (_ : Trace (Action ι α) Empty) (s : State ι α) (a : Action ι α) : Prop :=
  counter capacity s a < size

end Model

section Specification

variable {ι α : Type} (capacity : ℕ)

/-- The item is with the producer that claimed its position, or in the cell of that position. -/
def Kept (s : State ι α) (item : α) (pos : ℕ) : Prop :=
  let cell := s.cells (mask capacity pos)
  (∃ i, s.producers i = .write item pos) ∨
    cell.data = some item ∧ ((∃ i, s.producers i = .publish item pos) ∨ cell.sequence = pos + 1)

structure Correct (s : State ι α) : Prop where
  order : s.popped <+: s.claimed.map some
  bounded : s.claimed.length ≤ s.popped.length + capacity
  kept : ∀ pos item, s.popped.length ≤ pos → s.claimed[pos]? = some item → Kept capacity s item pos

end Specification

end Klett.Sor.MpscQueue
