import Klett.Lib.Fifo
import Mathlib.Algebra.Order.Ring.Nat
import Mathlib.Logic.Function.Basic

namespace Klett.Sor.SpscQueue

open Klett.Lib

section Model

def wordSize : ℕ := 2 ^ 64

/-- What the `static_assert`s admit. -/
structure Capacity where
  value : ℕ
  positive : 0 < value
  powerOfTwo : value &&& (value - 1) = 0
  fits : value < wordSize

variable (c : Capacity) {α : Type}

def Capacity.mask : ℕ := c.value - 1

def Capacity.capacity : ℕ := c.value - 1

/-- The producer between two of its operations. The item is copied or moved in, to the same effect here. -/
inductive Producer (α : Type) where
  | idle
  | loadTail (item : α)
  | loadHead (item : α) (t next : ℕ)
  | write (item : α) (t next : ℕ)
  | storeTail (item : α) (next : ℕ)

inductive Consumer (α : Type) where
  | idle
  | loadHead
  | loadTail (h : ℕ)
  | move (h : ℕ)
  | storeHead (h : ℕ) (item : α)

structure State (α : Type) where
  head : ℕ := 0
  tail : ℕ := 0
  buffer : ℕ → α
  producer : Producer α := .idle
  consumer : Consumer α := .idle

inductive Action (α : Type) where
  | push (item : α)
  | producer
  | pop
  | consumer (residue : α)

def next (i : ℕ) : ℕ := (i + 1) % wordSize &&& c.mask

/-- A call is observed where it takes effect, a failed one where it reads the index of the other side. -/
def tryPush (s : State α) : Option (State α × List (Fifo.Outcome α)) :=
  match s.producer with
  | .idle => none
  | .loadTail item => some ({ s with producer := .loadHead item s.tail (next c s.tail) }, [])
  | .loadHead item t next =>
    if next = s.head then some ({ s with producer := .idle }, [.full item])
    else some ({ s with producer := .write item t next }, [])
  | .write item t next =>
    some ({ s with buffer := Function.update s.buffer t item, producer := .storeTail item next }, [])
  | .storeTail item next => some ({ s with tail := next, producer := .idle }, [.pushed item])

/-- A move leaves any value of the type in the slot. -/
def tryPop (s : State α) (residue : α) : Option (State α × List (Fifo.Outcome α)) :=
  match s.consumer with
  | .idle => none
  | .loadHead => some ({ s with consumer := .loadTail s.head }, [])
  | .loadTail h =>
    if h = s.tail then some ({ s with consumer := .idle }, [.empty])
    else some ({ s with consumer := .move h }, [])
  | .move h =>
    some ({ s with buffer := Function.update s.buffer h residue, consumer := .storeHead h (s.buffer h) }, [])
  | .storeHead h item => some ({ s with head := next c h, consumer := .idle }, [.popped item])

def machine (α : Type) : Machine (State α) (Action α) (Fifo.Outcome α) where
  step s
    | .push item =>
      match s.producer with
      | .idle => some ({ s with producer := .loadTail item }, [])
      | _ => none
    | .producer => tryPush c s
    | .pop =>
      match s.consumer with
      | .idle => some ({ s with consumer := .loadHead }, [])
      | _ => none
    | .consumer residue => tryPop c s residue

def State.empty (s : State α) : Bool := s.head == s.tail

/-- The difference is taken and the capacity added in the type of the indices. -/
def State.size (s : State α) : ℕ := ((s.tail + wordSize - s.head) % wordSize + c.value) % wordSize &&& c.mask

end Model

section Specification

variable (c : Capacity) {α : Type}

/-- The item that the consumer has in hand is out of the buffer before the queue lets go of it. -/
def State.inHand (s : State α) : Option α :=
  match s.consumer with
  | .storeHead _ item => some item
  | _ => none

/-- The state holds the items of the queue: the buffer from the head on, or the consumer the first of them. -/
structure Holds (s : State α) (q : Fifo α c.capacity) : Prop where
  size : s.size c = q.items.length
  empty : s.empty = true ↔ q.items = []
  inHand : ∀ item, s.inHand = some item → q.items.head? = some item
  stored : ∀ i item, q.items[i]? = some item → s.inHand = none ∨ 0 < i →
    s.buffer ((s.head + i) &&& c.mask) = item

end Specification

end Klett.Sor.SpscQueue
