import Klett.Lib.Machine
import Mathlib.Algebra.Order.Ring.Nat
import Mathlib.Data.Int.Basic
import Mathlib.Logic.Function.Basic

namespace Klett.Cunk.MpmcQueue

open Klett.Lib

section Construction

def size : ℕ := 2 ^ 64

/-- `next_power_of_two`, on `std::size_t`. -/
def nextPowerOfTwo (v : ℕ) : ℕ :=
  let v := (v + (size - 1)) % size
  let v := v ||| v >>> 1
  let v := v ||| v >>> 2
  let v := v ||| v >>> 4
  let v := v ||| v >>> 8
  let v := v ||| v >>> 16
  let v := v ||| v >>> 32
  (v + 1) % size

def capacityOf (minCapacity : ℕ) : ℕ := nextPowerOfTwo (if minCapacity < 2 then 2 else minCapacity)

structure Slot (α : Type) where
  sequence : ℕ
  data : Option α := none

/-- What the constructor asks `operator new` for, in bytes: a product of two `std::size_t`. -/
def blockBytes (slotSize capacity : ℕ) : ℕ := slotSize * capacity % size

/-- The slots that lie inside the block. -/
def allotted (slotSize capacity : ℕ) : ℕ := blockBytes slotSize capacity / slotSize

end Construction

section Model

variable {ι κ α : Type} (slotSize capacity : ℕ)

/-- A producer between two of its operations. -/
inductive Producer (α : Type) where
  | idle
  | loadHead (item : α)
  | loadSequence (item : α) (pos : ℕ)
  | exchange (item : α) (pos : ℕ)
  | write (item : α) (pos : ℕ)
  | publish (item : α) (pos : ℕ)

inductive Consumer (α : Type) where
  | idle
  | loadTail
  | loadSequence (pos : ℕ)
  | exchange (pos : ℕ)
  | move (pos : ℕ)
  | release (pos : ℕ) (result : Option α)

/-- Beside the queue: the items by the positions claimed for them, the positions that consumers claimed, and
what was done at which position. -/
structure State (ι κ α : Type) where
  head : ℕ := 0
  tail : ℕ := 0
  slots : ℕ → Slot α
  producers : ι → Producer α := fun _ => .idle
  consumers : κ → Consumer α := fun _ => .idle
  claimed : List α := []
  taken : List ℕ := []
  written : List (ℕ × α) := []
  popped : List (ℕ × Option α) := []
  released : List ℕ := []

/-- The constructor writes every slot of the ring, inside its block or not. Around them is whatever memory holds. -/
def initial (memory : ℕ → Slot α) : State ι κ α where
  slots i := if i < capacity then { sequence := i } else memory i

inductive Action (ι κ α : Type) where
  | push (i : ι) (item : α)
  | producer (i : ι) (spurious : Bool)
  | pop (j : κ)
  | consumer (j : κ) (spurious : Bool)
  | other (slot : ℕ) (memory : Slot α)

def mask : ℕ := (capacity + (size - 1)) % size

def index (pos : ℕ) : ℕ := pos &&& mask capacity

def diff (seq pos : ℕ) : ℤ := ((seq : ℤ) - pos).bmod size

variable [DecidableEq ι] [DecidableEq κ]

def State.atProducer (s : State ι κ α) (i : ι) (p : Producer α) : State ι κ α :=
  { s with producers := Function.update s.producers i p }

def State.atConsumer (s : State ι κ α) (j : κ) (c : Consumer α) : State ι κ α :=
  { s with consumers := Function.update s.consumers j c }

def State.withSlot (s : State ι κ α) (slot : ℕ) (c : Slot α) : State ι κ α :=
  { s with slots := Function.update s.slots slot c }

/-- The weak exchange may fail where it could succeed. It loads the position when it fails. -/
def tryPush (s : State ι κ α) (i : ι) (spurious : Bool) : Option (State ι κ α) :=
  match s.producers i with
  | .idle => none
  | .loadHead item => some (s.atProducer i (.loadSequence item s.head))
  | .loadSequence item pos =>
    let d := diff (s.slots (index capacity pos)).sequence pos
    if d = 0 then some (s.atProducer i (.exchange item pos))
    else if d < 0 then some (s.atProducer i .idle)
    else some (s.atProducer i (.loadHead item))
  | .exchange item pos =>
    if s.head = pos ∧ spurious = false then
      some { s.atProducer i (.write item pos) with
        head := (pos + 1) % size
        claimed := s.claimed ++ [item] }
    else some (s.atProducer i (.loadSequence item s.head))
  | .write item pos =>
    let slot := s.slots (index capacity pos)
    some { (s.withSlot (index capacity pos) { slot with data := some item }).atProducer i (.publish item pos) with
      written := s.written ++ [(pos, item)] }
  | .publish _ pos =>
    let slot := s.slots (index capacity pos)
    some ((s.withSlot (index capacity pos) { slot with sequence := (pos + 1) % size }).atProducer i .idle)

def tryPop (s : State ι κ α) (j : κ) (spurious : Bool) : Option (State ι κ α) :=
  match s.consumers j with
  | .idle => none
  | .loadTail => some (s.atConsumer j (.loadSequence s.tail))
  | .loadSequence pos =>
    let d := diff (s.slots (index capacity pos)).sequence ((pos + 1) % size)
    if d = 0 then some (s.atConsumer j (.exchange pos))
    else if d < 0 then some (s.atConsumer j .idle)
    else some (s.atConsumer j .loadTail)
  | .exchange pos =>
    if s.tail = pos ∧ spurious = false then
      some { s.atConsumer j (.move pos) with
        tail := (pos + 1) % size
        taken := s.taken ++ [pos] }
    else some (s.atConsumer j (.loadSequence s.tail))
  | .move pos =>
    let slot := s.slots (index capacity pos)
    some { (s.withSlot (index capacity pos) { slot with data := none }).atConsumer j (.release pos slot.data) with
      popped := s.popped ++ [(pos, slot.data)] }
  | .release pos _ =>
    let slot := s.slots (index capacity pos)
    let next := (pos + mask capacity + 1) % size
    some { (s.withSlot (index capacity pos) { slot with sequence := next }).atConsumer j .idle with
      released := s.released ++ [pos] }

/-- Memory behind the block belongs to others, who write what they like there. -/
def act (s : State ι κ α) : Action ι κ α → Option (State ι κ α)
  | .push i item =>
    match s.producers i with
    | .idle => some (s.atProducer i (.loadHead item))
    | _ => none
  | .producer i spurious => tryPush capacity s i spurious
  | .pop j =>
    match s.consumers j with
    | .idle => some (s.atConsumer j .loadTail)
    | _ => none
  | .consumer j spurious => tryPop capacity s j spurious
  | .other slot memory => if allotted slotSize capacity ≤ slot then some (s.withSlot slot memory) else none

def machine : Machine (State ι κ α) (Action ι κ α) Empty where
  step s a := (act slotSize capacity s a).map (·, [])

/-- The sum that the next step forms from a counter, before it is cut to the counter's type. -/
def counter (s : State ι κ α) : Action ι κ α → ℕ
  | .push _ _ => 0
  | .producer i _ =>
    match s.producers i with
    | .exchange _ pos => pos + 1
    | .publish _ pos => pos + 1
    | _ => 0
  | .pop _ => 0
  | .consumer j _ =>
    match s.consumers j with
    | .loadSequence pos => pos + 1
    | .exchange pos => pos + 1
    | .release pos _ => pos + mask capacity + 1
    | _ => 0
  | .other _ _ => 0

/-- No counter reaches the size of its type. -/
def Counting (_ : Trace (Action ι κ α) Empty) (s : State ι κ α) (a : Action ι κ α) : Prop :=
  counter capacity s a < size

instance {h : Trace (Action ι κ α) Empty} {s : State ι κ α} {a : Action ι κ α} : Decidable (Counting capacity h s a) :=
  inferInstanceAs (Decidable (_ < _))

end Model

section Specification

variable {ι κ α : Type} (capacity : ℕ)

/-- The item is with the producer that claimed its position, or in the slot of that position. -/
def Kept (s : State ι κ α) (item : α) (pos : ℕ) : Prop :=
  let slot := s.slots (index capacity pos)
  (∃ i, s.producers i = .write item pos) ∨ slot.data = some item ∧
    ((∃ i, s.producers i = .publish item pos) ∨ slot.sequence = pos + 1)

/-- A bounded queue, first in, first out. Positions are claimed one after the other at both ends, and a
position is a slot on a lap. -/
structure Correct (s : State ι κ α) : Prop where
  inOrder : s.taken = List.range s.taken.length
  fifo : ∀ pos data, (pos, data) ∈ s.popped → ∃ item, s.claimed[pos]? = some item ∧ data = some item
  stored : ∀ pos item, (pos, item) ∈ s.written → s.claimed[pos]? = some item
  writtenOnce : (s.written.map Prod.fst).Nodup
  readOnce : (s.popped.map Prod.fst).Nodup
  kept : ∀ pos item, s.claimed[pos]? = some item → (pos, some item) ∈ s.popped ∨ Kept capacity s item pos
  bounded : ((List.range s.claimed.length).filter fun pos => pos ∉ s.released).length ≤ capacity

end Specification

end Klett.Cunk.MpmcQueue
