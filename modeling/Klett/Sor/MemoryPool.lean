import Klett.Lib.Machine
import Klett.Lib.Slots
import Mathlib.Algebra.Order.Ring.Nat
import Mathlib.Logic.Function.Basic

namespace Klett.Sor.MemoryPool

open Klett.Lib

section Words

def uint32 : ℕ := 2 ^ 32

def pack (index tag : ℕ) : ℕ := tag <<< 32 ||| index

def indexOf (packed : ℕ) : ℕ := packed &&& 0xFFFFFFFF

def tagOf (packed : ℕ) : ℕ := (packed >>> 32) % uint32

end Words

section Model

variable {ι : Type}

/-- A thread between two of its operations. The stamp of an allocation is the number of updates of the head
before the head was loaded. -/
inductive Thread where
  | idle
  | allocateLoad
  | allocateNext (oldHead stamp : ℕ)
  | allocateExchange (oldHead newHead stamp : ℕ)
  | allocateCount (idx : ℕ)
  | deallocateLoad (idx : ℕ)
  | deallocateNext (idx oldHead : ℕ)
  | deallocateExchange (idx oldHead newHead : ℕ)
  | deallocateCount

/-- The slots that `allocate` has returned are listed with their holders, and the updates of the head are counted. -/
structure State (ι : Type) where
  next : ℕ → ℕ
  freeHead : ℕ
  available : ℕ
  threads : ι → Thread := fun _ => .idle
  held : List (ι × ℕ) := []
  updates : ℕ := 0

inductive Action (ι : Type) where
  | allocate (i : ι)
  | deallocate (i : ι) (idx : ℕ)
  | thread (i : ι) (spurious : Bool)
  | overwrite (i : ι) (idx link : ℕ)
  | give (i j : ι) (idx : ℕ)

inductive Event (ι : Type) where
  | allocated (i : ι) (idx : ℕ)
  | exhausted (i : ι)
deriving DecidableEq

variable (poolSize : ℕ)

def initial : State ι where
  next i := i + 1
  freeHead := pack 0 0
  available := poolSize

variable [DecidableEq ι]

def State.atThread (s : State ι) (i : ι) (t : Thread) : State ι :=
  { s with threads := Function.update s.threads i t }

/-- The weak exchange may fail where it could succeed. -/
def advance (s : State ι) (i : ι) (spurious : Bool) : Option (State ι × List (Event ι)) :=
  match s.threads i with
  | .idle => none
  | .allocateLoad => some (s.atThread i (.allocateNext s.freeHead s.updates), [])
  | .allocateNext oldHead stamp =>
    let idx := indexOf oldHead
    if idx ≥ poolSize then some (s.atThread i .idle, [.exhausted i])
    else some (s.atThread i (.allocateExchange oldHead (pack (s.next idx) ((tagOf oldHead + 1) % uint32)) stamp), [])
  | .allocateExchange oldHead newHead _ =>
    if s.freeHead = oldHead ∧ spurious = false then
      some ({ s.atThread i (.allocateCount (indexOf oldHead)) with
        freeHead := newHead
        updates := s.updates + 1 }, [])
    else some (s.atThread i (.allocateNext s.freeHead s.updates), [])
  | .allocateCount idx =>
    some ({ s.atThread i .idle with
      available := (s.available + 2 ^ 64 - 1) % 2 ^ 64
      held := (i, idx) :: s.held }, [.allocated i idx])
  | .deallocateLoad idx => some (s.atThread i (.deallocateNext idx s.freeHead), [])
  | .deallocateNext idx oldHead =>
    some ({ s.atThread i (.deallocateExchange idx oldHead (pack idx ((tagOf oldHead + 1) % uint32))) with
      next := Function.update s.next idx (indexOf oldHead) }, [])
  | .deallocateExchange idx oldHead newHead =>
    if s.freeHead = oldHead ∧ spurious = false then
      some ({ s.atThread i .deallocateCount with
        freeHead := newHead
        updates := s.updates + 1 }, [])
    else some (s.atThread i (.deallocateNext idx s.freeHead), [])
  | .deallocateCount => some ({ s.atThread i .idle with available := (s.available + 1) % 2 ^ 64 }, [])

def act (s : State ι) : Action ι → Option (State ι × List (Event ι))
  | .allocate i =>
    match s.threads i with
    | .idle => some (s.atThread i .allocateLoad, [])
    | _ => none
  | .deallocate i idx =>
    match s.threads i with
    | .idle =>
      if (i, idx) ∈ s.held then
        some ({ s.atThread i (.deallocateLoad idx) with held := s.held.erase (i, idx) }, [])
      else none
    | _ => none
  | .thread i spurious => advance poolSize s i spurious
  | .overwrite i idx link =>
    if (i, idx) ∈ s.held then some ({ s with next := Function.update s.next idx (link % uint32) }, []) else none
  | .give i j idx =>
    if (i, idx) ∈ s.held then some ({ s with held := (j, idx) :: s.held.erase (i, idx) }, []) else none

def machine : Machine (State ι) (Action ι) (Event ι) where
  step s a := act poolSize s a

/-- The number of head updates between the load and the exchange, if the step is an allocation's exchange. -/
def window (s : State ι) : Action ι → ℕ
  | .thread i _ =>
    match s.threads i with
    | .allocateExchange _ _ stamp => s.updates - stamp
    | _ => 0
  | _ => 0

def Windowed (_ : Trace (Action ι) (Event ι)) (s : State ι) (a : Action ι) : Prop := window s a < uint32

end Model

section Specification

variable {ι : Type} (poolSize : ℕ)

inductive Place (ι : Type) where
  | free
  | held (i : ι)
  | hands (i : ι)

/-- The slot that a thread has taken out of the free list and not yet returned, or the other way round. -/
def Thread.hands : Thread → Option ℕ
  | .allocateCount idx => some idx
  | .deallocateLoad idx => some idx
  | .deallocateNext idx _ => some idx
  | .deallocateExchange idx _ _ => some idx
  | _ => none

def Thread.Allocating : Thread → Prop
  | .allocateLoad => True
  | .allocateNext _ _ => True
  | .allocateExchange _ _ _ => True
  | .allocateCount _ => True
  | _ => False

/-- The free list ends at the first index that is not a slot. -/
def FreeList (s : State ι) (free : List ℕ) : Prop := Links s.next (poolSize ≤ ·) (indexOf s.freeHead) free

def At (s : State ι) (free : List ℕ) (idx : ℕ) : Place ι → Prop
  | .free => idx ∈ free
  | .held i => (i, idx) ∈ s.held
  | .hands i => (s.threads i).hands = some idx

structure Owned (s : State ι) (free : List ℕ) : Prop where
  list : FreeList poolSize s free
  acyclic : free.Nodup
  once : (s.held.map Prod.snd).Nodup
  placed : Placed (· < poolSize) (At s free)

variable [DecidableEq ι]

/-- The free list was empty at some moment of the call that the thread is in. -/
def SeenEmpty (h : Trace (Action ι) (Event ι)) (i : ι) : Prop :=
  ∃ k l u, h = k ++ l ∧ (machine poolSize).Reach Windowed (initial poolSize) k u ∧ FreeList poolSize u [] ∧
    (u.threads i).Allocating ∧ ∀ x ∈ l, x.1 ≠ .allocate i

end Specification

end Klett.Sor.MemoryPool
