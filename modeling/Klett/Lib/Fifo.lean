import Klett.Lib.Machine
import Mathlib.Data.List.Basic

namespace Klett.Lib

structure Fifo (α : Type*) (capacity : ℕ) where
  items : List α
  bounded : items.length ≤ capacity

namespace Fifo

variable {α : Type*} {n : ℕ}

def empty : Fifo α n := ⟨[], Nat.zero_le n⟩

instance : Inhabited (Fifo α n) := ⟨empty⟩

def tryPush (q : Fifo α n) (x : α) : Option (Fifo α n) :=
  if h : q.items.length < n then some ⟨q.items ++ [x], by rw [List.length_append]; exact h⟩ else none

def tryPop (q : Fifo α n) : Option (α × Fifo α n) :=
  match q with
  | ⟨[], _⟩ => none
  | ⟨x :: xs, h⟩ => some (x, ⟨xs, Nat.le_of_succ_le h⟩)

variable {q r : Fifo α n} {x : α}

@[simp] theorem empty_items : (empty : Fifo α n).items = [] := rfl

theorem tryPush_items (h : q.tryPush x = some r) : r.items = q.items ++ [x] := by
  unfold tryPush at h
  split at h
  · rw [← Option.some.inj h]
  · cases h

theorem tryPush_eq_none : q.tryPush x = none ↔ n ≤ q.items.length := by
  unfold tryPush
  split <;> simp_all

theorem tryPop_items (h : q.tryPop = some (x, r)) : q.items = x :: r.items := by
  obtain ⟨items, hb⟩ := q
  cases items with
  | nil => cases h
  | cons y ys =>
    obtain ⟨rfl, rfl⟩ : y = x ∧ _ = r := by simpa [tryPop] using h
    rfl

theorem tryPop_eq_none : q.tryPop = none ↔ q.items = [] := by
  obtain ⟨items, hb⟩ := q
  cases items <;> simp [tryPop]

/-- `q` accounts for what went in: everything taken out so far and then everything inside. -/
def Accounts (q : Fifo α n) (entered left : List α) : Prop := entered = left ++ q.items

theorem Accounts.push {entered left : List α} (ha : q.Accounts entered left)
    (h : q.tryPush x = some r) : r.Accounts (entered ++ [x]) left := by
  rw [Accounts, tryPush_items h, ha, List.append_assoc]

theorem Accounts.pop {entered left : List α} (ha : q.Accounts entered left)
    (h : q.tryPop = some (x, r)) : r.Accounts entered (left ++ [x]) := by
  rw [Accounts, ha, tryPop_items h]
  simp

end Fifo

end Klett.Lib

namespace Klett.Lib

section Simulation

variable {σ τ α β ε : Type*} {M : Machine σ α ε} {N : Machine τ β ε} {C : Machine.Guard σ α ε} {s₀ s : σ} {q₀ : τ}
  {h : Trace α ε}

/-- The simulation rule. A step that observes nothing may leave the abstract machine where it is; any other step is one
of its steps. -/
theorem Machine.Reach.simulates {R : σ → τ → Prop} (hr : M.Reach C s₀ h s) (hstart : R s₀ q₀)
    (hstep : ∀ t a u es q, R t q → M.step t a = some (u, es) →
      es = [] ∧ R u q ∨ ∃ b r, N.step q b = some (r, es) ∧ R u r) :
    ∃ k q, N.Run q₀ k q ∧ k.events = h.events ∧ R s q := by
  induction hr with
  | refl => exact ⟨[], q₀, .refl, rfl, hstart⟩
  | step _ _ he ih =>
    obtain ⟨k, q, hrun, hevents, hrel⟩ := ih
    obtain ⟨rfl, hrel⟩ | ⟨b, r, hstep, hrel⟩ := hstep _ _ _ _ _ hrel he
    · exact ⟨k, q, hrun, by simpa using hevents, hrel⟩
    · exact ⟨_, r, hrun.step trivial hstep, by simp [hevents], hrel⟩

end Simulation

namespace Fifo

inductive Call (α : Type*) where
  | push (x : α)
  | pop

inductive Outcome (α : Type*) where
  | pushed (x : α)
  | full (x : α)
  | popped (x : α)
  | empty
  deriving DecidableEq

namespace Outcome

variable {α : Type*}

def entered : Outcome α → Option α
  | .pushed x => some x
  | _ => none

def left : Outcome α → Option α
  | .popped x => some x
  | _ => none

end Outcome

variable {α : Type*} {n : ℕ}

def call (q : Fifo α n) : Call α → Fifo α n × Outcome α
  | .push x =>
    match q.tryPush x with
    | some r => (r, .pushed x)
    | none => (q, .full x)
  | .pop =>
    match q.tryPop with
    | some (x, r) => (r, .popped x)
    | none => (q, .empty)

def machine (α : Type*) (n : ℕ) : Machine (Fifo α n) (Call α) (Outcome α) where
  step q a := some ((q.call a).1, [(q.call a).2])

variable {q r : Fifo α n} {x : α}

theorem machine_pushed (h : q.tryPush x = some r) : (machine α n).step q (.push x) = some (r, [.pushed x]) := by
  simp [machine, call, h]

theorem machine_full (h : n ≤ q.items.length) : (machine α n).step q (.push x) = some (q, [.full x]) := by
  simp [machine, call, tryPush_eq_none.mpr h]

theorem machine_popped (h : q.tryPop = some (x, r)) : (machine α n).step q .pop = some (r, [.popped x]) := by
  simp [machine, call, h]

theorem machine_empty (h : q.items = []) : (machine α n).step q .pop = some (q, [.empty]) := by
  simp [machine, call, tryPop_eq_none.mpr h]

theorem Accounts.call {es : List (Outcome α)}
    (ha : q.Accounts (es.filterMap Outcome.entered) (es.filterMap Outcome.left)) (a : Call α) :
    (q.call a).1.Accounts ((es ++ [(q.call a).2]).filterMap Outcome.entered)
      ((es ++ [(q.call a).2]).filterMap Outcome.left) := by
  rw [List.filterMap_append, List.filterMap_append]
  cases a with
  | push x =>
    cases hpush : q.tryPush x with
    | some r => simpa [Fifo.call, hpush, List.filterMap_cons, Outcome.entered, Outcome.left] using ha.push hpush
    | none => simpa [Fifo.call, hpush, List.filterMap_cons, Outcome.entered, Outcome.left] using ha
  | pop =>
    cases hpop : q.tryPop with
    | some y => simpa [Fifo.call, hpop, List.filterMap_cons, Outcome.entered, Outcome.left] using ha.pop hpop
    | none => simpa [Fifo.call, hpop, List.filterMap_cons, Outcome.entered, Outcome.left] using ha

/-- What went in has come out in the same order, or is still inside. -/
theorem accounts_of_run {k : Trace (Call α) (Outcome α)} (hr : (machine α n).Run .empty k q) :
    q.Accounts (k.events.filterMap Outcome.entered) (k.events.filterMap Outcome.left) := by
  apply hr.invariant
    (I := fun k q => q.Accounts (k.events.filterMap Outcome.entered) (k.events.filterMap Outcome.left)) rfl
  intro k q a r es ha _ hstep
  obtain ⟨rfl, rfl⟩ := Prod.mk.inj (Option.some.inj hstep)
  rw [Trace.events_append, Trace.events_single]
  exact ha.call a

end Fifo

end Klett.Lib
