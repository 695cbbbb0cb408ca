import Klett.Lib.Fifo
import Klett.Lib.Machine
import Mathlib.Algebra.Order.Ring.Int
import Mathlib.Logic.Function.Basic

namespace Klett.Cunk.Backpressure

open Klett.Lib

section Data

inductive Strategy where
  | drop
  | block
  | reject
  deriving DecidableEq

structure Config where
  strategy : Strategy := .reject
  blockTimeout : ℤ := 1000
  spinCount : ℕ := 64

/-- Where a thread in `push` is: in front of the first attempt, in the spin phase, at the clock or the attempt of the
yield phase, or in the loop without a timeout. -/
inductive Phase where
  | first
  | spin (i : ℕ)
  | clock (deadline : ℤ)
  | yield (deadline : ℤ)
  | forever
  deriving DecidableEq

/-- `item` is the parameter of the source, `none` once it has been moved from. The number of the call and the value
that was passed are kept beside it. -/
structure Push (α : Type) where
  call : ℕ
  passed : α
  item : Option α
  phase : Phase

/-- The underlying queue is bounded, first in, first out; what it holds is marked with the call it came with.
`returned` has the calls that returned true. -/
structure State (ι α : Type) (capacity : ℕ) where
  now : ℤ := 0
  queue : Fifo (ℕ × Option α) capacity := .empty
  pushers : ι → Option (Push α) := fun _ => none
  calls : ℕ := 0
  returned : List (ℕ × α) := []
  received : List (ℕ × Option α) := []

/-- A queue may also refuse an item while a consumer is still about to free its room. -/
inductive Action (ι α : Type) where
  | push (i : ι) (item : α)
  | pusher (i : ι) (refuse : Bool)
  | pop
  | tick (d : ℕ)

end Data

section Model

variable {ι α : Type} {capacity : ℕ}

/-- `try_push`. It takes its argument by value. -/
def offer (q : Fifo (ℕ × Option α) capacity) (refuse : Bool) (entry : ℕ × Option α) :
    Option (Fifo (ℕ × Option α) capacity) :=
  if refuse then none else q.tryPush entry

def afterSpin (config : Config) (now : ℤ) : Phase :=
  if 0 < config.blockTimeout then .clock (now + config.blockTimeout) else .forever

variable [DecidableEq ι]

def State.atPusher (s : State ι α capacity) (i : ι) (p : Option (Push α)) : State ι α capacity :=
  { s with pushers := Function.update s.pushers i p }

def accepted (s : State ι α capacity) (i : ι) (p : Push α) (queue : Fifo (ℕ × Option α) capacity) :
    State ι α capacity :=
  { s.atPusher i none with queue := queue, returned := s.returned ++ [(p.call, p.passed)] }

/-- `queue_.try_push(std::move(item))`: the argument is made from the item before the queue looks whether it has
room. Without a next phase the refusal is returned. -/
def attempt (s : State ι α capacity) (i : ι) (p : Push α) (refuse : Bool) (next : Option Phase) :
    State ι α capacity :=
  match offer s.queue refuse (p.call, p.item) with
  | some queue => accepted s i p queue
  | none => s.atPusher i (next.map fun phase => { p with item := none, phase := phase })

def pusherStep (config : Config) (s : State ι α capacity) (i : ι) (p : Push α) (refuse : Bool) : State ι α capacity :=
  match p.phase with
  | .first => attempt s i p refuse (if config.strategy = .block then some (.spin 0) else none)
  | .spin k =>
    if k < config.spinCount then attempt s i p refuse (some (.spin (k + 1)))
    else s.atPusher i (some { p with phase := afterSpin config s.now })
  | .clock deadline => s.atPusher i (if s.now < deadline then some { p with phase := .yield deadline } else none)
  | .yield deadline => attempt s i p refuse (some (.clock deadline))
  | .forever => attempt s i p refuse (some .forever)

def act (config : Config) (s : State ι α capacity) : Action ι α → Option (State ι α capacity)
  | .push i item =>
    match s.pushers i with
    | none => some { s.atPusher i (some ⟨s.calls, item, some item, .first⟩) with calls := s.calls + 1 }
    | some _ => none
  | .pusher i refuse => (s.pushers i).map (pusherStep config s i · refuse)
  | .pop =>
    match s.queue.tryPop with
    | some (entry, queue) => some { s with queue := queue, received := s.received ++ [entry] }
    | none => some s
  | .tick d => some { s with now := s.now + d }

def machine (config : Config) : Machine (State ι α capacity) (Action ι α) Empty where
  step s a := (act config s a).map (·, [])

end Model

section Specification

variable {ι α : Type} {capacity : ℕ}

def State.entered (s : State ι α capacity) : List (ℕ × Option α) := s.received ++ s.queue.items

/-- For each call that returned true there is one element, received or still to be, and it is the value passed. -/
def Delivered (s : State ι α capacity) : Prop :=
  ∀ call x, (call, x) ∈ s.returned → s.entered.filter (·.1 = call) = [(call, some x)]

def Phase.retries (config : Config) : Phase → Bool
  | .first | .clock _ => false
  | .spin k => decide (k < config.spinCount)
  | .yield _ | .forever => true

/-- An attempt after the first finds no room. -/
def Refused (config : Config) (_ : Trace (Action ι α) Empty) (s : State ι α capacity) (a : Action ι α) : Prop :=
  match a with
  | .pusher i refuse => ∀ p ∈ s.pushers i, p.phase.retries config = true →
      (offer s.queue refuse (p.call, p.item)).isNone = true
  | _ => True

end Specification

section Invariant

variable {ι α : Type} {capacity : ℕ}

/-- The numbers of the calls are all different, and the item is as it was passed up to the first attempt and moved
from afterwards. -/
structure Tracked (s : State ι α capacity) : Prop where
  entered : ∀ e ∈ s.entered, e.1 < s.calls
  returned : ∀ e ∈ s.returned, e.1 < s.calls
  called : ∀ i, ∀ p ∈ s.pushers i, p.call < s.calls
  waiting : ∀ i, ∀ p ∈ s.pushers i, ∀ e ∈ s.entered, e.1 ≠ p.call
  pending : ∀ i, ∀ p ∈ s.pushers i, ∀ e ∈ s.returned, e.1 ≠ p.call
  distinct : ∀ i j, ∀ p ∈ s.pushers i, ∀ q ∈ s.pushers j, p.call = q.call → i = j
  first : ∀ i, ∀ p ∈ s.pushers i, p.phase = .first → p.item = some p.passed
  later : ∀ i, ∀ p ∈ s.pushers i, p.phase ≠ .first → p.item = none

variable {s t : State ι α capacity}

/-- The queue and the consumers may go on, as long as nothing goes in. -/
theorem Tracked.frame (h : Tracked s) (hentered : t.entered = s.entered) (hreturned : t.returned = s.returned)
    (hpushers : t.pushers = s.pushers) (hcalls : t.calls = s.calls) : Tracked t := by
  refine ⟨?_, ?_, ?_, ?_, ?_, ?_, ?_, ?_⟩
  all_goals simp only [hentered, hreturned, hpushers, hcalls]
  exacts [h.entered, h.returned, h.called, h.waiting, h.pending, h.distinct, h.first, h.later]

theorem entered_pop {entry : ℕ × Option α} {queue : Fifo (ℕ × Option α) capacity}
    (hpop : s.queue.tryPop = some (entry, queue)) :
    ({ s with queue := queue, received := s.received ++ [entry] } : State ι α capacity).entered = s.entered := by
  simp only [State.entered, Fifo.tryPop_items hpop, List.append_assoc, List.singleton_append]

variable [DecidableEq ι] {i : ι} {p : Push α} {next : Option (Push α)}

theorem mem_atPusher {j : ι} {q : Push α} (hq : q ∈ (s.atPusher i next).pushers j) :
    j = i ∧ q ∈ next ∨ j ≠ i ∧ q ∈ s.pushers j := by
  obtain rfl | hne := eq_or_ne j i
  · simp only [State.atPusher, Function.update_self] at hq
    exact .inl ⟨rfl, hq⟩
  · simp only [State.atPusher, Function.update_of_ne hne] at hq
    exact .inr ⟨hne, hq⟩

theorem Tracked.atPusher (h : Tracked s) (hp : p ∈ s.pushers i) (hcall : ∀ q ∈ next, q.call = p.call)
    (hphase : ∀ q ∈ next, q.phase ≠ .first) (hitem : ∀ q ∈ next, q.item = none) : Tracked (s.atPusher i next) := by
  have hsource j (q : Push α) (hq : q ∈ (s.atPusher i next).pushers j) : ∃ r ∈ s.pushers j, r.call = q.call := by
    obtain ⟨rfl, hnext⟩ | ⟨-, hold⟩ := mem_atPusher hq
    · exact ⟨p, hp, (hcall q hnext).symm⟩
    · exact ⟨q, hold, rfl⟩
  refine ⟨h.entered, h.returned, fun j q hq => ?_, fun j q hq => ?_, fun j q hq => ?_, fun j k q hq r hr heq => ?_,
    fun j q hq hfirst => ?_, fun j q hq hlater => ?_⟩
  · obtain ⟨r, hr, hcall⟩ := hsource j q hq
    exact hcall ▸ h.called j r hr
  · obtain ⟨r, hr, hcall⟩ := hsource j q hq
    exact hcall ▸ h.waiting j r hr
  · obtain ⟨r, hr, hcall⟩ := hsource j q hq
    exact hcall ▸ h.pending j r hr
  · obtain ⟨q', hq', hqcall⟩ := hsource j q hq
    obtain ⟨r', hr', hrcall⟩ := hsource k r hr
    exact h.distinct j k q' hq' r' hr' (hqcall.trans (heq.trans hrcall.symm))
  · obtain ⟨-, hnext⟩ | ⟨-, hold⟩ := mem_atPusher hq
    · exact absurd hfirst (hphase q hnext)
    · exact h.first j q hold hfirst
  · obtain ⟨-, hnext⟩ | ⟨-, hold⟩ := mem_atPusher hq
    · exact hitem q hnext
    · exact h.later j q hold hlater

theorem Tracked.ended (h : Tracked s) (hp : p ∈ s.pushers i) : Tracked (s.atPusher i none) :=
  h.atPusher hp nofun nofun nofun

omit [DecidableEq ι] in
theorem forall_mem_concat {β : Type} {P : β → Prop} {l : List β} {x : β} (hl : ∀ e ∈ l, P e) (hx : P x) :
    ∀ e ∈ l ++ [x], P e := List.forall_mem_append.mpr ⟨hl, List.forall_mem_singleton.mpr hx⟩

theorem entered_accepted {queue : Fifo (ℕ × Option α) capacity}
    (hpush : s.queue.tryPush (p.call, p.item) = some queue) :
    (accepted s i p queue).entered = s.entered ++ [(p.call, p.item)] := by
  simp only [State.entered, accepted, Fifo.tryPush_items hpush, State.atPusher, List.append_assoc]

theorem Tracked.accepted (h : Tracked s) (hp : p ∈ s.pushers i) {queue : Fifo (ℕ × Option α) capacity}
    (hpush : s.queue.tryPush (p.call, p.item) = some queue) : Tracked (accepted s i p queue) := by
  have hended := h.ended hp
  have hothers j (q : Push α) (hq : q ∈ (s.atPusher i none).pushers j) : p.call ≠ q.call := by
    intro hcall
    obtain ⟨-, hnone⟩ | ⟨hne, hold⟩ := mem_atPusher hq
    · cases hnone
    · exact hne (h.distinct i j p hp q hold hcall).symm
  refine ⟨?_, ?_, hended.called, fun j q hq => ?_, fun j q hq => ?_, hended.distinct, hended.first, hended.later⟩
  · rw [entered_accepted hpush]
    exact forall_mem_concat h.entered (h.called i p hp)
  · exact forall_mem_concat h.returned (h.called i p hp)
  · rw [entered_accepted hpush]
    exact forall_mem_concat (hended.waiting j q hq) (hothers j q hq)
  · exact forall_mem_concat (hended.pending j q hq) (hothers j q hq)

theorem Tracked.push (h : Tracked s) (hidle : s.pushers i = none) (item : α) :
    Tracked { s.atPusher i (some ⟨s.calls, item, some item, .first⟩) with calls := s.calls + 1 } := by
  have hnew j (q : Push α) (hq : q ∈ (s.atPusher i (some ⟨s.calls, item, some item, .first⟩)).pushers j) :
      j = i ∧ q = ⟨s.calls, item, some item, .first⟩ ∨ q ∈ s.pushers j := by
    obtain ⟨hj, hsome⟩ | ⟨-, hold⟩ := mem_atPusher hq
    · exact .inl ⟨hj, (Option.some.inj hsome).symm⟩
    · exact .inr hold
  refine ⟨fun e he => Nat.lt_succ_of_lt (h.entered e he), fun e he => Nat.lt_succ_of_lt (h.returned e he),
    fun j q hq => ?_, fun j q hq => ?_, fun j q hq => ?_, fun j k q hq r hr heq => ?_,
    fun j q hq hfirst => ?_, fun j q hq hlater => ?_⟩
  · obtain ⟨-, rfl⟩ | hold := hnew j q hq
    · exact Nat.lt_succ_self _
    · exact Nat.lt_succ_of_lt (h.called j q hold)
  · obtain ⟨-, rfl⟩ | hold := hnew j q hq
    · exact fun e he => (h.entered e he).ne
    · exact h.waiting j q hold
  · obtain ⟨-, rfl⟩ | hold := hnew j q hq
    · exact fun e he => (h.returned e he).ne
    · exact h.pending j q hold
  · obtain ⟨rfl, rfl⟩ | hq := hnew j q hq
    · obtain ⟨rfl, -⟩ | hr := hnew k r hr
      · rfl
      · exact absurd heq (h.called k r hr).ne'
    · obtain ⟨-, rfl⟩ | hr := hnew k r hr
      · exact absurd heq (h.called j q hq).ne
      · exact h.distinct j k q hq r hr heq
  · obtain ⟨-, rfl⟩ | hold := hnew j q hq
    · rfl
    · exact h.first j q hold hfirst
  · obtain ⟨-, rfl⟩ | hold := hnew j q hq
    · exact absurd rfl hlater
    · exact h.later j q hold hlater

theorem offer_some {q r : Fifo (ℕ × Option α) capacity} {refuse : Bool} {entry : ℕ × Option α}
    (h : offer q refuse entry = some r) : q.tryPush entry = some r := by
  unfold offer at h
  split_ifs at h
  exact h

/-- A step of a call. An attempt takes the item away, whether the queue accepts it or not. -/
inductive Doing (config : Config) (s : State ι α capacity) (i : ι) (p : Push α) (refuse : Bool)
    (t : State ι α capacity) : Prop
  | accepted (queue : Fifo (ℕ × Option α) capacity) (hoffer : offer s.queue refuse (p.call, p.item) = some queue)
      (hphase : p.phase = .first ∨ p.phase.retries config = true) (ht : t = accepted s i p queue)
  | goes (next : Option (Push α)) (hcall : ∀ q ∈ next, q.call = p.call) (hphase : ∀ q ∈ next, q.phase ≠ .first)
      (hitem : ∀ q ∈ next, q.item = none) (ht : t = s.atPusher i next)
      (hrefused : p.phase.retries config = true → (offer s.queue refuse (p.call, p.item)).isNone = true)

variable {config : Config} {refuse : Bool}

theorem doing_attempt {phase : Option Phase} (hphase : p.phase = .first ∨ p.phase.retries config = true)
    (hnext : phase ≠ some .first) : Doing config s i p refuse (attempt s i p refuse phase) := by
  unfold attempt
  split
  next queue hoffer => exact .accepted queue hoffer hphase rfl
  next hoffer =>
    refine .goes _ ?_ ?_ ?_ rfl fun _ => by rw [hoffer]; rfl
    all_goals
      intro q hq
      obtain ⟨next, hsome, rfl⟩ := Option.map_eq_some_iff.mp hq
    · rfl
    · rintro rfl
      exact hnext hsome
    · rfl

theorem doing_atPusher {phase : Phase} (hlater : p.item = none) (hphase : phase ≠ .first)
    (hretries : p.phase.retries config = false) :
    Doing config s i p refuse (s.atPusher i (some { p with phase := phase })) := by
  refine .goes _ ?_ ?_ ?_ rfl fun htrue => by rw [hretries] at htrue; cases htrue
  all_goals
    intro q hq
    cases hq
  · rfl
  · exact hphase
  · exact hlater

theorem doing_pusherStep (hlater : p.phase ≠ .first → p.item = none) :
    Doing config s i p refuse (pusherStep config s i p refuse) := by
  cases hpc : p.phase with
  | first =>
    simp only [pusherStep, hpc]
    apply doing_attempt (.inl hpc)
    split_ifs <;> simp
  | spin k =>
    simp only [pusherStep, hpc]
    split_ifs with hspin
    · exact doing_attempt (.inr (by rw [hpc]; exact decide_eq_true hspin)) (by simp)
    · refine doing_atPusher (hlater (by simp [hpc])) ?_ (by rw [hpc]; exact decide_eq_false hspin)
      unfold afterSpin
      split_ifs <;> simp
  | clock deadline =>
    simp only [pusherStep, hpc]
    split_ifs
    · exact doing_atPusher (hlater (by simp [hpc])) (by simp) (by rw [hpc]; rfl)
    · refine .goes none (by simp) (by simp) (by simp) rfl fun htrue => ?_
      rw [hpc] at htrue
      cases htrue
  | yield deadline =>
    simp only [pusherStep, hpc]
    exact doing_attempt (.inr (by rw [hpc]; rfl)) (by simp)
  | forever =>
    simp only [pusherStep, hpc]
    exact doing_attempt (.inr (by rw [hpc]; rfl)) (by simp)

theorem Tracked.pusherStep (h : Tracked s) (hp : p ∈ s.pushers i) :
    Tracked (pusherStep config s i p refuse) := by
  have hdoing : Doing config s i p refuse (Backpressure.pusherStep config s i p refuse) :=
    doing_pusherStep (h.later i p hp)
  obtain ⟨queue, hoffer, -, ht⟩ | ⟨next, hcall, hphase, hitem, ht, -⟩ := hdoing
  · rw [ht]
    exact h.accepted hp (offer_some hoffer)
  · rw [ht]
    exact h.atPusher hp hcall hphase hitem

theorem Tracked.act {a : Action ι α} (h : Tracked s) (hs : act config s a = some t) : Tracked t := by
  cases a with
  | push i item =>
    simp only [Backpressure.act] at hs
    split at hs
    next hidle =>
      cases hs
      exact h.push hidle item
    · cases hs
  | pusher i refuse =>
    obtain ⟨p, hp, rfl⟩ := Option.map_eq_some_iff.mp hs
    exact h.pusherStep hp
  | pop =>
    simp only [Backpressure.act] at hs
    split at hs
    next hpop =>
      cases hs
      exact h.frame (entered_pop hpop) rfl rfl rfl
    · cases hs
      exact h
  | tick d =>
    cases hs
    exact h.frame rfl rfl rfl rfl

end Invariant

section Delivery

variable {ι α : Type} {capacity : ℕ} {s t : State ι α capacity}

theorem delivered_congr (hentered : t.entered = s.entered) (hreturned : t.returned = s.returned) :
    Delivered t ↔ Delivered s := by
  rw [Delivered, Delivered, hentered, hreturned]

theorem delivered_concat {call : ℕ} {x : α} {item : Option α} (hentered : t.entered = s.entered ++ [(call, item)])
    (hreturned : t.returned = s.returned ++ [(call, x)]) (hnew : ∀ e ∈ s.entered, e.1 ≠ call)
    (hpending : ∀ e ∈ s.returned, e.1 ≠ call) : Delivered t ↔ Delivered s ∧ item = some x := by
  have hother c (hc : c ≠ call) : t.entered.filter (·.1 = c) = s.entered.filter (·.1 = c) := by
    have hfalse : decide ((call, item).1 = c) = false := decide_eq_false hc.symm
    rw [hentered, List.filter_append, List.filter_singleton, hfalse, cond_false, List.append_nil]
  have hself : t.entered.filter (·.1 = call) = [(call, item)] := by
    have hempty : s.entered.filter (·.1 = call) = [] :=
      List.filter_eq_nil_iff.mpr fun e he => by simpa using hnew e he
    have htrue : decide ((call, item).1 = call) = true := decide_eq_true rfl
    rw [hentered, List.filter_append, hempty, List.filter_singleton, htrue, cond_true, List.nil_append]
  constructor
  · intro h
    refine ⟨fun c y hy => ?_, ?_⟩
    · rw [← hother c (hpending _ hy)]
      exact h c y (hreturned ▸ List.mem_append_left _ hy)
    · have hlast := h call x (hreturned ▸ List.mem_append_right _ List.mem_cons_self)
      rw [hself] at hlast
      simpa using hlast
  · rintro ⟨h, rfl⟩ c y hy
    rw [hreturned] at hy
    obtain hy | hy := List.mem_append.mp hy
    · rw [hother c (hpending _ hy)]
      exact h c y hy
    · obtain ⟨rfl, rfl⟩ := Prod.mk.inj (List.mem_singleton.mp hy)
      exact hself

variable [DecidableEq ι] {config : Config} {a : Action ι α} {i : ι} {p : Push α} {refuse : Bool}

theorem delivered_pusherStep (h : Tracked s) (hp : p ∈ s.pushers i) :
    Delivered (pusherStep config s i p refuse) ↔
      Delivered s ∧ (p.phase.retries config = true → (offer s.queue refuse (p.call, p.item)).isNone = true) := by
  have hdoing : Doing config s i p refuse (pusherStep config s i p refuse) := doing_pusherStep (h.later i p hp)
  obtain ⟨queue, hoffer, hphase, ht⟩ | ⟨next, -, -, -, ht, hrefused⟩ := hdoing
  · rw [ht, delivered_concat (entered_accepted (offer_some hoffer)) rfl (h.waiting i p hp) (h.pending i p hp), hoffer]
    apply and_congr_right
    intro _
    obtain hfirst | hretries := hphase
    · have hitem := h.first i p hp hfirst
      simp [hitem, hfirst, Phase.retries]
    · have hitem : p.item = none := by
        apply h.later i p hp
        intro hfirst
        rw [hfirst] at hretries
        cases hretries
      simp [hitem, hretries]
  · rw [ht, delivered_congr (s := s) rfl rfl]
    exact (and_iff_left hrefused).symm

theorem delivered_act {k : Trace (Action ι α) Empty} (h : Tracked s) (hs : act config s a = some t) :
    Delivered t ↔ Delivered s ∧ Refused config k s a := by
  cases a with
  | pusher i refuse =>
    obtain ⟨p, hp, rfl⟩ := Option.map_eq_some_iff.mp hs
    rw [delivered_pusherStep h hp]
    apply and_congr_right
    intro _
    constructor
    · rintro hrefused q hq
      obtain rfl := Option.some.inj (hp.symm.trans hq)
      exact hrefused
    · exact fun hrefused => hrefused p hp
  | push i item =>
    simp only [act] at hs
    split at hs
    · cases hs
      exact (delivered_congr rfl rfl).trans (and_iff_left trivial).symm
    · cases hs
  | pop =>
    simp only [act] at hs
    split at hs
    next hpop =>
      cases hs
      exact (delivered_congr (entered_pop hpop) rfl).trans (and_iff_left trivial).symm
    · cases hs
      exact (and_iff_left trivial).symm
  | tick d =>
    cases hs
    exact (delivered_congr rfl rfl).trans (and_iff_left trivial).symm

omit [DecidableEq ι] in
theorem tracked_initial : Tracked ({} : State ι α capacity) :=
  ⟨nofun, nofun, nofun, nofun, nofun, nofun, nofun, nofun⟩

theorem tracked_of_run {h : Trace (Action ι α) Empty} (hr : (machine config).Run {} h s) : Tracked s := by
  apply hr.invariant (I := fun _ s => Tracked s) tracked_initial
  intro run s a t events htracked _ hstep
  obtain ⟨u, hact, heq⟩ := Option.map_eq_some_iff.mp hstep
  cases heq
  exact htracked.act hact

/-- What was passed arrives, once, exactly if no attempt but the first is ever accepted. -/
theorem delivered_iff_refused {h : Trace (Action ι α) Empty} (hr : (machine config).Run {} h s) :
    Delivered s ↔ (machine config).Reach (Refused config) {} h s := by
  apply hr.iff_guarded
  · nofun
  · intro run s a t events hrun hstep
    obtain ⟨u, hact, heq⟩ := Option.map_eq_some_iff.mp hstep
    cases heq
    exact delivered_act (tracked_of_run hrun) hact

end Delivery

section Runs

def blocking : Config where
  strategy := .block
  blockTimeout := 50000
  spinCount := 8

theorem delivered_at_once : ∃ h, ∃ s : State Unit ℕ 1, (machine blocking).Run {} h s ∧
    s.received = [(0, some 7)] ∧ (Delivered s ↔ (machine blocking).Reach (Refused blocking) {} h s) := by
  obtain ⟨h, s, hr, hreceived⟩ := Machine.exists_run (machine blocking) ({} : State Unit ℕ 1)
    (fun _ s => s.received = [(0, some 7)]) [.push () 7, .pusher () false, .pop] (by decide +kernel)
  exact ⟨h, s, hr, hreceived, delivered_iff_refused hr⟩

/-- The queue is full when a second value comes, and has room at the first turn of the spin phase. -/
theorem delivers_moved_from : ∃ h, ∃ s : State Unit ℕ 1, (machine blocking).Run {} h s ∧ ¬Delivered s := by
  obtain ⟨h, s, hr, hreturned, hentered⟩ := Machine.exists_run (machine blocking) ({} : State Unit ℕ 1)
    (fun _ s => (1, 42) ∈ s.returned ∧ s.entered.filter (·.1 = 1) = [(1, none)])
    [.push () 7, .pusher () false, .push () 42, .pusher () false, .pop, .pusher () false, .pop] (by decide +kernel)
  refine ⟨h, s, hr, fun hdelivered => ?_⟩
  have hfilter := hdelivered 1 42 hreturned
  rw [hentered] at hfilter
  cases hfilter

end Runs

end Klett.Cunk.Backpressure
