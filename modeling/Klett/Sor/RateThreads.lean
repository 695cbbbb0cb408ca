import Mathlib.Algebra.BigOperators.Ring.Finset
import Mathlib.Algebra.Order.BigOperators.Group.Finset
import Mathlib.Algebra.Ring.Int.Defs
import Klett.Lib.Machine
import Klett.Lib.Parties
import Klett.Sor.RiskManager

namespace Klett.Sor.RateThreads

open Klett.Lib

/-- Where a thread stands in `try_acquire`, with the second it read. -/
inductive Pc
  | idle
  | timed (nowSec : ℤ)
  | switching (nowSec expected : ℤ)
  | won (nowSec : ℤ)
  | adding (nowSec : ℤ)
  | overLimit (nowSec : ℤ)
  deriving DecidableEq

structure State (n : ℕ) where
  limiter : RateLimiter
  clock : ℤ
  threads : Fin n → Pc := fun _ => .idle

inductive Action (n : ℕ)
  | call (thread : Fin n) (nowSec : ℤ)
  | run (thread : Fin n)

inductive Event
  | granted (nowSec : ℤ)
  | refused (nowSec : ℤ)
  deriving DecidableEq

variable {n : ℕ}

namespace State

variable (s : State n)

def goto (i : Fin n) (pc : Pc) : State n := { s with threads := Function.update s.threads i pc }

def setCount (count : ℤ) : State n := { s with limiter := { s.limiter with count := count } }

def advance (i : Fin n) : Pc → Option (State n × List Event)
  | .idle => none
  | .timed now =>
    some (s.goto i (if now > s.limiter.windowStart then .switching now s.limiter.windowStart else .adding now),
      [])
  | .switching now expected =>
    if s.limiter.windowStart = expected then
      some ({ s with limiter := { s.limiter with windowStart := now } }.goto i (.won now), [])
    else some (s.goto i (.adding now), [])
  | .won now => some ((s.setCount 1).goto i .idle, [.granted now])
  | .adding now =>
    if s.limiter.count ≥ s.limiter.maxPerSecond then
      some ((s.setCount (s.limiter.count + 1)).goto i (.overLimit now), [])
    else some ((s.setCount (s.limiter.count + 1)).goto i .idle, [.granted now])
  | .overLimit now => some ((s.setCount (s.limiter.count - 1)).goto i .idle, [.refused now])

end State

def machine (n : ℕ) : Machine (State n) (Action n) Event where
  step s
    | .call i now =>
      if s.threads i = .idle ∧ s.clock ≤ now then some ({ s with clock := now }.goto i (.timed now), [])
      else none
    | .run i => s.advance i (s.threads i)

def start (n : ℕ) (maxPerSecond nowSec : ℤ) : State n where
  limiter := { maxPerSecond := maxPerSecond, windowStart := nowSec }
  clock := nowSec

def grants (second : ℤ) (h : Trace (Action n) Event) : ℤ := h.events.count (.granted second)

def Pc.isWon : Pc → Bool
  | .won _ => true
  | _ => false

def Pc.isOver : Pc → Bool
  | .overLimit _ => true
  | _ => false

/-- A grant by the counter is for the second of the window, whose counter has been reset, and no thread
has an increment to take back when the counter is reset. -/
def Careful (s : State n) : Pc → Prop
  | .adding now => s.limiter.count < s.limiter.maxPerSecond →
      now = s.limiter.windowStart ∧ ∀ j, (s.threads j).isWon = false
  | .won _ => ∀ j, (s.threads j).isOver = false
  | _ => True

def Disciplined : Machine.Guard (State n) (Action n) Event
  | _, _, .call _ _ => True
  | _, s, .run i => Careful s (s.threads i)

instance (s : State n) : ∀ pc, Decidable (Careful s pc)
  | .adding _ => inferInstanceAs (Decidable (_ → _ ∧ ∀ _, _))
  | .won _ => inferInstanceAs (Decidable (∀ _, _))
  | .idle | .timed _ | .switching _ _ | .overLimit _ => isTrue trivial

instance (h : Trace (Action n) Event) (s : State n) : ∀ a, Decidable (Disciplined h s a)
  | .call _ _ => isTrue trivial
  | .run i => inferInstanceAs (Decidable (Careful s (s.threads i)))

def pending (s : State n) : ℤ := ∑ j, if (s.threads j).isOver then 1 else 0

structure Sound (h : Trace (Action n) Event) (s : State n) : Prop where
  bound : ∀ second, grants second h ≤ s.limiter.maxPerSecond
  future : ∀ second, s.limiter.windowStart < second → grants second h = 0
  opened : ∀ {i now}, s.threads i = .won now → now ≤ s.limiter.windowStart ∧ grants now h = 0
  distinct : ∀ {i j now}, s.threads i = .won now → s.threads j = .won now → i = j
  early : ∀ {i now}, s.threads i = .won now → grants s.limiter.windowStart h ≤ 1
  ahead : ∀ {i now expected}, s.threads i = .switching now expected → expected < now
  positive : 1 ≤ s.limiter.maxPerSecond
  counted : (∀ i, (s.threads i).isWon = false) → grants s.limiter.windowStart h + pending s ≤ s.limiter.count

theorem pending_goto (s : State n) (i : Fin n) (pc : Pc) : pending (s.goto i pc) =
    pending s - (if (s.threads i).isOver then 1 else 0) + if pc.isOver then 1 else 0 := by
  have hsum : pending (s.goto i pc) + (if (s.threads i).isOver then 1 else 0) =
      pending s + if pc.isOver then 1 else 0 :=
    sum_update (fun pc : Pc => if pc.isOver then (1 : ℤ) else 0) s.threads pc (Finset.mem_univ i)
  rw [eq_sub_of_add_eq hsum, sub_add_eq_add_sub]

theorem grants_append (second : ℤ) (h : Trace (Action n) Event) (a : Action n) (es : List Event) :
    grants second (h ++ [(a, es)]) = grants second h + es.count (.granted second) := by
  simp [grants]

theorem grants_silent (second : ℤ) (h : Trace (Action n) Event) (a : Action n) :
    grants second (h ++ [(a, [])]) = grants second h := by
  simp [grants_append]

theorem pending_nonneg (s : State n) : 0 ≤ pending s :=
  Finset.sum_nonneg fun j _ => by split <;> decide

theorem pending_of_none {s : State n} (h : ∀ j, (s.threads j).isOver = false) : pending s = 0 :=
  Finset.sum_eq_zero fun j _ => by simp [h j]

namespace State

variable {s : State n} {i j : Fin n} {pc : Pc}

@[simp] theorem goto_self : (s.goto i pc).threads i = pc := by simp [goto]

theorem goto_other (hne : j ≠ i) : (s.goto i pc).threads j = s.threads j := by simp [goto, hne]

@[simp] theorem goto_limiter : (s.goto i pc).limiter = s.limiter := rfl

theorem goto_eq {pc' : Pc} (h : (s.goto i pc).threads j = pc') : j = i ∧ pc = pc' ∨ j ≠ i ∧ s.threads j = pc' := by
  by_cases hji : j = i
  · subst hji
    rw [goto_self] at h
    exact .inl ⟨rfl, h⟩
  · rw [goto_other hji] at h
    exact .inr ⟨hji, h⟩

end State

namespace Sound

variable {h : Trace (Action n) Event} {s : State n} {i : Fin n} {a : Action n} {pc : Pc} {now maxPerSecond : ℤ}

theorem notWon_of_goto (hfrom : (s.threads i).isWon = false) (hall : ∀ j, ((s.goto i pc).threads j).isWon = false)
    (j : Fin n) : (s.threads j).isWon = false := by
  by_cases hji : j = i
  · rw [hji]
    exact hfrom
  · have hother : (s.goto i pc).threads j = s.threads j := State.goto_other hji
    rw [← hother]
    exact hall j

theorem moved (hs : Sound h s) {es : List Event} {count : ℤ} (hfrom : (s.threads i).isWon = false)
    (hto : pc.isWon = false) (hahead : ∀ now expected, pc = .switching now expected → expected < now)
    (hes : ∀ second, grants second (h ++ [(a, es)]) = grants second h)
    (hcount : count = s.limiter.count - (if (s.threads i).isOver then 1 else 0) + if pc.isOver then 1 else 0) :
    Sound (h ++ [(a, es)]) ((s.setCount count).goto i pc) := by
  have hwon {j now} (hw : ((s.setCount count).goto i pc).threads j = .won now) : s.threads j = .won now := by
    obtain ⟨-, hpc⟩ | ⟨-, hold⟩ := State.goto_eq hw
    · rw [hpc] at hto
      exact absurd hto Bool.noConfusion
    · exact hold
  refine ⟨fun second => ?_, fun second hlt => ?_, fun hw => ?_, fun hw hw' => hs.distinct (hwon hw) (hwon hw'),
    fun hw => ?_, fun {j now expected} hsw => ?_, hs.positive, fun hall => ?_⟩
  · rw [hes]
    exact hs.bound second
  · rw [hes]
    exact hs.future second hlt
  · rw [hes]
    exact hs.opened (hwon hw)
  · rw [hes]
    exact hs.early (hwon hw)
  · obtain ⟨-, hpc⟩ | ⟨-, hold⟩ := State.goto_eq hsw
    · exact hahead now expected hpc
    · exact hs.ahead hold
  · have hold := hs.counted (notWon_of_goto (s := s.setCount count) hfrom hall)
    rw [hes, pending_goto, hcount]
    change grants s.limiter.windowStart h + (pending s - (if (s.threads i).isOver then 1 else 0) + _) ≤ _ - _ + _
    omega

theorem still (hs : Sound h s) (hfrom : (s.threads i).isWon = false ∧ (s.threads i).isOver = false)
    (hto : pc.isWon = false ∧ pc.isOver = false)
    (hahead : ∀ now expected, pc = .switching now expected → expected < now) :
    Sound (h ++ [(a, [])]) (s.goto i pc) := by
  change Sound (h ++ [(a, [])]) ((s.setCount s.limiter.count).goto i pc)
  apply hs.moved hfrom.1 hto.1 hahead (fun second => grants_silent _ _ _)
  rw [hfrom.2, hto.2]
  simp

theorem switched (hs : Sound h s) {expected : ℤ} (hpc : s.threads i = .switching now expected)
    (heq : s.limiter.windowStart = expected) :
    Sound (h ++ [(a, [])]) ({ s with limiter := { s.limiter with windowStart := now } }.goto i (.won now)) := by
  have hlt : s.limiter.windowStart < now := heq ▸ hs.ahead hpc
  have hnew := hs.future now hlt
  refine ⟨fun second => ?_, fun second hsecond => ?_, fun {j t} hw => ?_, fun {j k t} hj hk => ?_, fun _ => ?_,
    fun {j t expected} hsw => ?_, hs.positive, fun hall => ?_⟩
  · rw [grants_silent]
    exact hs.bound second
  · rw [grants_silent]
    exact hs.future second (hlt.trans hsecond)
  · rw [grants_silent]
    obtain ⟨-, hnow⟩ | ⟨-, hold⟩ := State.goto_eq hw
    · cases hnow
      exact ⟨le_rfl, hnew⟩
    · exact ⟨(hs.opened hold).1.trans hlt.le, (hs.opened hold).2⟩
  · obtain ⟨hji, hnow⟩ | ⟨-, hold⟩ := State.goto_eq hj <;> obtain ⟨hki, hnow'⟩ | ⟨-, hold'⟩ := State.goto_eq hk
    · rw [hji, hki]
    · cases hnow
      exact absurd (hs.opened hold').1 (not_le.mpr hlt)
    · cases hnow'
      exact absurd (hs.opened hold).1 (not_le.mpr hlt)
    · exact hs.distinct hold hold'
  · rw [grants_silent]
    exact hnew.trans_le zero_le_one
  · obtain ⟨-, hnow⟩ | ⟨-, hold⟩ := State.goto_eq hsw
    · cases hnow
    · exact hs.ahead hold
  · have hi := hall i
    rw [State.goto_self] at hi
    cases hi

theorem granted (second : ℤ) (h : Trace (Action n) Event) (a : Action n) (now : ℤ) :
    grants second (h ++ [(a, [.granted now])]) = grants second h + if now = second then 1 else 0 := by
  rw [grants_append]
  by_cases hsame : now = second <;> simp [hsame]

/-- The store that starts the count of a second. The window may have moved on already; nothing has been
granted in it then, but by its own store. -/
theorem stored (hs : Sound h s) (hpc : s.threads i = .won now) (hquiet : ∀ j, (s.threads j).isOver = false) :
    Sound (h ++ [(a, [.granted now])]) ((s.setCount 1).goto i .idle) := by
  obtain ⟨hle, hnone⟩ := hs.opened hpc
  have hwon {j t} (hw : ((s.setCount 1).goto i .idle).threads j = .won t) : j ≠ i ∧ s.threads j = .won t := by
    obtain ⟨-, hidle⟩ | hold := State.goto_eq hw
    · cases hidle
    · exact hold
  have hearly : grants s.limiter.windowStart (h ++ [(a, [.granted now])]) ≤ 1 := by
    rw [granted]
    split_ifs with hsame
    · rw [← hsame, hnone, zero_add]
    · rw [add_zero]
      exact hs.early hpc
  refine ⟨fun second => ?_, fun second hlt => ?_, fun {j t} hw => ?_, fun hj hk => hs.distinct (hwon hj).2 (hwon hk).2,
    fun _ => hearly, fun {j t expected} hsw => ?_, hs.positive, fun _ => ?_⟩
  · rw [granted]
    split_ifs with hsame
    · rw [← hsame, hnone, zero_add]
      exact hs.positive
    · rw [add_zero]
      exact hs.bound second
  · rw [granted, if_neg (hle.trans_lt hlt).ne, add_zero]
    exact hs.future second hlt
  · obtain ⟨hne, hold⟩ := hwon hw
    have hother : now ≠ t := by
      rintro rfl
      exact hne (hs.distinct hold hpc)
    rw [granted, if_neg hother, add_zero]
    exact hs.opened hold
  · obtain ⟨-, hidle⟩ | ⟨-, hold⟩ := State.goto_eq hsw
    · cases hidle
    · exact hs.ahead hold
  · have hpending : pending ((s.setCount 1).goto i .idle) = 0 := by
      apply pending_of_none
      intro j
      by_cases hji : j = i
      · rw [hji, State.goto_self]
        rfl
      · rw [State.goto_other hji]
        exact hquiet j
    rw [hpending, add_zero]
    exact hearly

theorem added (hs : Sound h s) (hpc : s.threads i = .adding now) (hroom : s.limiter.count < s.limiter.maxPerSecond)
    (hnow : now = s.limiter.windowStart) (hnone : ∀ j, (s.threads j).isWon = false) :
    Sound (h ++ [(a, [.granted now])]) ((s.setCount (s.limiter.count + 1)).goto i .idle) := by
  have hcounted := hs.counted hnone
  have hpending := pending_nonneg s
  have hnot {j t} (hw : ((s.setCount (s.limiter.count + 1)).goto i .idle).threads j = .won t) : False := by
    obtain ⟨-, hidle⟩ | ⟨-, hold⟩ := State.goto_eq hw
    · cases hidle
    · have hj := hnone j
      rw [show s.threads j = .won t from hold] at hj
      cases hj
  refine ⟨fun second => ?_, fun second hlt => ?_, fun hw => (hnot hw).elim, fun hw => (hnot hw).elim,
    fun hw => (hnot hw).elim, fun {j t expected} hsw => ?_, hs.positive, fun _ => ?_⟩
  · rw [granted]
    split_ifs with hsame
    · rw [← hsame, hnow]
      change _ ≤ s.limiter.maxPerSecond
      omega
    · rw [add_zero]
      exact hs.bound second
  · have hne : now ≠ second := by
      rw [hnow]
      exact ne_of_lt hlt
    rw [granted, if_neg hne, add_zero]
    exact hs.future second hlt
  · obtain ⟨-, hidle⟩ | ⟨-, hold⟩ := State.goto_eq hsw
    · cases hidle
    · exact hs.ahead hold
  · rw [granted, pending_goto]
    change grants s.limiter.windowStart h + (if now = s.limiter.windowStart then 1 else 0) +
      (pending s - (if (s.threads i).isOver then 1 else 0) + 0) ≤ s.limiter.count + 1
    rw [if_pos hnow, hpc]
    simp only [Pc.isOver, Bool.false_eq_true, ↓reduceIte]
    omega

theorem step (hs : Sound h s) (hd : Disciplined h s a) {s' : State n} {es : List Event}
    (he : (machine n).step s a = some (s', es)) : Sound (h ++ [(a, es)]) s' := by
  cases a with
  | call i now =>
    simp only [machine] at he
    split_ifs at he with hidle
    cases he
    have hclock : Sound h { s with clock := now } :=
      ⟨hs.bound, hs.future, hs.opened, hs.distinct, hs.early, hs.ahead, hs.positive, hs.counted⟩
    exact hclock.still (by rw [hidle.1]; exact ⟨rfl, rfl⟩) ⟨rfl, rfl⟩ fun _ _ h => by cases h
  | run i =>
    simp only [machine] at he
    simp only [Disciplined] at hd
    cases hpc : s.threads i with
    | idle =>
      rw [hpc] at he
      cases he
    | timed now =>
      rw [hpc] at he
      cases he
      refine hs.still (by rw [hpc]; exact ⟨rfl, rfl⟩) ?_ fun t expected hsw => ?_
      · split_ifs <;> exact ⟨rfl, rfl⟩
      · split_ifs at hsw with hlate
        cases hsw
        exact hlate
    | switching now expected =>
      rw [hpc] at he
      simp only [State.advance] at he
      split_ifs at he with heq
      · cases he
        exact hs.switched hpc heq
      · cases he
        exact hs.still (by rw [hpc]; exact ⟨rfl, rfl⟩) ⟨rfl, rfl⟩ fun _ _ h => by cases h
    | won now =>
      rw [hpc] at he hd
      cases he
      exact hs.stored hpc hd
    | adding now =>
      rw [hpc] at he hd
      simp only [State.advance] at he
      split_ifs at he with hfull
      · cases he
        apply hs.moved (by rw [hpc]; rfl) rfl (fun _ _ h => by cases h) (fun second => grants_silent _ _ _)
        rw [hpc]
        simp [Pc.isOver]
      · cases he
        obtain ⟨hnow, hnone⟩ := hd (not_le.mp hfull)
        exact hs.added hpc (not_le.mp hfull) hnow hnone
    | overLimit now =>
      rw [hpc] at he
      cases he
      refine hs.moved (by rw [hpc]; rfl) rfl (fun _ _ h => by cases h) (fun second => ?_) ?_
      · simp [grants_append]
      · rw [hpc]
        simp [Pc.isOver]

theorem start (hM : 1 ≤ maxPerSecond) (nowSec : ℤ) : Sound [] (RateThreads.start n maxPerSecond nowSec) := by
  refine ⟨fun _ => ?_, fun _ _ => rfl, fun hw => ?_, fun hw => ?_, fun hw => ?_, fun hsw => ?_, hM, fun _ => ?_⟩
  · exact le_trans zero_le_one hM
  · cases hw
  · cases hw
  · cases hw
  · cases hsw
  · rw [pending_of_none fun _ => rfl]
    exact le_of_eq rfl

end Sound

theorem step_maxPerSecond {s s' : State n} {a : Action n} {es : List Event}
    (he : (machine n).step s a = some (s', es)) : s'.limiter.maxPerSecond = s.limiter.maxPerSecond := by
  cases a with
  | call i now =>
    simp only [machine] at he
    split_ifs at he
    cases he
    rfl
  | run i =>
    simp only [machine, State.advance] at he
    split at he
    · cases he
    · cases he
      rfl
    · split_ifs at he <;> cases he <;> rfl
    · cases he
      rfl
    · split_ifs at he <;> cases he <;> rfl
    · cases he
      rfl

/-- In every run whose steps are disciplined a second gets at most its number of grants. -/
theorem grants_within (n : ℕ) (maxPerSecond startSec : ℤ) (hM : 1 ≤ maxPerSecond)
    (h : Trace (Action n) Event) (s : State n)
    (hr : (machine n).Reach Disciplined (start n maxPerSecond startSec) h s) (second : ℤ) :
    grants second h ≤ maxPerSecond := by
  have hsound : Sound h s ∧ s.limiter.maxPerSecond = maxPerSecond := by
    refine hr.invariant (I := fun h s => Sound h s ∧ s.limiter.maxPerSecond = maxPerSecond)
      ⟨Sound.start hM startSec, rfl⟩ fun k t a u es hi hd he => ?_
    exact ⟨hi.1.step hd he, (step_maxPerSecond he).trans hi.2⟩
  rw [← hsound.2]
  exact hsound.1.bound second

theorem alone {s : State n} {i : Fin n} {now : ℤ} (hidle : s.threads i = .idle) (hclock : s.clock ≤ now) :
    ∃ k, ((machine n).exec s (.call i now :: List.replicate k (.run i))).map
        (fun r => (r.1.events, r.2.limiter)) =
      some ([if (s.limiter.tryAcquire now).2 then .granted now else .refused now],
        (s.limiter.tryAcquire now).1) := by
  unfold RateLimiter.tryAcquire
  by_cases hlate : now > s.limiter.windowStart
  · refine ⟨3, ?_⟩
    simp [Machine.exec, machine, hidle, hclock, State.advance, State.goto, State.setCount, hlate, Trace.events]
  · by_cases hfull : s.limiter.count ≥ s.limiter.maxPerSecond
    · refine ⟨3, ?_⟩
      simp [Machine.exec, machine, hidle, hclock, State.advance, State.goto, State.setCount, hlate, hfull,
        Trace.events]
    · refine ⟨2, ?_⟩
      simp [Machine.exec, machine, hidle, hclock, State.advance, State.goto, State.setCount, hlate, hfull,
        Trace.events]

def thread0 : Fin 2 := ⟨0, Nat.two_pos⟩

def thread1 : Fin 2 := ⟨1, Nat.one_lt_two⟩

def twoCalls : List (Action 2) :=
  [.call thread0 1, .run thread0, .run thread0, .run thread0, .call thread1 1, .run thread1, .run thread1, .run thread1]

theorem grants_within_twoCalls : ∃ h s, (machine 2).Reach Disciplined (start 2 1 0) h s ∧
    (h.events = [.granted 1, .refused 1] ∧ ∀ second, grants second h ≤ 1) := by
  obtain ⟨h, s, hr, he⟩ := Machine.exists_reach (machine 2) Disciplined (start 2 1 0)
    (fun h _ => h.events = [.granted 1, .refused 1]) twoCalls (by decide)
  exact ⟨h, s, hr, he, grants_within 2 1 0 le_rfl h s hr⟩

/-- The second thread counts on the old counter while the first has yet to reset it. -/
def betweenSwitchAndReset : List (Action 2) :=
  [.call thread0 1, .run thread0, .run thread0, .call thread1 1, .run thread1, .run thread1, .run thread0]

theorem second_overgranted : ∃ h s, (machine 2).Run (start 2 1 0) h s ∧ 1 < grants 1 h :=
  Machine.exists_run (machine 2) (start 2 1 0) (fun h _ => 1 < grants 1 h) betweenSwitchAndReset (by decide)

end Klett.Sor.RateThreads
