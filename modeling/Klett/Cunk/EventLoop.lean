import Klett.Lib.Machine
import Mathlib.Algebra.Order.Ring.Int
import Mathlib.Logic.Function.Basic

namespace Klett.Cunk.EventLoop

open Klett.Lib

section Data

/-- The thread in `run` (no deadline) or in `run_for`. -/
inductive Loop where
  | off
  | start (duration : Option ℤ)
  | storeRunning (deadline : Option ℤ)
  | storeStopFlag (deadline : Option ℤ)
  | loadStopFlag (deadline : Option ℤ)
  | clock (deadline : ℤ)
  | processOne (deadline : Option ℤ)
  | handlers (deadline : Option ℤ)
  | remaining (deadline : ℤ)
  | testStopFlag
  | testQueue
  | blocked (deadline : Option ℤ)
  | leave
  deriving DecidableEq

/-- A thread in `stop` or `dispatch`; a handler that calls one of them counts as such a thread while the loop is at
`handlers`. A call of `stop` remembers how often the loop had been launched when it began. -/
inductive Caller (α : Type) where
  | idle
  | stopStore (launch : ℕ)
  | stopNotify (launch : ℕ)
  | push (event : α)
  | notify
  deriving DecidableEq

/-- `launches` counts the calls of `run` and `run_for`; `stops` has the launch of each call of `stop` that has
returned. Nothing reads the two. -/
structure State (ι α : Type) where
  now : ℤ
  capacity : ℕ
  queue : List α := []
  running : Bool := false
  stopFlag : Bool := false
  loop : Loop := .off
  callers : ι → Caller α := fun _ => .idle
  launches : ℕ := 0
  stops : List ℕ := []

inductive Action (ι α : Type) where
  | run
  | runFor (duration : ℤ)
  | loop
  | timeout
  | spurious
  | stop (i : ι)
  | dispatch (i : ι) (event : α)
  | caller (i : ι)
  | tick (d : ℕ)

end Data

section Model

variable {ι α : Type}

def State.atLoop (s : State ι α) (l : Loop) : State ι α := { s with loop := l }

/-- The waiter in `run` tests its predicate again; the one in `run_for` has none. -/
def State.notify (s : State ι α) : State ι α :=
  match s.loop with
  | .blocked none => s.atLoop .testStopFlag
  | .blocked (some deadline) => s.atLoop (.loadStopFlag (some deadline))
  | _ => s

def launch (s : State ι α) (duration : Option ℤ) : Option (State ι α) :=
  match s.loop with
  | .off => some { s.atLoop (.start duration) with launches := s.launches + 1 }
  | _ => none

def loopStep (s : State ι α) : Option (State ι α) :=
  match s.loop with
  | .off => none
  | .start duration => some (s.atLoop (.storeRunning (duration.map (s.now + ·))))
  | .storeRunning deadline => some { s.atLoop (.storeStopFlag deadline) with running := true }
  | .storeStopFlag deadline => some { s.atLoop (.loadStopFlag deadline) with stopFlag := false }
  | .loadStopFlag deadline =>
    if s.stopFlag then some (s.atLoop .leave)
    else match deadline with
      | none => some (s.atLoop (.processOne none))
      | some deadline => some (s.atLoop (.clock deadline))
  | .clock deadline => some (s.atLoop (if s.now < deadline then .processOne (some deadline) else .leave))
  | .processOne deadline =>
    match s.queue, deadline with
    | _ :: queue, _ => some { s.atLoop (.handlers deadline) with queue := queue }
    | [], none => some (s.atLoop .testStopFlag)
    | [], some deadline => some (s.atLoop (.remaining deadline))
  | .handlers deadline => some (s.atLoop (.loadStopFlag deadline))
  | .remaining deadline => some (s.atLoop (if deadline - s.now ≤ 0 then .leave else .blocked (some deadline)))
  | .testStopFlag => some (s.atLoop (if s.stopFlag then .loadStopFlag none else .testQueue))
  | .testQueue => some (s.atLoop (if s.queue.isEmpty then .blocked none else .loadStopFlag none))
  | .blocked _ => none
  | .leave => some { s.atLoop .off with running := false }

/-- The end of a wait at its time-out of a millisecond or less. -/
def timeout (s : State ι α) : Option (State ι α) :=
  match s.loop with
  | .blocked deadline => some (s.atLoop (.loadStopFlag deadline))
  | _ => none

variable [DecidableEq ι]

def State.atCaller (s : State ι α) (i : ι) (c : Caller α) : State ι α :=
  { s with callers := Function.update s.callers i c }

def callerStep (s : State ι α) (i : ι) : Option (State ι α) :=
  match s.callers i with
  | .idle => none
  | .stopStore launch => some { s.atCaller i (.stopNotify launch) with stopFlag := true }
  | .stopNotify launch => some { s.notify.atCaller i .idle with stops := s.stops ++ [launch] }
  | .push event =>
    let queue := if s.queue.length < s.capacity then s.queue ++ [event] else s.queue
    some { s.atCaller i .notify with queue := queue }
  | .notify => some (s.notify.atCaller i .idle)

def call (s : State ι α) (i : ι) (c : Caller α) : Option (State ι α) :=
  match s.callers i with
  | .idle => some (s.atCaller i c)
  | _ => none

def act (s : State ι α) : Action ι α → Option (State ι α)
  | .run => launch s none
  | .runFor duration => launch s (some duration)
  | .loop => loopStep s
  | .timeout => timeout s
  | .spurious => some s.notify
  | .stop i => call s i (.stopStore s.launches)
  | .dispatch i event => call s i (.push event)
  | .caller i => callerStep s i
  | .tick d => some { s with now := s.now + d }

def machine : Machine (State ι α) (Action ι α) Empty where
  step s a := (act s a).map (·, [])

end Model

section Specification

variable {ι α : Type}

/-- A stop called since the launch has returned, the loop has not, and the flag is clear. -/
def Lost (s : State ι α) : Prop := s.launches ∈ s.stops ∧ s.loop ≠ .off ∧ s.stopFlag = false

/-- The loop has been launched and has not stored its own value of the flag. -/
def Loop.starting : Loop → Bool
  | .start _ | .storeRunning _ | .storeStopFlag _ => true
  | _ => false

/-- No stop called since the launch stores its value before the loop does. -/
def Timely (_ : Trace (Action ι α) Empty) (s : State ι α) (a : Action ι α) : Prop :=
  match a with
  | .caller i => s.callers i = .stopStore s.launches → s.loop.starting = false
  | _ => True

instance (s : State ι α) : Decidable (Lost s) :=
  inferInstanceAs (Decidable (s.launches ∈ s.stops ∧ s.loop ≠ .off ∧ s.stopFlag = false))

instance [DecidableEq α] (h : Trace (Action ι α) Empty) (s : State ι α) (a : Action ι α) : Decidable (Timely h s a) :=
  match a with
  | .caller i => inferInstanceAs (Decidable (s.callers i = .stopStore s.launches → s.loop.starting = false))
  | .run | .runFor _ | .loop | .timeout | .spurious | .stop _ | .dispatch _ _ | .tick _ => isTrue trivial

end Specification

section Invariant

variable {ι α : Type}

def Visible (s : State ι α) : Prop := s.loop = .off ∨ s.loop.starting = false ∧ s.stopFlag = true

def Stored (s : State ι α) (launch : ℕ) : Prop := launch ∈ s.stops ∨ ∃ i, s.callers i = .stopNotify launch

structure Heard (s : State ι α) : Prop where
  called : ∀ i launch, s.callers i = .stopStore launch → launch ≤ s.launches
  stored : ∀ launch, Stored s launch → launch ≤ s.launches
  visible : Stored s s.launches → Visible s

variable {s t u : State ι α}

/-- A step of the loop: no call of `stop` begins, goes on or ends. -/
structure Onward (s t : State ι α) : Prop where
  callers : t.callers = s.callers
  launches : t.launches = s.launches
  stops : t.stops = s.stops
  visible : Visible s → Visible t

theorem Visible.flag (h : Visible s) (hoff : s.loop ≠ .off) : s.loop.starting = false ∧ s.stopFlag = true :=
  h.resolve_left hoff

/-- Past its own store, the loop leaves the flag as it is. -/
theorem onward_started (hoff : s.loop ≠ .off) {l : Loop} (hl : l.starting = false) : Onward s (s.atLoop l) :=
  ⟨rfl, rfl, rfl, fun h => .inr ⟨hl, (h.flag hoff).2⟩⟩

theorem onward_starting (hoff : s.loop ≠ .off) (hl : s.loop.starting = true) (hcallers : t.callers = s.callers)
    (hlaunches : t.launches = s.launches) (hstops : t.stops = s.stops) : Onward s t := by
  refine ⟨hcallers, hlaunches, hstops, fun h => ?_⟩
  rw [(h.flag hoff).1] at hl
  cases hl

theorem onward_loopStep (hs : loopStep s = some t) : Onward s t := by
  have hoff : s.loop ≠ .off := by
    intro hpc
    simp [loopStep, hpc] at hs
  cases hpc : s.loop with
  | off | blocked => simp [loopStep, hpc] at hs
  | start | storeRunning | storeStopFlag =>
    simp only [loopStep, hpc, Option.some.injEq] at hs
    subst hs
    exact onward_starting hoff (by rw [hpc]; rfl) rfl rfl rfl
  | loadStopFlag =>
    simp only [loopStep, hpc] at hs
    split_ifs at hs with hflag
    · cases hs
      exact onward_started hoff rfl
    · split at hs
      all_goals
        cases hs
        exact onward_started hoff rfl
  | clock | remaining | testStopFlag | testQueue =>
    simp only [loopStep, hpc, Option.some.injEq] at hs
    subst hs
    split_ifs <;> exact onward_started hoff rfl
  | processOne =>
    simp only [loopStep, hpc] at hs
    split at hs
    all_goals
      cases hs
      exact ⟨rfl, rfl, rfl, fun h => .inr ⟨rfl, (h.flag hoff).2⟩⟩
  | handlers =>
    simp only [loopStep, hpc, Option.some.injEq] at hs
    subst hs
    exact onward_started hoff rfl
  | leave =>
    simp only [loopStep, hpc, Option.some.injEq] at hs
    subst hs
    exact ⟨rfl, rfl, rfl, fun _ => .inl rfl⟩

theorem onward_timeout (hs : timeout s = some t) : Onward s t := by
  unfold timeout at hs
  split at hs
  next hpc =>
    cases hs
    exact onward_started (by simp [hpc]) rfl
  · cases hs

theorem onward_notify (s : State ι α) : Onward s s.notify := by
  unfold State.notify
  split
  next hpc => exact onward_started (by simp [hpc]) rfl
  next hpc => exact onward_started (by simp [hpc]) rfl
  · exact ⟨rfl, rfl, rfl, id⟩

theorem Heard.onward (h : Heard s) (hstep : Onward s t) : Heard t := by
  have hstored launch : Stored t launch ↔ Stored s launch := by
    rw [Stored, Stored, hstep.callers, hstep.stops]
  refine ⟨fun i launch hi => ?_, fun launch hl => ?_, fun hl => ?_⟩
  · rw [hstep.callers] at hi
    rw [hstep.launches]
    exact h.called i launch hi
  · rw [hstep.launches]
    exact h.stored launch ((hstored launch).mp hl)
  · rw [hstep.launches] at hl
    exact hstep.visible (h.visible ((hstored _).mp hl))

theorem Heard.launch {duration : Option ℤ} (h : Heard s) (hs : launch s duration = some t) : Heard t := by
  unfold EventLoop.launch at hs
  split at hs
  · cases hs
    refine ⟨fun i launch hi => Nat.le_succ_of_le (h.called i launch hi),
      fun launch hl => Nat.le_succ_of_le (h.stored launch hl), fun hl => ?_⟩
    exact absurd (h.stored _ hl) (Nat.not_succ_le_self _)
  · cases hs

variable [DecidableEq ι] {i : ι} {c : Caller α}

theorem Heard.caller (h : Heard s) (hcallers : t.callers = Function.update s.callers i c)
    (hlaunches : t.launches = s.launches) (hcalled : ∀ launch, c = .stopStore launch → launch ≤ s.launches)
    (hnew : ∀ launch, launch ∈ t.stops ∨ c = .stopNotify launch → Stored s launch ∨ s.callers i = .stopStore launch)
    (hvisible : Visible s ∨ s.callers i = .stopStore s.launches → Visible t) : Heard t := by
  have hstored launch (hl : Stored t launch) : Stored s launch ∨ s.callers i = .stopStore launch := by
    obtain hstop | ⟨j, hj⟩ := hl
    · exact hnew launch (.inl hstop)
    · rw [hcallers] at hj
      obtain rfl | hne := eq_or_ne j i
      · rw [Function.update_self] at hj
        exact hnew launch (.inr hj)
      · rw [Function.update_of_ne hne] at hj
        exact .inl (.inr ⟨j, hj⟩)
  refine ⟨fun j launch hj => ?_, fun launch hl => ?_, fun hl => ?_⟩
  · rw [hcallers] at hj
    rw [hlaunches]
    obtain rfl | hne := eq_or_ne j i
    · rw [Function.update_self] at hj
      exact hcalled launch hj
    · rw [Function.update_of_ne hne] at hj
      exact h.called j launch hj
  · rw [hlaunches]
    exact (hstored launch hl).elim (h.stored launch) (h.called i launch)
  · rw [hlaunches] at hl
    exact hvisible ((hstored _ hl).imp_left h.visible)

theorem Heard.call (h : Heard s) (hcalled : ∀ launch, c = .stopStore launch → launch ≤ s.launches)
    (hc : ∀ launch, c ≠ .stopNotify launch) (hs : call s i c = some t) : Heard t := by
  unfold EventLoop.call at hs
  split at hs
  next hidle =>
    cases hs
    refine h.caller (i := i) rfl rfl hcalled ?_ ?_
    · intro launch hl
      exact .inl (.inl (hl.resolve_right (hc _)))
    · rintro (hvisible | hstore)
      · exact hvisible
      · rw [hidle] at hstore
        cases hstore
  · cases hs

theorem Heard.callerStep (h : Heard s) (htimely : Timely [] s (.caller i)) (hs : callerStep s i = some t) :
    Heard t := by
  have hnotify := onward_notify s
  cases hpc : s.callers i with
  | idle => simp [EventLoop.callerStep, hpc] at hs
  | stopStore launch =>
    simp only [EventLoop.callerStep, hpc, Option.some.injEq] at hs
    subst hs
    refine h.caller (i := i) (c := .stopNotify launch) rfl rfl (by simp) ?_ ?_
    · rintro l (hl | hl)
      · exact .inl (.inl hl)
      · cases hl
        exact .inr hpc
    · rintro (hvisible | hstore)
      · exact hvisible.imp_right fun hflag => ⟨hflag.1, rfl⟩
      · exact .inr ⟨htimely hstore, rfl⟩
  | stopNotify launch =>
    simp only [EventLoop.callerStep, hpc, Option.some.injEq] at hs
    subst hs
    have hcallers := congrArg (Function.update · i .idle) hnotify.callers
    refine h.caller hcallers hnotify.launches (by simp) ?_ ?_
    · rintro l (hl | hl)
      · obtain hl | hl := List.mem_append.mp hl
        · exact .inl (.inl hl)
        · obtain rfl := List.mem_singleton.mp hl
          exact .inl (.inr ⟨i, hpc⟩)
      · cases hl
    · rintro (hvisible | hstore)
      · exact hnotify.visible hvisible
      · rw [hpc] at hstore
        cases hstore
  | push event =>
    simp only [EventLoop.callerStep, hpc, Option.some.injEq] at hs
    subst hs
    refine h.caller (i := i) (c := .notify) rfl rfl (by simp) ?_ ?_
    · rintro l (hl | hl)
      · exact .inl (.inl hl)
      · cases hl
    · rintro (hvisible | hstore)
      · exact hvisible
      · rw [hpc] at hstore
        cases hstore
  | notify =>
    simp only [EventLoop.callerStep, hpc, Option.some.injEq] at hs
    subst hs
    have hcallers := congrArg (Function.update · i .idle) hnotify.callers
    refine h.caller hcallers hnotify.launches (by simp) ?_ ?_
    · rintro l (hl | hl)
      · rw [State.atCaller, hnotify.stops] at hl
        exact .inl (.inl hl)
      · cases hl
    · rintro (hvisible | hstore)
      · exact hnotify.visible hvisible
      · rw [hpc] at hstore
        cases hstore

theorem Heard.act {a : Action ι α} (h : Heard s) (htimely : Timely [] s a) (hs : act s a = some t) : Heard t := by
  cases a with
  | run => exact h.launch hs
  | runFor duration => exact h.launch hs
  | loop => exact h.onward (onward_loopStep hs)
  | timeout => exact h.onward (onward_timeout hs)
  | spurious =>
    cases hs
    exact h.onward (onward_notify s)
  | stop i =>
    refine h.call (fun launch hl => ?_) (by simp) hs
    cases hl
    exact le_rfl
  | dispatch i event => exact h.call (by simp) (by simp) hs
  | caller i => exact h.callerStep htimely hs
  | tick d =>
    cases hs
    exact ⟨h.called, h.stored, h.visible⟩

end Invariant

section Results

variable {ι α : Type} [DecidableEq ι] {now : ℤ} {capacity : ℕ} {h : Trace (Action ι α) Empty} {s : State ι α}

theorem stop_heard (hr : machine.Reach Timely { now := now, capacity := capacity } h s) : ¬Lost s := by
  have hheard : Heard s := by
    apply hr.invariant (I := fun _ s => Heard s)
    · refine ⟨nofun, ?_, ?_⟩
      · rintro launch (hl | ⟨i, hi⟩)
        · cases hl
        · cases hi
      · rintro (hl | ⟨i, hi⟩)
        · cases hl
        · cases hi
    · intro run s a t events hheard htimely hstep
      obtain ⟨u, hact, heq⟩ := Option.map_eq_some_iff.mp hstep
      cases heq
      exact hheard.act htimely hact
  rintro ⟨hstop, hoff, hflag⟩
  rw [((hheard.visible (.inl hstop)).flag hoff).2] at hflag
  cases hflag

omit [DecidableEq ι] in
theorem notify_of_starting (hstarting : s.loop.starting = true) : s.notify = s := by
  cases hloop : s.loop with
  | start | storeRunning | storeStopFlag => simp only [State.notify, hloop]
  | _ =>
    rw [hloop] at hstarting
    cases hstarting

def Doomed (s : State ι α) : Prop := ∃ as k t, machine.exec s as = some (k, t) ∧ Lost t

theorem doomed_of_act {a : Action ι α} {t : State ι α} (hs : act s a = some t) (ht : Doomed t) : Doomed s :=
  Machine.exists_exec_cons (congrArg (Option.map (·, [])) hs) ht

theorem act_loop (s : State ι α) : act s .loop = loopStep s := rfl

theorem doomed_of_returned (hstop : s.launches ∈ s.stops) (hstarting : s.loop.starting = true) : Doomed s := by
  have hstore (s : State ι α) (deadline : Option ℤ) (hstop : s.launches ∈ s.stops)
      (hloop : s.loop = .storeStopFlag deadline) : Doomed s := by
    apply doomed_of_act (a := .loop)
    · simp only [act_loop, loopStep, hloop]
      rfl
    · exact ⟨[], [], _, rfl, hstop, by simp [State.atLoop], rfl⟩
  have hrunning (s : State ι α) (deadline : Option ℤ) (hstop : s.launches ∈ s.stops)
      (hloop : s.loop = .storeRunning deadline) : Doomed s := by
    apply doomed_of_act (a := .loop)
    · simp only [act_loop, loopStep, hloop]
      rfl
    · exact hstore _ deadline hstop rfl
  cases hloop : s.loop with
  | start duration =>
    apply doomed_of_act (a := .loop)
    · simp only [act_loop, loopStep, hloop]
      rfl
    · exact hrunning _ _ hstop rfl
  | storeRunning deadline => exact hrunning s deadline hstop hloop
  | storeStopFlag deadline => exact hstore s deadline hstop hloop
  | _ =>
    rw [hloop] at hstarting
    cases hstarting

/-- A stop that stores its value too early is lost, as soon as it returns and the loop stores its own. -/
theorem doomed_of_untimely {i : ι} (hcaller : s.callers i = .stopStore s.launches)
    (hstarting : s.loop.starting = true) : Doomed s := by
  let stored : State ι α := { s.atCaller i (.stopNotify s.launches) with stopFlag := true }
  have hstore : act s (.caller i) = some stored := by simp only [act, callerStep, hcaller, stored]
  have hreturn : act stored (.caller i) =
      some { stored.atCaller i .idle with stops := stored.stops ++ [s.launches] } := by
    have hnotify : stored.notify = stored := notify_of_starting hstarting
    have hstored : stored.callers i = .stopNotify s.launches := Function.update_self ..
    simp only [act, callerStep, hstored, hnotify]
  apply doomed_of_act hstore
  apply doomed_of_act hreturn
  exact doomed_of_returned (List.mem_append_right _ List.mem_cons_self) hstarting

theorem stop_heard_waiting : ∃ h, ∃ s : State Unit Unit, machine.Reach Timely { now := 0, capacity := 4 } h s ∧
    s.launches ∈ s.stops ∧ s.loop = .testStopFlag ∧ ¬Lost s := by
  obtain ⟨h, s, hr, hstop, hloop⟩ := Machine.exists_reach (machine : Machine (State Unit Unit) _ _) Timely
    { now := 0, capacity := 4 } (fun _ s => s.launches ∈ s.stops ∧ s.loop = .testStopFlag)
    [.run, .loop, .loop, .loop, .loop, .loop, .loop, .loop, .stop (), .caller (), .caller ()] (by decide +kernel)
  exact ⟨h, s, hr, hstop, hloop, stop_heard hr⟩

/-- The loop thread is launched, and `stop` runs before the thread does. -/
theorem stop_lost : ∃ h, ∃ s : State Unit Unit, machine.Run { now := 0, capacity := 4 } h s ∧ Lost s :=
  Machine.exists_run machine { now := 0, capacity := 4 } (fun _ s => Lost s)
    [.run, .stop (), .caller (), .caller (), .loop, .loop, .loop] (by decide +kernel)

end Results

end Klett.Cunk.EventLoop
