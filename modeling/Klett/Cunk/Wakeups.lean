import Klett.Cunk.Scheduler

namespace Klett.Cunk.Scheduler

open Klett.Lib

section Invariant

variable {ι α : Type}

/-- From its store on, shutdown finds the scheduler stopped. -/
def Stopped (s : State ι α) : Prop := s.manager = .notifyAll ∨ s.manager = .join → s.running = false

/-- Once the notification of shutdown is out, the loop neither waits without a deadline nor is about to. -/
def Awake (s : State ι α) : Prop := s.manager = .join → ¬Deciding s ∧ s.loop ≠ .blocked

/-- Where the loop goes from where it does not wait. -/
structure Onward (s t : State ι α) : Prop where
  manager : t.manager = s.manager
  running : t.running = s.running
  awake : s.running = false → ¬Deciding s → s.loop ≠ .blocked → ¬Deciding t ∧ t.loop ≠ .blocked

theorem Stopped.onward {s t : State ι α} (h : Stopped s) (hstep : Onward s t) : Stopped t := by
  intro hm
  rw [hstep.manager] at hm
  rw [hstep.running]
  exact h hm

theorem Awake.onward {s t : State ι α} (h : Awake s) (hstopped : Stopped s) (hstep : Onward s t) : Awake t := by
  intro hm
  rw [hstep.manager] at hm
  obtain ⟨hdeciding, hblocked⟩ := h hm
  exact hstep.awake (hstopped (.inr hm)) hdeciding hblocked

theorem not_deciding {s : State ι α} (hqueue : s.loop ≠ .testQueue) (hblock : s.loop ≠ .block) : ¬Deciding s := by
  rintro (⟨h, -⟩ | h)
  · exact hqueue h
  · exact hblock h

variable {s t : State ι α}

/-- Away from the end of the wait without a deadline. -/
def Loop.awake : Loop α → Bool
  | .testQueue | .block | .blocked => false
  | _ => true

theorem onward_awake (hmanager : t.manager = s.manager) (hrunning : t.running = s.running)
    (ht : t.loop.awake = true) : Onward s t where
  manager := hmanager
  running := hrunning
  awake _ _ _ := by
    constructor
    · apply not_deciding <;>
        · intro hloop
          rw [hloop] at ht
          cases ht
    · intro hloop
      rw [hloop] at ht
      cases ht

theorem onward_due {pick : ℕ} (hs : due s pick = some t) : Onward s t := by
  cases looks_of_due hs
  all_goals
    subst t
    exact onward_awake rfl rfl rfl

theorem onward_schedulerLoop {pick : ℕ} {events : List (Event ι α)}
    (hs : schedulerLoop s pick = some (t, events)) : Onward s t := by
  cases hpc : s.loop with
  | off | blocked => simp [schedulerLoop, hpc] at hs
  | testRunning =>
    simp only [schedulerLoop, hpc, Option.some.injEq, Prod.mk.injEq] at hs
    obtain ⟨rfl, -⟩ := hs
    split_ifs with hrunning
    · exact ⟨rfl, rfl, fun hstopped => by rw [hrunning] at hstopped; cases hstopped⟩
    · exact onward_awake rfl rfl rfl
  | testQueue =>
    simp only [schedulerLoop, hpc, Option.some.injEq, Prod.mk.injEq] at hs
    obtain ⟨rfl, -⟩ := hs
    split_ifs with hempty
    · exact ⟨rfl, rfl, fun _ hnot => absurd (.inl ⟨hpc, List.isEmpty_iff.mp hempty⟩) hnot⟩
    · exact onward_awake rfl rfl rfl
  | block =>
    simp only [schedulerLoop, hpc, Option.some.injEq, Prod.mk.injEq] at hs
    obtain ⟨rfl, -⟩ := hs
    exact ⟨rfl, rfl, fun _ hnot => absurd (.inr hpc) hnot⟩
  | due =>
    simp only [schedulerLoop, hpc] at hs
    obtain ⟨u, hdue, heq⟩ := Option.map_eq_some_iff.mp hs
    cases heq
    exact onward_due hdue
  | check | empty | timedTest =>
    simp only [schedulerLoop, hpc, Option.some.injEq, Prod.mk.injEq] at hs
    obtain ⟨rfl, -⟩ := hs
    split_ifs <;> exact onward_awake rfl rfl rfl
  | lock | relock | timedBlocked | timedRelock =>
    simp only [schedulerLoop, hpc] at hs
    split_ifs at hs
    all_goals
      cases hs
      exact onward_awake rfl rfl rfl
  | timedBlock | unlock | unlockRun | run | running =>
    simp only [schedulerLoop, hpc, Option.some.injEq, Prod.mk.injEq] at hs
    obtain ⟨rfl, -⟩ := hs
    exact onward_awake rfl rfl rfl

/-- A step of another thread leaves the loop where it is, and takes nothing from the queue. -/
theorem onward_other (hmanager : t.manager = s.manager) (hrunning : t.running = s.running) (hloop : t.loop = s.loop)
    (hqueue : t.queue = [] → s.queue = []) : Onward s t where
  manager := hmanager
  running := hrunning
  awake _ hnot hblocked := by
    rw [Deciding, hloop]
    exact ⟨fun hdeciding => hnot (hdeciding.imp (And.imp id hqueue) id), hblocked⟩

theorem onward_notify : Onward s s.notify := by
  unfold State.notify
  split
  · exact onward_awake rfl rfl rfl
  · exact onward_awake rfl rfl rfl
  · exact onward_other rfl rfl rfl id

/-- A notification reaches the loop if it waits, and is of no use if it is about to. -/
theorem notify_awake (hnot : ¬Deciding s) : ¬Deciding s.notify ∧ s.notify.loop ≠ .blocked := by
  unfold State.notify
  split
  · exact ⟨not_deciding nofun nofun, nofun⟩
  · exact ⟨not_deciding nofun nofun, nofun⟩
  next hblocked _ => exact ⟨hnot, hblocked⟩

theorem notify_running : s.notify.running = s.running := by
  unfold State.notify
  split <;> rfl

theorem Onward.trans {u : State ι α} (h : Onward s t) (k : Onward t u) : Onward s u where
  manager := k.manager.trans h.manager
  running := k.running.trans h.running
  awake hstopped hnot hblocked := by
    obtain ⟨hnot', hblocked'⟩ := h.awake hstopped hnot hblocked
    exact k.awake (h.running.trans hstopped) hnot' hblocked'

end Invariant

section Runs

variable {ι α : Type} [DecidableEq ι] {s t : State ι α} {i : ι} {a : Action ι α} {events : List (Event ι α)}

theorem onward_clientStep (hs : clientStep s i = some (t, events)) : Onward s t := by
  cases hpc : s.clients i with
  | idle => simp [clientStep, hpc] at hs
  | ticket r =>
    simp only [clientStep, hpc, Option.some.injEq, Prod.mk.injEq] at hs
    obtain ⟨rfl, -⟩ := hs
    exact onward_other rfl rfl rfl id
  | lock | cancelLock =>
    simp only [clientStep, hpc] at hs
    split_ifs at hs
    cases hs
    exact onward_other rfl rfl rfl id
  | push id r =>
    simp only [clientStep, hpc, Option.some.injEq, Prod.mk.injEq] at hs
    obtain ⟨rfl, -⟩ := hs
    refine onward_other rfl rfl rfl fun hnil => ?_
    simp [State.atClient, State.withQueue] at hnil
  | unlock | cancelUnlock =>
    simp only [clientStep, hpc, Option.some.injEq, Prod.mk.injEq] at hs
    obtain ⟨rfl, -⟩ := hs
    exact onward_other rfl rfl rfl id
  | notify =>
    simp only [clientStep, hpc, Option.some.injEq, Prod.mk.injEq] at hs
    obtain ⟨rfl, -⟩ := hs
    exact onward_notify.trans (onward_other rfl rfl rfl id)

/-- Either shutdown is not past its store, or the step is the store or the notification. -/
inductive Managing (s t : State ι α) : Prop
  | away (hnotify : t.manager ≠ .notifyAll) (hjoin : t.manager ≠ .join)
  | store (hstore : t = (s.withRunning false).atManager .notifyAll)
  | notify (hmanager : s.manager = .notifyAll) (hnotify : t = s.notify.atManager .join)

omit [DecidableEq ι] in
theorem managing (hs : manage s = some t) : Managing s t := by
  cases hpc : s.manager with
  | idle => simp [manage, hpc] at hs
  | startLoad =>
    simp only [manage, hpc, Option.some.injEq] at hs
    subst hs
    split_ifs <;> exact .away nofun nofun
  | startStore =>
    simp only [manage, hpc, Option.some.injEq] at hs
    subst hs
    exact .away nofun nofun
  | shutdownStore =>
    simp only [manage, hpc, Option.some.injEq] at hs
    exact .store hs.symm
  | notifyAll =>
    simp only [manage, hpc, Option.some.injEq] at hs
    exact .notify hpc hs.symm
  | spawn | join =>
    simp only [manage, hpc] at hs
    split at hs
    · cases hs
      exact .away nofun nofun
    · cases hs

theorem act_cases (hs : act s a = some (t, events)) :
    Onward s t ∨ Managing s t ∧ (s.manager = .notifyAll → a = .manager) := by
  cases a with
  | schedule i r | cancel i id =>
    cases hpc : s.clients i <;> simp only [act, hpc, reduceCtorEq, Option.some.injEq] at hs
    cases hs
    exact .inl (onward_other rfl rfl rfl fun hnil => hnil)
  | client i => exact .inl (onward_clientStep hs)
  | loop pick => exact .inl (onward_schedulerLoop hs)
  | spurious =>
    simp only [act] at hs
    split at hs
    · cases hs
      exact .inl (onward_awake rfl rfl rfl)
    · cases hs
      exact .inl (onward_awake rfl rfl rfl)
    · cases hs
  | start | shutdown =>
    simp only [act] at hs
    split_ifs at hs with hidle
    cases hs
    exact .inr ⟨.away nofun nofun, fun hnotify => by rw [hidle] at hnotify; cases hnotify⟩
  | manager =>
    obtain ⟨u, hmanage, heq⟩ := Option.map_eq_some_iff.mp hs
    cases heq
    exact .inr ⟨managing hmanage, fun _ => rfl⟩
  | tick d =>
    cases hs
    exact .inl (onward_other rfl rfl rfl fun hnil => hnil)

theorem Stopped.act (h : Stopped s) (hs : act s a = some (t, events)) : Stopped t := by
  obtain honward | ⟨hmanaging, -⟩ := act_cases hs
  · exact h.onward honward
  · cases hmanaging with
    | away hnotify hjoin => exact fun hm => (hm.elim hnotify hjoin).elim
    | store hstore =>
      subst hstore
      exact fun _ => rfl
    | notify hmanager hnotify =>
      subst hnotify
      exact fun _ => notify_running.trans (h (.inl hmanager))

theorem Awake.act (h : Awake s) (hstopped : Stopped s) (htimely : Timely [] s a) (hs : act s a = some (t, events)) :
    Awake t := by
  obtain honward | ⟨hmanaging, ha⟩ := act_cases hs
  · exact h.onward hstopped honward
  · cases hmanaging with
    | away hnotify hjoin => exact fun hm => (hjoin hm).elim
    | store hstore =>
      subst hstore
      nofun
    | notify hmanager hnotify =>
      subst hnotify
      obtain rfl := ha hmanager
      exact fun _ => notify_awake (htimely hmanager)

end Runs

section Results

variable {ι α : Type} [DecidableEq ι] {now : ℤ} {h : Trace (Action ι α) (Event ι α)} {s : State ι α}

omit [DecidableEq ι] in
theorem stopped_initial : Stopped ({ now := now } : State ι α) := by
  rintro (hm | hm) <;> cases hm

theorem stopped_of_run (hr : machine.Run { now := now } h s) : Stopped s := by
  apply hr.invariant (I := fun _ s => Stopped s)
  · exact stopped_initial
  · intro run s a t events hstopped _ hstep
    exact hstopped.act hstep

theorem shutdown_wakes (hr : machine.Reach Timely { now := now } h s) : ¬Lost s := by
  have hawake : Stopped s ∧ Awake s := by
    apply hr.invariant (I := fun _ s => Stopped s ∧ Awake s)
    · exact ⟨stopped_initial, nofun⟩
    · intro run s a t events hsound htimely hstep
      exact ⟨hsound.1.act hstep, hsound.2.act hsound.1 htimely hstep⟩
  rintro ⟨-, hmanager, hblocked⟩
  exact (hawake.2 hmanager).2 hblocked

theorem act_notifyAll (hmanager : s.manager = .notifyAll) (hdeciding : Deciding s) :
    act s .manager = some (s.atManager .join, []) := by
  have hnotify : s.notify = s := by
    obtain ⟨hloop, -⟩ | hloop := hdeciding <;> simp [State.notify, hloop]
  simp [act, manage, hmanager, hnotify]

theorem act_block (hloop : s.loop = .block) : act s (.loop 0) = some ((s.withMutex none).atLoop .blocked, []) := by
  simp [act, schedulerLoop, hloop]

theorem act_testQueue (hloop : s.loop = .testQueue) (hqueue : s.queue = []) :
    act s (.loop 0) = some (s.atLoop .block, []) := by
  simp [act, schedulerLoop, hloop, hqueue]

/-- A notification that comes while the loop is about to block is lost as soon as the loop goes on. -/
theorem lost_of_untimely (hr : machine.Run { now := now } h s) (hmanager : s.manager = .notifyAll)
    (hdeciding : Deciding s) : ∃ as k t, machine.exec s as = some (k, t) ∧ Lost t := by
  have hstopped := stopped_of_run hr (.inl hmanager)
  have hnotify := act_notifyAll hmanager hdeciding
  obtain ⟨hloop, hqueue⟩ | hloop := hdeciding
  · have htest := act_testQueue (s := s.atManager .join) hloop hqueue
    have hblock := act_block (s := (s.atManager .join).atLoop .block) rfl
    refine ⟨[.manager, .loop 0, .loop 0], [(.manager, []), (.loop 0, []), (.loop 0, [])],
      (((s.atManager .join).atLoop .block).withMutex none).atLoop .blocked, ?_, hstopped, rfl, rfl⟩
    simp only [Machine.exec, machine, hnotify, htest, hblock, Option.map_some]
  · have hblock := act_block (s := s.atManager .join) hloop
    refine ⟨[.manager, .loop 0], [(.manager, []), (.loop 0, [])],
      ((s.atManager .join).withMutex none).atLoop .blocked, ?_, hstopped, rfl, rfl⟩
    simp only [Machine.exec, machine, hnotify, hblock, Option.map_some]

/-- Up to the first test of the wait without a deadline, with no other thread around. -/
def untilWait : List (Action Empty Unit) :=
  [.start, .manager, .manager, .manager, .loop 0, .loop 0, .loop 0, .loop 0]

theorem shutdown_wakes_blocked : ∃ h, ∃ s : State Empty Unit, machine.Reach Timely { now := 0 } h s ∧
    s.manager = .join ∧ s.loop = .relock ∧ ¬Lost s := by
  obtain ⟨h, s, hr, hmanager, hloop⟩ := Machine.exists_reach (machine : Machine (State Empty Unit) _ _) Timely
    { now := 0 } (fun _ s => s.manager = .join ∧ s.loop = .relock)
    (untilWait ++ [.loop 0, .loop 0, .shutdown, .manager, .manager]) (by decide +kernel)
  exact ⟨h, s, hr, hmanager, hloop, shutdown_wakes hr⟩

/-- The store and the notification fall between the loop's test and its block. -/
theorem shutdown_loses_wakeup : ∃ h, ∃ s : State Empty Unit, machine.Run { now := 0 } h s ∧ Lost s := by
  obtain ⟨h, s, hr, hlost⟩ := Machine.exists_run (machine : Machine (State Empty Unit) _ _) { now := 0 }
    (fun _ s => s.running = false ∧ s.manager = .join ∧ s.loop = .blocked)
    (untilWait ++ [.shutdown, .manager, .manager, .loop 0, .loop 0]) (by decide +kernel)
  exact ⟨h, s, hr, hlost⟩

end Results

end Klett.Cunk.Scheduler
