import Klett.Cunk.SchedulerLocks

namespace Klett.Cunk.Scheduler

open Klett.Lib

section Model

variable {ι α : Type}

/-- The scheduler with the storage of the vector under its queue. `moved` tells that the storage is not the one any
more that the loop's reference to the top points into. -/
structure Stored (ι α : Type) where
  scheduler : State ι α
  capacity : ℕ := 0
  moved : Bool := false

def leastDeadline (queue : List (ScheduledTask α)) : Option ℤ := (queue.map ScheduledTask.deadline).min?

/-- `wait_until` takes its time as a reference, here to the deadline in the front of the vector, and reads it each
time it blocks: `while (!pred()) if (wait_until(lock, abs_time) == timeout) return pred();`. A push that makes room
frees what the reference points to; `freed` is what is read there from then on. -/
def reread (s : Stored ι α) (a : Action ι α) (freed : ℤ) (t : State ι α) : State ι α :=
  match a, s.scheduler.loop with
  | .loop _, .timedRelock deadline false =>
    t.atLoop (.timedTest (if s.moved then freed else (leastDeadline t.queue).getD deadline))
  | _, _ => t

def looksAtTop (s : State ι α) (a : Action ι α) : Bool :=
  match a, s.loop with
  | .loop _, .due => true
  | _, _ => false

/-- `grow` is what the vector makes of its capacity when it is full. -/
def Stored.next (grow : ℕ → ℕ) (s : Stored ι α) (a : Action ι α) (freed : ℤ) (t : State ι α) : Stored ι α where
  scheduler := reread s a freed t
  capacity := if t.queue.length ≤ s.capacity then s.capacity else max t.queue.length (grow s.capacity)
  moved := !looksAtTop s.scheduler a && (s.moved || decide (s.capacity < t.queue.length))

variable [DecidableEq ι]

def storedAct (grow : ℕ → ℕ) (s : Stored ι α) (a : Action ι α) (freed : ℤ) :
    Option (Stored ι α × List (Event ι α)) :=
  (act s.scheduler a).map fun (t, events) => (s.next grow a freed t, events)

def storedMachine (grow : ℕ → ℕ) : Machine (Stored ι α) (Action ι α × ℤ) (Event ι α) where
  step s x := storedAct grow s x.1 x.2

end Model

section Specification

variable {ι α : Type}

def Client.waking : Client α → Bool
  | .unlock _ | .notify _ => true
  | _ => false

def WakePending (s : State ι α) : Prop := ∃ i, (s.clients i).waking = true

/-- Asleep until a time later than the earliest deadline, or for good. -/
def Late (s : State ι α) : Prop :=
  match s.loop with
  | .blocked => s.queue ≠ []
  | .timedBlocked deadline => ∃ task ∈ s.queue, task.deadline < deadline
  | _ => False

def Oversleeps (s : Stored ι α) : Prop := Late s.scheduler ∧ ¬WakePending s.scheduler

def Client.pushing : Client α → Bool
  | .push _ _ => true
  | _ => false

def Loop.sleeping : Loop α → Bool
  | .timedBlocked _ | .timedRelock _ _ => true
  | _ => false

/-- While the loop is in `wait_until`, a push finds room in the vector. -/
def Roomy (_ : Trace (Action ι α × ℤ) (Event ι α)) (s : Stored ι α) (x : Action ι α × ℤ) : Prop :=
  match x.1 with
  | .client i => (s.scheduler.clients i).pushing = true → s.scheduler.loop.sleeping = true →
      s.scheduler.queue.length < s.capacity
  | _ => True

end Specification

section Steps

variable {ι α : Type} {s t : State ι α} {pick : ℕ} {events : List (Event ι α)}

/-- What the loop has to know of the queue where it is about to sleep or sleeps. -/
def Fits (l : Loop α) (queue : List (ScheduledTask α)) : Prop :=
  match l with
  | .block | .blocked => queue = []
  | .timedTest deadline | .timedBlock deadline | .timedBlocked deadline => ∀ task ∈ queue, deadline ≤ task.deadline
  | _ => True

def Loop.asleep : Loop α → Bool
  | .blocked | .timedBlocked _ => true
  | _ => false

def Loop.timed : Loop α → Bool
  | .timedTest _ | .timedBlock _ | .timedBlocked _ | .timedRelock _ _ => true
  | _ => false

theorem fits_due (hs : due s pick = some t) : Fits t.loop t.queue := by
  cases looks_of_due hs with
  | dropped | again | once =>
    subst t
    exact trivial
  | early task hpick htop hdue ht =>
    subst ht
    exact htop

theorem fits_schedulerLoop (h : s.loop.asleep = false → Fits s.loop s.queue)
    (hs : schedulerLoop s pick = some (t, events)) (hrelock : ∀ deadline, s.loop ≠ .timedRelock deadline false) :
    Fits t.loop t.queue := by
  cases hpc : s.loop with
  | off | blocked => simp [schedulerLoop, hpc] at hs
  | due =>
    simp only [schedulerLoop, hpc] at hs
    obtain ⟨u, hdue, heq⟩ := Option.map_eq_some_iff.mp hs
    cases heq
    exact fits_due hdue
  | testQueue =>
    simp only [schedulerLoop, hpc, Option.some.injEq, Prod.mk.injEq] at hs
    obtain ⟨rfl, -⟩ := hs
    split_ifs with hempty
    · exact List.isEmpty_iff.mp hempty
    · exact trivial
  | block | timedBlock =>
    simp only [schedulerLoop, hpc, Option.some.injEq, Prod.mk.injEq] at hs
    obtain ⟨rfl, -⟩ := hs
    rw [hpc] at h
    exact h rfl
  | timedTest =>
    simp only [schedulerLoop, hpc, Option.some.injEq, Prod.mk.injEq] at hs
    obtain ⟨rfl, -⟩ := hs
    rw [hpc] at h
    split_ifs
    · exact h rfl
    · exact trivial
  | timedRelock deadline timedOut =>
    simp only [schedulerLoop, hpc] at hs
    split_ifs at hs with hfree hout
    · cases hs
      exact trivial
    · rw [Bool.not_eq_true] at hout
      subst hout
      exact absurd hpc (hrelock deadline)
  | check | empty | testRunning =>
    simp only [schedulerLoop, hpc, Option.some.injEq, Prod.mk.injEq] at hs
    obtain ⟨rfl, -⟩ := hs
    split_ifs <;> exact trivial
  | lock | relock | timedBlocked =>
    simp only [schedulerLoop, hpc] at hs
    split_ifs at hs
    cases hs
    exact trivial
  | unlock | unlockRun | run | running =>
    simp only [schedulerLoop, hpc, Option.some.injEq, Prod.mk.injEq] at hs
    obtain ⟨rfl, -⟩ := hs
    exact trivial

theorem timed_schedulerLoop (hs : schedulerLoop s pick = some (t, events)) (ht : t.loop.timed = true) :
    s.loop.timed = true ∨ s.loop = .due := by
  cases hpc : s.loop with
  | off | blocked => simp [schedulerLoop, hpc] at hs
  | due => exact .inr rfl
  | timedTest | timedBlock | timedBlocked | timedRelock => exact .inl rfl
  | lock | relock =>
    simp only [schedulerLoop, hpc] at hs
    split_ifs at hs
    cases hs
    cases ht
  | check | empty | testRunning | testQueue =>
    simp only [schedulerLoop, hpc, Option.some.injEq, Prod.mk.injEq] at hs
    obtain ⟨rfl, -⟩ := hs
    split_ifs at ht <;> cases ht
  | block | unlock | unlockRun | run | running =>
    simp only [schedulerLoop, hpc, Option.some.injEq, Prod.mk.injEq] at hs
    obtain ⟨rfl, -⟩ := hs
    cases ht

theorem queue_schedulerLoop (hs : schedulerLoop s pick = some (t, events)) : t.queue.length ≤ s.queue.length := by
  cases hpc : s.loop with
  | due =>
    simp only [schedulerLoop, hpc] at hs
    obtain ⟨u, hdue, heq⟩ := Option.map_eq_some_iff.mp hs
    cases heq
    cases looks_of_due hdue with
    | dropped task hpick | once task hpick =>
      subst t
      have hlt := (List.getElem?_eq_some_iff.mp hpick).1
      simp [State.withQueue, State.atLoop, List.length_eraseIdx, hlt]
    | again task hpick =>
      subst t
      have hlt := (List.getElem?_eq_some_iff.mp hpick).1
      simp [State.withQueue, State.atLoop, List.length_eraseIdx, hlt]
      omega
    | early task hpick htop hlate ht =>
      subst ht
      exact le_rfl
  | off | blocked => simp [schedulerLoop, hpc] at hs
  | lock | relock | timedBlocked | timedRelock =>
    simp only [schedulerLoop, hpc] at hs
    split_ifs at hs
    all_goals
      cases hs
      exact le_rfl
  | _ =>
    simp only [schedulerLoop, hpc, Option.some.injEq, Prod.mk.injEq] at hs
    obtain ⟨rfl, -⟩ := hs
    exact le_rfl

inductive Doing (s t : State ι α) (a : Action ι α) : Prop
  | roused (hqueue : t.queue = s.queue) (hloop : s.loop.asleep = false ∧ t.loop = s.loop ∨ ∀ queue, Fits t.loop queue)
      (htimed : t.loop.timed = true → s.loop.timed = true)
  | quiet (hqueue : t.queue = s.queue) (hloop : t.loop = s.loop) (hwake : WakePending s → WakePending t)
  | pushed (i : ι) (ha : a = .client i) (hpushing : (s.clients i).pushing = true) (hloop : t.loop = s.loop)
      (hlength : t.queue.length = s.queue.length + 1) (hwake : WakePending t)

theorem roused_notify {a : Action ι α} (hqueue : t.queue = s.queue) (hloop : t.loop = s.notify.loop) :
    Doing s t a := by
  unfold State.notify at hloop
  split at hloop
  next hpc => exact .roused hqueue (.inr fun _ => by rw [hloop]; trivial) (by rw [hloop]; intro htimed; cases htimed)
  next hpc => exact .roused hqueue (.inr fun _ => by rw [hloop]; trivial) (by rw [hpc]; exact fun _ => rfl)
  next hblocked htimed =>
    refine .roused hqueue (.inl ⟨?_, hloop⟩) (by rw [hloop]; exact id)
    cases hpc : s.loop with
    | blocked => exact absurd hpc hblocked
    | timedBlocked deadline => exact absurd hpc (htimed deadline)
    | _ => rfl

theorem notify_queue : s.notify.queue = s.queue := by
  unfold State.notify
  split <;> rfl

theorem doing_manage {a : Action ι α} (hs : manage s = some t) : Doing s t a := by
  cases hpc : s.manager with
  | idle => simp [manage, hpc] at hs
  | startLoad | startStore | shutdownStore =>
    simp only [manage, hpc, Option.some.injEq] at hs
    subst hs
    exact .quiet rfl rfl id
  | notifyAll =>
    simp only [manage, hpc, Option.some.injEq] at hs
    subst hs
    exact roused_notify notify_queue rfl
  | spawn =>
    simp only [manage, hpc] at hs
    split at hs
    · cases hs
      exact .roused rfl (.inr fun _ => trivial) (by intro htimed; cases htimed)
    · cases hs
  | join =>
    simp only [manage, hpc] at hs
    split at hs
    · cases hs
      exact .quiet rfl rfl id
    · cases hs

variable [DecidableEq ι] {i : ι} {c : Client α}

theorem wakePending_atClient (hc : (s.clients i).waking = true → c.waking = true) (h : WakePending s) :
    ∃ j, (Function.update s.clients i c j).waking = true := by
  obtain ⟨j, hj⟩ := h
  obtain rfl | hne := eq_or_ne j i
  · exact ⟨j, by rw [Function.update_self]; exact hc hj⟩
  · exact ⟨j, by rw [Function.update_of_ne hne]; exact hj⟩

theorem doing_clientStep (hs : clientStep s i = some (t, events)) : Doing s t (.client i) := by
  cases hpc : s.clients i with
  | idle => simp [clientStep, hpc] at hs
  | push id r =>
    simp only [clientStep, hpc, Option.some.injEq, Prod.mk.injEq] at hs
    obtain ⟨rfl, -⟩ := hs
    refine .pushed i rfl (by rw [hpc]; rfl) rfl List.length_append ⟨i, ?_⟩
    simp only [State.atClient, Function.update_self]
    rfl
  | notify id =>
    simp only [clientStep, hpc, Option.some.injEq, Prod.mk.injEq] at hs
    obtain ⟨rfl, -⟩ := hs
    exact roused_notify notify_queue rfl
  | lock | cancelLock =>
    simp only [clientStep, hpc] at hs
    split_ifs at hs
    cases hs
    exact .quiet rfl rfl (wakePending_atClient (by simp [hpc, Client.waking]))
  | ticket | cancelUnlock =>
    simp only [clientStep, hpc, Option.some.injEq, Prod.mk.injEq] at hs
    obtain ⟨rfl, -⟩ := hs
    exact .quiet rfl rfl (wakePending_atClient (by simp [hpc, Client.waking]))
  | unlock id =>
    simp only [clientStep, hpc, Option.some.injEq, Prod.mk.injEq] at hs
    obtain ⟨rfl, -⟩ := hs
    exact .quiet rfl rfl (wakePending_atClient fun _ => rfl)

theorem doing_act {a : Action ι α} (hs : act s a = some (t, events)) :
    (∃ pick, a = .loop pick ∧ schedulerLoop s pick = some (t, events)) ∨
      (∀ pick, a ≠ .loop pick) ∧ Doing s t a := by
  cases a with
  | loop pick => exact .inl ⟨pick, rfl, hs⟩
  | schedule i r | cancel i id =>
    cases hpc : s.clients i <;> simp only [act, hpc, reduceCtorEq, Option.some.injEq] at hs
    cases hs
    exact .inr ⟨by simp, .quiet rfl rfl (wakePending_atClient (by simp [hpc, Client.waking]))⟩
  | client i => exact .inr ⟨by simp, doing_clientStep hs⟩
  | spurious =>
    have hnotify : t = s.notify := by
      simp only [act] at hs
      split at hs
      next hpc =>
        cases hs
        simp only [State.notify, hpc]
      next hpc =>
        cases hs
        simp only [State.notify, hpc]
      · cases hs
    subst hnotify
    exact .inr ⟨by simp, roused_notify notify_queue rfl⟩
  | start | shutdown =>
    simp only [act] at hs
    split_ifs at hs
    cases hs
    exact .inr ⟨by simp, .quiet rfl rfl id⟩
  | manager =>
    obtain ⟨u, hmanage, heq⟩ := Option.map_eq_some_iff.mp hs
    cases heq
    exact .inr ⟨by simp, doing_manage hmanage⟩
  | tick d =>
    cases hs
    exact .inr ⟨by simp, .quiet rfl rfl id⟩

end Steps

section Invariant

variable {ι α : Type}

/-- `moved` says nothing where the loop has no reference. -/
structure Punctual (s : Stored ι α) : Prop where
  exclusive : Exclusive s.scheduler
  room : s.scheduler.queue.length ≤ s.capacity
  valid : s.scheduler.loop.timed = true → s.moved = false
  fits : Fits s.scheduler.loop s.scheduler.queue ∨ s.scheduler.loop.asleep = true ∧ WakePending s.scheduler

theorem leastDeadline_le {queue : List (ScheduledTask α)} {task : ScheduledTask α} (htask : task ∈ queue) (d : ℤ) :
    (leastDeadline queue).getD d ≤ task.deadline := by
  have hmem := List.mem_map_of_mem (f := ScheduledTask.deadline) htask
  cases hmin : leastDeadline queue with
  | none =>
    rw [leastDeadline, List.min?_eq_none_iff] at hmin
    rw [hmin] at hmem
    cases hmem
  | some least => exact (List.min?_eq_some_iff.mp hmin).2 _ hmem

theorem fits_unlocked {l : Loop α} (hlocked : l.locked = false) (hasleep : l.asleep = false)
    (queue : List (ScheduledTask α)) : Fits l queue := by
  cases l with
  | block | timedTest | timedBlock => cases hlocked
  | blocked | timedBlocked => cases hasleep
  | _ => exact trivial

variable {s : Stored ι α} {t : State ι α} {a : Action ι α} {freed : ℤ} {grow : ℕ → ℕ}

theorem reread_queue : (reread s a freed t).queue = t.queue := by
  unfold reread
  split <;> rfl

theorem reread_other (h : ∀ pick deadline, a = .loop pick → s.scheduler.loop ≠ .timedRelock deadline false) :
    reread s a freed t = t := by
  unfold reread
  split
  next hpc => exact absurd hpc (h _ _ rfl)
  · rfl

theorem room_next : (s.next grow a freed t).scheduler.queue.length ≤ (s.next grow a freed t).capacity := by
  rw [Stored.next, reread_queue]
  dsimp only
  split_ifs with hfits
  · exact hfits
  · exact le_max_left _ _

theorem moved_next (hmoved : s.moved = false) (hroom : t.queue.length ≤ s.capacity) :
    (s.next grow a freed t).moved = false := by
  simp only [Stored.next, hmoved, Bool.false_or, Bool.and_eq_false_iff, decide_eq_false_iff_not, not_lt]
  exact .inr hroom

theorem Punctual.loop (h : Punctual s) {pick : ℕ} {events : List (Event ι α)}
    (hs : schedulerLoop s.scheduler pick = some (t, events)) : Punctual (s.next grow (.loop pick) freed t) := by
  have hexclusive := h.exclusive.schedulerLoop hs
  have hlength := (queue_schedulerLoop hs).trans h.room
  by_cases hrelock : ∃ deadline, s.scheduler.loop = .timedRelock deadline false
  · -- the wait's test comes next, and the deadline is read again
    obtain ⟨deadline, hpc⟩ := hrelock
    have hmoved : s.moved = false := h.valid (by rw [hpc]; rfl)
    have hnext : (s.next grow (.loop pick) freed t).scheduler =
        t.atLoop (.timedTest ((leastDeadline t.queue).getD deadline)) := by
      simp only [Stored.next, reread, hpc, hmoved, Bool.false_eq_true, if_false]
    have hloop : t.loop.locked = true := by
      simp only [schedulerLoop, hpc, Bool.false_eq_true, if_false] at hs
      split_ifs at hs
      cases hs
      rfl
    refine ⟨?_, room_next, fun _ => moved_next hmoved hlength, .inl ?_⟩
    · rw [hnext]
      exact hexclusive.loop_quiet rfl rfl fun _ => hloop
    · rw [hnext]
      exact fun task htask => leastDeadline_le htask _
  · have hother : ∀ deadline, s.scheduler.loop ≠ .timedRelock deadline false := fun d hpc => hrelock ⟨d, hpc⟩
    have hnext : (s.next grow (.loop pick) freed t).scheduler = t := reread_other fun _ d _ => hother d
    refine ⟨by rwa [hnext], room_next, fun htimed => ?_, .inl ?_⟩
    · rw [hnext] at htimed
      obtain hwas | hdue := timed_schedulerLoop hs htimed
      · exact moved_next (h.valid hwas) hlength
      · simp only [Stored.next, looksAtTop, hdue, Bool.not_true, Bool.false_and]
    · rw [hnext]
      refine fits_schedulerLoop (fun hawake => ?_) hs hother
      refine h.fits.resolve_right fun hasleep => ?_
      rw [hawake] at hasleep
      cases hasleep.1

theorem Punctual.other (h : Punctual s) (ha : ∀ pick, a ≠ .loop pick) (hexclusive : Exclusive t)
    (hroomy : Roomy [] s (a, freed)) (hdoing : Doing s.scheduler t a) : Punctual (s.next grow a freed t) := by
  have hnext : (s.next grow a freed t).scheduler = t := reread_other fun pick _ hloop => absurd hloop (ha pick)
  cases hdoing with
  | roused hqueue hloop htimed =>
    refine ⟨by rwa [hnext], room_next, fun ht => ?_, .inl ?_⟩
    · rw [hnext] at ht
      exact moved_next (h.valid (htimed ht)) (hqueue ▸ h.room)
    · rw [hnext]
      obtain ⟨hawake, hloop⟩ | hfits := hloop
      · rw [hqueue, hloop]
        refine h.fits.resolve_right fun hasleep => ?_
        rw [hawake] at hasleep
        cases hasleep.1
      · exact hfits _
  | quiet hqueue hloop hwake =>
    refine ⟨by rwa [hnext], room_next, fun ht => ?_, ?_⟩
    · rw [hnext, hloop] at ht
      exact moved_next (h.valid ht) (hqueue ▸ h.room)
    · rw [hnext, hqueue, hloop]
      exact h.fits.imp_right (And.imp_right hwake)
  | pushed i hclient hpushing hloop hlength hwake =>
    subst hclient
    have howner : s.scheduler.mutex = some (.client i) := by
      apply h.exclusive.client
      cases hpc : s.scheduler.clients i with
      | push => rfl
      | _ =>
        rw [hpc] at hpushing
        cases hpushing
    have hunlocked : s.scheduler.loop.locked = false := by
      rw [← Bool.not_eq_true]
      intro hlocked
      have hheld := h.exclusive.loop hlocked
      rw [howner] at hheld
      cases hheld
    refine ⟨by rwa [hnext], room_next, fun ht => ?_, ?_⟩
    · rw [hnext, hloop] at ht
      have hsleeping : s.scheduler.loop.sleeping = true := by
        cases hpc : s.scheduler.loop with
        | timedBlocked | timedRelock => rfl
        | timedTest | timedBlock =>
          rw [hpc] at hunlocked
          cases hunlocked
        | _ =>
          rw [hpc] at ht
          cases ht
      have hfits := hroomy hpushing hsleeping
      exact moved_next (h.valid ht) (by omega)
    · rw [hnext, hloop]
      cases hasleep : s.scheduler.loop.asleep with
      | true => exact .inr ⟨rfl, hwake⟩
      | false => exact .inl (fits_unlocked hunlocked hasleep _)

end Invariant

section Results

variable {ι α : Type}

theorem Punctual.not_oversleeps {s : Stored ι α} (h : Punctual s) : ¬Oversleeps s := by
  rintro ⟨hlate, hnone⟩
  have hfits := h.fits.resolve_right fun hasleep => hnone hasleep.2
  unfold Late at hlate
  split at hlate
  next hpc =>
    rw [hpc] at hfits
    exact hlate hfits
  next hpc =>
    rw [hpc] at hfits
    obtain ⟨task, htask, hearlier⟩ := hlate
    exact (hfits task htask).not_gt hearlier
  · exact hlate

variable [DecidableEq ι] {grow : ℕ → ℕ} {now : ℤ} {h : Trace (Action ι α × ℤ) (Event ι α)} {s t : Stored ι α}

theorem Punctual.act {a : Action ι α} {freed : ℤ} {events : List (Event ι α)} (h : Punctual s)
    (hroomy : Roomy [] s (a, freed)) (hs : storedAct grow s a freed = some (t, events)) : Punctual t := by
  obtain ⟨⟨u, es⟩, hact, heq⟩ := Option.map_eq_some_iff.mp hs
  cases heq
  obtain ⟨pick, rfl, hloop⟩ | ⟨hother, hdoing⟩ := doing_act hact
  · exact h.loop hloop
  · exact h.other hother (h.exclusive.act hact) hroomy hdoing

theorem wakes_in_time (hr : (storedMachine grow).Reach Roomy { scheduler := { now := now } } h s) :
    ¬Oversleeps s := by
  have hpunctual : Punctual s := by
    apply hr.invariant (I := fun _ s => Punctual s)
    · exact ⟨⟨nofun, nofun⟩, le_rfl, nofun, .inl trivial⟩
    · intro run s x t events hpunctual hroomy hstep
      exact hpunctual.act hroomy hstep
  exact hpunctual.not_oversleeps

def scheduled (delay : ℤ) : List (Action Unit Unit × ℤ) :=
  (scheduleOnce () delay () :: List.replicate 5 (Action.client ())).map (·, 0)

def toSleep : List (Action Unit Unit × ℤ) :=
  (Action.start :: List.replicate 3 Action.manager ++ List.replicate 6 (Action.loop 0)).map (·, 0)

/-- From the end of a wait that has been notified back to sleep, with what is read in freed storage. -/
def backToSleep (freed : ℤ) : List (Action Unit Unit × ℤ) := List.replicate 3 (.loop 0, freed)

instance (h : Trace (Action Unit Unit × ℤ) (Event Unit Unit)) (s : Stored Unit Unit) (x : Action Unit Unit × ℤ) :
    Decidable (Roomy h s x) :=
  match x with
  | (.client i, _) => inferInstanceAs (Decidable ((s.scheduler.clients i).pushing = true →
      s.scheduler.loop.sleeping = true → s.scheduler.queue.length < s.capacity))
  | (.schedule _ _, _) | (.cancel _ _, _) | (.loop _, _) | (.spurious, _) | (.start, _) | (.shutdown, _)
  | (.manager, _) | (.tick _, _) => isTrue trivial

/-- With room in the vector the earlier task is waited for. -/
theorem wakes_in_time_reserved : ∃ h, ∃ s : Stored Unit Unit,
    (storedMachine (2 * ·)).Reach Roomy { scheduler := { now := 0 } } h s ∧
      s.scheduler.loop = .timedBlocked 1 ∧ ¬Oversleeps s := by
  obtain ⟨h, s, hr, hloop⟩ := Machine.exists_reach (storedMachine (2 * ·)) Roomy { scheduler := { now := 0 } }
    (fun _ s => s.scheduler.loop = .timedBlocked 1)
    (scheduled 10 ++ scheduled 20 ++ scheduled 30 ++ toSleep ++ scheduled 1 ++ backToSleep 0) (by decide +kernel)
  exact ⟨h, s, hr, hloop, wakes_in_time hr⟩

/-- The second task makes the vector grow, and the freed front still reads as it did. -/
theorem oversleeps : ∃ h, ∃ s : Stored Unit Unit,
    (storedMachine (2 * ·)).Run { scheduler := { now := 0 } } h s ∧ Oversleeps s := by
  obtain ⟨h, s, hr, hloop, htask, hclient⟩ := Machine.exists_run (storedMachine (2 * ·))
    { scheduler := { now := 0 } }
    (fun _ s => s.scheduler.loop = .timedBlocked 10 ∧ (∃ task ∈ s.scheduler.queue, task.deadline < 10) ∧
      (s.scheduler.clients ()).waking = false)
    (scheduled 10 ++ toSleep ++ scheduled 1 ++ backToSleep 10) (by decide +kernel)
  refine ⟨h, s, hr, ?_, ?_⟩
  · simpa only [Late, hloop] using htask
  · rintro ⟨i, hi⟩
    rw [hclient] at hi
    cases hi

end Results

end Klett.Cunk.Scheduler
