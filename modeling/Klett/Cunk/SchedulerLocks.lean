import Klett.Cunk.Scheduler

namespace Klett.Cunk.Scheduler

open Klett.Lib

section Exclusion

variable {ι α : Type}

def Loop.locked : Loop α → Bool
  | .empty | .testRunning | .testQueue | .block | .due | .timedTest _ | .timedBlock _ | .unlock | .unlockRun _ => true
  | _ => false

def Client.locked : Client α → Bool
  | .push _ _ | .unlock _ | .cancelUnlock _ => true
  | _ => false

/-- A thread between its acquire and its release of the mutex owns it. -/
structure Exclusive (s : State ι α) : Prop where
  loop : s.loop.locked = true → s.mutex = some .loop
  client : ∀ i, (s.clients i).locked = true → s.mutex = some (.client i)

variable {s t : State ι α} {l : Loop α} {i : ι} {c : Client α}

theorem Exclusive.loop_quiet (h : Exclusive s) (hmutex : t.mutex = s.mutex) (hclients : t.clients = s.clients)
    (hloop : t.loop.locked = true → s.loop.locked = true) : Exclusive t where
  loop hl := hmutex.trans (h.loop (hloop hl))
  client i hi := by
    rw [hclients] at hi
    exact hmutex.trans (h.client i hi)

theorem Exclusive.loop_lock (h : Exclusive s) (hfree : s.mutex = none) (hmutex : t.mutex = some .loop)
    (hclients : t.clients = s.clients) : Exclusive t where
  loop _ := hmutex
  client i hi := by
    rw [hclients] at hi
    have hheld := h.client i hi
    rw [hfree] at hheld
    cases hheld

theorem Exclusive.loop_unlock (h : Exclusive s) (hlocked : s.loop.locked = true) (hclients : t.clients = s.clients)
    (hloop : t.loop.locked = false) : Exclusive t where
  loop hl := by
    rw [hloop] at hl
    cases hl
  client i hi := by
    rw [hclients] at hi
    have hheld := h.client i hi
    rw [h.loop hlocked] at hheld
    cases hheld

theorem notify_mutex : s.notify.mutex = s.mutex := by
  unfold State.notify
  split <;> rfl

theorem notify_clients : s.notify.clients = s.clients := by
  unfold State.notify
  split <;> rfl

theorem notify_locked : s.notify.loop.locked = true → s.loop.locked = true := by
  unfold State.notify
  split
  · nofun
  · nofun
  · exact id

theorem due_quiet {pick : ℕ} (hs : due s pick = some t) : t.mutex = s.mutex ∧ t.clients = s.clients := by
  cases looks_of_due hs
  all_goals
    subst t
    exact ⟨rfl, rfl⟩

theorem Exclusive.schedulerLoop (h : Exclusive s) {pick : ℕ} {events : List (Event ι α)}
    (hs : schedulerLoop s pick = some (t, events)) : Exclusive t := by
  cases hpc : s.loop with
  | off | blocked => simp [Scheduler.schedulerLoop, hpc] at hs
  | check =>
    simp only [Scheduler.schedulerLoop, hpc, Option.some.injEq, Prod.mk.injEq] at hs
    obtain ⟨rfl, -⟩ := hs
    refine h.loop_quiet rfl rfl ?_
    split_ifs <;> nofun
  | empty | testRunning | testQueue | timedTest =>
    simp only [Scheduler.schedulerLoop, hpc, Option.some.injEq, Prod.mk.injEq] at hs
    obtain ⟨rfl, -⟩ := hs
    exact h.loop_quiet rfl rfl fun _ => by rw [hpc]; rfl
  | lock | relock | timedRelock =>
    simp only [Scheduler.schedulerLoop, hpc] at hs
    split_ifs at hs with hnone
    all_goals
      cases hs
      exact h.loop_lock (Option.isNone_iff_eq_none.mp hnone) rfl rfl
  | block | timedBlock | unlock | unlockRun =>
    simp only [Scheduler.schedulerLoop, hpc, Option.some.injEq, Prod.mk.injEq] at hs
    obtain ⟨rfl, -⟩ := hs
    exact h.loop_unlock (by rw [hpc]; rfl) rfl rfl
  | due =>
    simp only [Scheduler.schedulerLoop, hpc] at hs
    obtain ⟨u, hdue, heq⟩ := Option.map_eq_some_iff.mp hs
    cases heq
    obtain ⟨hmutex, hclients⟩ := due_quiet hdue
    exact h.loop_quiet hmutex hclients fun _ => by rw [hpc]; rfl
  | timedBlocked deadline =>
    simp only [Scheduler.schedulerLoop, hpc] at hs
    split_ifs at hs
    cases hs
    exact h.loop_quiet rfl rfl nofun
  | run | running =>
    simp only [Scheduler.schedulerLoop, hpc, Option.some.injEq, Prod.mk.injEq] at hs
    obtain ⟨rfl, -⟩ := hs
    exact h.loop_quiet rfl rfl nofun

theorem Exclusive.manage (h : Exclusive s) (hs : manage s = some t) : Exclusive t := by
  cases hpc : s.manager with
  | idle => simp [Scheduler.manage, hpc] at hs
  | startLoad | startStore | shutdownStore =>
    simp only [Scheduler.manage, hpc, Option.some.injEq] at hs
    subst hs
    exact h.loop_quiet rfl rfl id
  | notifyAll =>
    simp only [Scheduler.manage, hpc, Option.some.injEq] at hs
    subst hs
    exact h.loop_quiet notify_mutex notify_clients notify_locked
  | spawn =>
    simp only [Scheduler.manage, hpc] at hs
    split at hs
    · cases hs
      exact h.loop_quiet rfl rfl nofun
    · cases hs
  | join =>
    simp only [Scheduler.manage, hpc] at hs
    split at hs
    · cases hs
      exact h.loop_quiet rfl rfl id
    · cases hs

variable [DecidableEq ι]

theorem Exclusive.client_quiet (h : Exclusive s) (hmutex : t.mutex = s.mutex)
    (hclients : t.clients = Function.update s.clients i c) (hloop : t.loop.locked = true → s.loop.locked = true)
    (hc : c.locked = true → (s.clients i).locked = true) : Exclusive t where
  loop hl := hmutex.trans (h.loop (hloop hl))
  client := by
    rw [hclients, hmutex]
    apply (Function.forall_update_iff _ (fun j (x : Client α) => x.locked = true → s.mutex = some (.client j))).mpr
    exact ⟨fun hlocked => h.client i (hc hlocked), fun j _ => h.client j⟩

theorem Exclusive.client_lock (h : Exclusive s) (hfree : s.mutex = none) (hmutex : t.mutex = some (.client i))
    (hclients : t.clients = Function.update s.clients i c) (hloop : t.loop = s.loop) : Exclusive t where
  loop hl := by
    rw [hloop] at hl
    have hheld := h.loop hl
    rw [hfree] at hheld
    cases hheld
  client := by
    rw [hclients, hmutex]
    apply (Function.forall_update_iff _
      (fun j (x : Client α) => x.locked = true → some (Owner.client i) = some (.client j))).mpr
    refine ⟨fun _ => rfl, fun j _ hj => ?_⟩
    have hheld := h.client j hj
    rw [hfree] at hheld
    cases hheld

theorem Exclusive.client_unlock (h : Exclusive s) (hlocked : (s.clients i).locked = true)
    (hclients : t.clients = Function.update s.clients i c) (hloop : t.loop = s.loop) (hc : c.locked = false) :
    Exclusive t where
  loop hl := by
    rw [hloop] at hl
    have hheld := h.loop hl
    rw [h.client i hlocked] at hheld
    cases hheld
  client := by
    rw [hclients]
    apply (Function.forall_update_iff _ (fun j (x : Client α) => x.locked = true → t.mutex = some (.client j))).mpr
    constructor
    · intro hlocked
      rw [hc] at hlocked
      cases hlocked
    · intro j hne hj
      have hheld := h.client j hj
      rw [h.client i hlocked] at hheld
      cases hheld
      exact absurd rfl hne

theorem Exclusive.clientStep (h : Exclusive s) {events : List (Event ι α)}
    (hs : clientStep s i = some (t, events)) : Exclusive t := by
  cases hpc : s.clients i with
  | idle => simp [Scheduler.clientStep, hpc] at hs
  | ticket =>
    simp only [Scheduler.clientStep, hpc, Option.some.injEq, Prod.mk.injEq] at hs
    obtain ⟨rfl, -⟩ := hs
    exact h.client_quiet rfl rfl id fun hl => by cases hl
  | lock | cancelLock =>
    simp only [Scheduler.clientStep, hpc] at hs
    split_ifs at hs with hnone
    cases hs
    exact h.client_lock (Option.isNone_iff_eq_none.mp hnone) rfl rfl rfl
  | push =>
    simp only [Scheduler.clientStep, hpc, Option.some.injEq, Prod.mk.injEq] at hs
    obtain ⟨rfl, -⟩ := hs
    exact h.client_quiet rfl rfl id fun _ => by rw [hpc]; rfl
  | unlock | cancelUnlock =>
    simp only [Scheduler.clientStep, hpc, Option.some.injEq, Prod.mk.injEq] at hs
    obtain ⟨rfl, -⟩ := hs
    exact h.client_unlock (by rw [hpc]; rfl) rfl rfl rfl
  | notify =>
    simp only [Scheduler.clientStep, hpc, Option.some.injEq, Prod.mk.injEq] at hs
    obtain ⟨rfl, -⟩ := hs
    refine h.client_quiet (i := i) (c := .idle) notify_mutex ?_ notify_locked nofun
    exact congrArg (Function.update · i _) notify_clients

theorem Exclusive.act (h : Exclusive s) {a : Action ι α} {events : List (Event ι α)}
    (hs : act s a = some (t, events)) : Exclusive t := by
  cases a with
  | schedule i r | cancel i id =>
    cases hpc : s.clients i <;> simp only [Scheduler.act, hpc, reduceCtorEq, Option.some.injEq] at hs
    cases hs
    exact h.client_quiet rfl rfl (fun hl => hl) nofun
  | client i => exact h.clientStep hs
  | loop pick => exact h.schedulerLoop hs
  | spurious =>
    simp only [Scheduler.act] at hs
    split at hs
    · cases hs
      exact h.loop_quiet rfl rfl nofun
    · cases hs
      exact h.loop_quiet rfl rfl nofun
    · cases hs
  | start | shutdown =>
    simp only [Scheduler.act] at hs
    split_ifs at hs
    cases hs
    exact h.loop_quiet rfl rfl id
  | manager =>
    obtain ⟨u, hmanage, heq⟩ := Option.map_eq_some_iff.mp hs
    cases heq
    exact h.manage hmanage
  | tick d =>
    cases hs
    exact h.loop_quiet rfl rfl id

theorem exclusive_of_run {now : ℤ} {h : Trace (Action ι α) (Event ι α)}
    (hr : machine.Run { now := now } h s) : Exclusive s := by
  apply hr.invariant (I := fun _ s => Exclusive s)
  · exact ⟨nofun, nofun⟩
  · intro run s a t events hexclusive _ hstep
    exact hexclusive.act hstep

end Exclusion

end Klett.Cunk.Scheduler
