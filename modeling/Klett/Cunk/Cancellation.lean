import Klett.Cunk.SchedulerLocks

namespace Klett.Cunk.Scheduler

open Klett.Lib

section Erasure

variable {ι α : Type}

/-- The client as it would be had it not called `cancel`. -/
def Client.erase : Client α → Client α
  | .cancelLock _ | .cancelUnlock _ => .idle
  | c => c

/-- Where `cancel` has the mutex. -/
def Client.inCancel : Client α → Bool
  | .cancelUnlock _ => true
  | _ => false

def Owner.erase (clients : ι → Client α) : Owner ι → Option (Owner ι)
  | .loop => some .loop
  | .client i => if (clients i).inCancel then none else some (.client i)

/-- The scheduler without the calls of `cancel` that are under way. -/
def State.erase (s : State ι α) : State ι α :=
  { s with
    mutex := s.mutex.bind (Owner.erase s.clients)
    clients := fun i => (s.clients i).erase }

def Action.isCancel : Action ι α → Bool
  | .cancel _ _ => true
  | _ => false

def Event.isCancel : Event ι α → Bool
  | .cancelled _ _ _ => true
  | _ => false

variable {s t : State ι α} {pick : ℕ} {events : List (Event ι α)}

theorem erase_notify : s.notify.erase = s.erase.notify := by
  unfold State.notify
  cases hloop : s.loop <;> simp only [State.erase, hloop] <;> rfl

theorem erase_due (hs : due s pick = some t) : due s.erase pick = some t.erase := by
  have hqueue : s.erase.queue = s.queue := rfl
  have hnow : s.erase.now = s.now := rfl
  unfold due at hs ⊢
  rw [hqueue, hnow]
  split at hs
  · cases hs
  · simp only
    split_ifs at hs ⊢ <;> cases hs <;> rfl

theorem erase_schedulerLoop (hs : schedulerLoop s pick = some (t, events)) :
    schedulerLoop s.erase pick = some (t.erase, events) := by
  have hloop : s.erase.loop = s.loop := rfl
  have hfree : s.mutex.isNone = true → s.erase.mutex.isNone = true := by
    intro hnone
    simp [State.erase, Option.isNone_iff_eq_none.mp hnone]
  unfold schedulerLoop at hs ⊢
  rw [hloop]
  cases hpc : s.loop with
  | off | blocked => simp [hpc] at hs
  | check | empty | testRunning | testQueue | block | timedTest | timedBlock | unlock | unlockRun | run | running =>
    simp only [hpc, Option.some.injEq, Prod.mk.injEq] at hs ⊢
    obtain ⟨rfl, rfl⟩ := hs
    exact ⟨rfl, rfl⟩
  | lock | relock =>
    simp only [hpc] at hs ⊢
    split_ifs at hs with hnone
    cases hs
    exact if_pos (hfree hnone)
  | timedRelock deadline timedOut =>
    simp only [hpc] at hs ⊢
    cases timedOut <;> simp only [Bool.false_eq_true, ↓reduceIte] at hs ⊢
    all_goals
      split_ifs at hs with hnone
      cases hs
      exact if_pos (hfree hnone)
  | timedBlocked deadline =>
    simp only [hpc] at hs ⊢
    split_ifs at hs with hpassed
    cases hs
    exact if_pos hpassed
  | due =>
    simp only [hpc] at hs ⊢
    obtain ⟨u, hdue, heq⟩ := Option.map_eq_some_iff.mp hs
    cases heq
    rw [erase_due hdue]
    rfl

theorem erase_manage (hs : manage s = some t) : manage s.erase = some t.erase := by
  have hmanager : s.erase.manager = s.manager := rfl
  have hloop : s.erase.loop = s.loop := rfl
  unfold manage at hs ⊢
  rw [hmanager, hloop]
  cases hpc : s.manager with
  | idle => simp [hpc] at hs
  | startLoad | startStore | shutdownStore =>
    simp only [hpc, Option.some.injEq] at hs ⊢
    subst hs
    rfl
  | notifyAll =>
    simp only [hpc, Option.some.injEq] at hs ⊢
    subst hs
    rw [← erase_notify]
    rfl
  | spawn | join =>
    simp only [hpc] at hs ⊢
    split at hs
    · cases hs
      rfl
    · cases hs

theorem schedulerLoop_events (hs : schedulerLoop s pick = some (t, events)) : ∀ e ∈ events, e.isCancel = false := by
  cases hpc : s.loop with
  | off | blocked => simp [schedulerLoop, hpc] at hs
  | check | empty | testRunning | testQueue | block | timedTest | timedBlock | unlock | unlockRun | running =>
    simp only [schedulerLoop, hpc, Option.some.injEq, Prod.mk.injEq] at hs
    obtain ⟨-, rfl⟩ := hs
    exact List.forall_mem_nil _
  | lock | relock | timedRelock | timedBlocked =>
    simp only [schedulerLoop, hpc] at hs
    split_ifs at hs
    all_goals
      cases hs
      exact List.forall_mem_nil _
  | due =>
    simp only [schedulerLoop, hpc] at hs
    obtain ⟨u, -, heq⟩ := Option.map_eq_some_iff.mp hs
    cases heq
    exact List.forall_mem_nil _
  | run task =>
    simp only [schedulerLoop, hpc, Option.some.injEq, Prod.mk.injEq] at hs
    obtain ⟨-, rfl⟩ := hs
    simp [Event.isCancel]

section Clients

variable [DecidableEq ι] {i : ι} {c : Client α}

theorem erase_atClient (hmutex : s.mutex.bind (Owner.erase (Function.update s.clients i c)) = s.erase.mutex) :
    (s.atClient i c).erase = s.erase.atClient i c.erase := by
  have hclients : (fun j => (Function.update s.clients i c j).erase) = Function.update s.erase.clients i c.erase :=
    Function.comp_update Client.erase s.clients i c
  simp only [State.erase, State.atClient] at hmutex hclients ⊢
  rw [hmutex, hclients]

theorem erase_quiet (hsame : c.inCancel = (s.clients i).inCancel) :
    (s.atClient i c).erase = s.erase.atClient i c.erase := by
  apply erase_atClient
  have howner : Owner.erase (Function.update s.clients i c) = Owner.erase s.clients := by
    funext o
    cases o with
    | loop => rfl
    | client j =>
      obtain rfl | hne := eq_or_ne j i
      · simp [Owner.erase, hsame]
      · simp [Owner.erase, hne]
  rw [howner]
  rfl

theorem erase_lock (hc : c.inCancel = false) :
    ((s.withMutex (some (.client i))).atClient i c).erase =
      (s.erase.withMutex (some (.client i))).atClient i c.erase := by
  have hclients : (fun j => (Function.update s.clients i c j).erase) = Function.update s.erase.clients i c.erase :=
    Function.comp_update Client.erase s.clients i c
  have howner : Owner.erase (Function.update s.clients i c) (.client i) = some (.client i) := by simp [Owner.erase, hc]
  simp only [State.erase, State.atClient, State.withMutex, Option.bind_some] at howner hclients ⊢
  rw [howner, hclients]

theorem erase_unlock : ((s.withMutex none).atClient i c).erase = (s.erase.withMutex none).atClient i c.erase := by
  rw [erase_atClient rfl]
  rfl

theorem atClient_self (hc : s.clients i = c) : s.atClient i c = s := by
  rw [State.atClient, Function.update_eq_self_iff.mpr hc.symm]

theorem erase_clientStep (h : Exclusive s) (hs : clientStep s i = some (t, events)) :
    t.erase = s.erase ∧ (∀ e ∈ events, ∃ id, e = .cancelled i id false) ∨
      clientStep s.erase i = some (t.erase, events) ∧ ∀ e ∈ events, e.isCancel = false := by
  have hfree : s.mutex.isNone = true → s.erase.mutex.isNone = true := by
    intro hnone
    simp [State.erase, Option.isNone_iff_eq_none.mp hnone]
  cases hpc : s.clients i with
  | idle => simp [clientStep, hpc] at hs
  | ticket r =>
    have herased : s.erase.clients i = .ticket r := by simp [State.erase, hpc, Client.erase]
    simp only [clientStep, hpc, Option.some.injEq, Prod.mk.injEq] at hs
    obtain ⟨rfl, rfl⟩ := hs
    refine .inr ⟨?_, List.forall_mem_nil _⟩
    have hnext : (s.atClient i (.lock s.nextId r)).erase = s.erase.atClient i (.lock s.nextId r) :=
      erase_quiet (by rw [hpc]; rfl)
    simp only [clientStep, herased]
    exact congrArg (fun u : State ι α => some ({ u with nextId := (s.nextId + 1) % MpmcQueue.size }, [])) hnext.symm
  | lock id r =>
    have herased : s.erase.clients i = .lock id r := by simp [State.erase, hpc, Client.erase]
    simp only [clientStep, hpc] at hs
    split_ifs at hs with hnone
    cases hs
    refine .inr ⟨?_, List.forall_mem_nil _⟩
    simp only [clientStep, herased, hfree hnone, ↓reduceIte]
    rw [erase_lock rfl]
    rfl
  | push id r =>
    have herased : s.erase.clients i = .push id r := by simp [State.erase, hpc, Client.erase]
    simp only [clientStep, hpc, Option.some.injEq, Prod.mk.injEq] at hs
    obtain ⟨rfl, rfl⟩ := hs
    refine .inr ⟨?_, List.forall_mem_nil _⟩
    simp only [clientStep, herased]
    rw [erase_quiet (by simp [State.withQueue, hpc, Client.inCancel])]
    rfl
  | unlock id =>
    have herased : s.erase.clients i = .unlock id := by simp [State.erase, hpc, Client.erase]
    simp only [clientStep, hpc, Option.some.injEq, Prod.mk.injEq] at hs
    obtain ⟨rfl, rfl⟩ := hs
    refine .inr ⟨?_, List.forall_mem_nil _⟩
    simp only [clientStep, herased]
    rw [erase_unlock]
    rfl
  | notify id =>
    have herased : s.erase.clients i = .notify id := by simp [State.erase, hpc, Client.erase]
    have hclients : s.notify.clients = s.clients := by unfold State.notify; split <;> rfl
    simp only [clientStep, hpc, Option.some.injEq, Prod.mk.injEq] at hs
    obtain ⟨rfl, rfl⟩ := hs
    refine .inr ⟨?_, by simp [Event.isCancel]⟩
    simp only [clientStep, herased]
    rw [erase_quiet (by rw [hclients, hpc]; rfl), erase_notify]
    rfl
  | cancelLock id =>
    have herased : s.erase.clients i = .idle := by simp [State.erase, hpc, Client.erase]
    simp only [clientStep, hpc] at hs
    split_ifs at hs with hnone
    cases hs
    refine .inl ⟨?_, List.forall_mem_nil _⟩
    have hmutex := Option.isNone_iff_eq_none.mp hnone
    have hclients : (fun j => (Function.update s.clients i (.cancelUnlock id) j).erase) = s.erase.clients :=
      (Function.comp_update Client.erase s.clients i _).trans (Function.update_eq_self_iff.mpr herased.symm)
    simp only [State.erase, State.withMutex, State.atClient] at hclients ⊢
    rw [hclients]
    simp [hmutex, Owner.erase, Client.inCancel]
  | cancelUnlock id =>
    have herased : s.erase.clients i = .idle := by simp [State.erase, hpc, Client.erase]
    have hmutex := h.client i (by rw [hpc]; rfl)
    simp only [clientStep, hpc, Option.some.injEq, Prod.mk.injEq] at hs
    obtain ⟨rfl, rfl⟩ := hs
    refine .inl ⟨?_, by simp⟩
    have hfreed : s.erase.withMutex none = s.erase := by
      simp [State.withMutex, State.erase, hmutex, Owner.erase, hpc, Client.inCancel]
    rw [erase_unlock, hfreed]
    exact atClient_self herased

end Clients

section Runs

variable [DecidableEq ι] {a : Action ι α} {now : ℤ} {h : Trace (Action ι α) (Event ι α)}

/-- A step belongs to a call of `cancel`, and then it does nothing and `cancel` returns false, or it is there without
the calls of `cancel` too. -/
theorem erase_act (hexclusive : Exclusive s) (hs : act s a = some (t, events)) :
    t.erase = s.erase ∧ (∀ e ∈ events, ∃ i id, e = .cancelled i id false) ∨
      act s.erase a = some (t.erase, events) ∧ a.isCancel = false ∧ ∀ e ∈ events, e.isCancel = false := by
  cases a with
  | schedule i r =>
    cases hpc : s.clients i <;> simp only [act, hpc, reduceCtorEq, Option.some.injEq] at hs
    cases hs
    have herased : s.erase.clients i = .idle := by simp [State.erase, hpc, Client.erase]
    refine .inr ⟨?_, rfl, List.forall_mem_nil _⟩
    simp only [act, herased]
    rw [erase_quiet (by rw [hpc]; rfl)]
    rfl
  | cancel i id =>
    cases hpc : s.clients i <;> simp only [act, hpc, reduceCtorEq, Option.some.injEq] at hs
    cases hs
    have herased : s.erase.clients i = .idle := by simp [State.erase, hpc, Client.erase]
    refine .inl ⟨?_, List.forall_mem_nil _⟩
    rw [erase_quiet (by rw [hpc]; rfl)]
    exact atClient_self herased
  | client i =>
    obtain ⟨herase, hevents⟩ | ⟨hstep, hevents⟩ := erase_clientStep hexclusive hs
    · exact .inl ⟨herase, fun e he => ⟨i, hevents e he⟩⟩
    · exact .inr ⟨hstep, rfl, hevents⟩
  | loop pick =>
    exact .inr ⟨erase_schedulerLoop hs, rfl, schedulerLoop_events hs⟩
  | spurious =>
    have hloop : s.erase.loop = s.loop := rfl
    simp only [act] at hs
    split at hs
    next hpc =>
      cases hs
      refine .inr ⟨?_, rfl, List.forall_mem_nil _⟩
      simp only [act, hloop, hpc]
      rfl
    next hpc =>
      cases hs
      refine .inr ⟨?_, rfl, List.forall_mem_nil _⟩
      simp only [act, hloop, hpc]
      rfl
    · cases hs
  | start | shutdown =>
    simp only [act] at hs
    split_ifs at hs with hidle
    cases hs
    exact .inr ⟨if_pos hidle, rfl, List.forall_mem_nil _⟩
  | manager =>
    obtain ⟨u, hmanage, heq⟩ := Option.map_eq_some_iff.mp hs
    cases heq
    refine .inr ⟨?_, rfl, List.forall_mem_nil _⟩
    rw [act, erase_manage hmanage]
    rfl
  | tick d =>
    cases hs
    exact .inr ⟨rfl, rfl, List.forall_mem_nil _⟩

end Runs

end Erasure

section Results

variable {ι α : Type} [DecidableEq ι] {now : ℤ} {h : Trace (Action ι α) (Event ι α)} {s : State ι α}

/-- `cancel` returns false, and everything but its callers is as if it had not been called. -/
theorem cancel_without_effect (hr : machine.Run { now := now } h s) :
    (∀ i id result, .cancelled i id result ∈ h.events → result = false) ∧
      ∃ k, machine.Run { now := now } k s.erase ∧ k.Sublist h ∧ (∀ x ∈ k, x.1.isCancel = false) ∧
        k.events = h.events.filter fun e => !e.isCancel := by
  induction hr with
  | refl => exact ⟨nofun, [], .refl, List.Sublist.refl _, nofun, rfl⟩
  | @step h s a t events hr _ hstep ih =>
    obtain ⟨hfalse, k, hk, hsub, hactions, hevents⟩ := ih
    simp only [Trace.events_append, Trace.events_single, List.filter_append, List.mem_append]
    obtain ⟨herase, hcancelled⟩ | ⟨hstep', ha, hkept⟩ := erase_act (exclusive_of_run hr) hstep
    · have hnone : events.filter (fun e => !e.isCancel) = [] := by
        rw [List.filter_eq_nil_iff]
        intro e he
        obtain ⟨i, id, rfl⟩ := hcancelled e he
        simp [Event.isCancel]
      rw [hnone, List.append_nil]
      refine ⟨?_, k, herase ▸ hk, hsub.trans (List.sublist_append_left ..), hactions, hevents⟩
      rintro i id result (hold | hnew)
      · exact hfalse i id result hold
      · obtain ⟨j, jd, heq⟩ := hcancelled _ hnew
        cases heq
        rfl
    · have hall : events.filter (fun e => !e.isCancel) = events := by
        rw [List.filter_eq_self]
        intro e he
        rw [hkept e he]
        rfl
      refine ⟨?_, k ++ [(a, events)], hk.step trivial hstep', hsub.append (List.Sublist.refl _), ?_, ?_⟩
      · rintro i id result (hold | hnew)
        · exact hfalse i id result hold
        · cases hkept _ hnew
      · intro x hx
        obtain hx | hx := List.mem_append.mp hx
        · exact hactions x hx
        · rw [List.mem_singleton.mp hx]
          exact ha
      · rw [Trace.events_append, Trace.events_single, hall, hevents]

/-- A task without delay, from its call to its place in the queue. -/
def zeroDelay : List (Action Unit Unit) := scheduleOnce () 0 () :: List.replicate 5 (.client ())

/-- The start of the scheduler and the loop's way to the first task. -/
def firstTask : List (Action Unit Unit) :=
  [.start, .manager, .manager, .manager] ++ List.replicate 6 (.loop 0)

/-- The task is pending when `cancel` returns, and then it is started. -/
theorem cancelled_task_started : ∃ h, ∃ s : State Unit Unit, machine.Run { now := 0 } h s ∧
    h.events = [.scheduled () 1, .cancelled () 1 false, .started ⟨1, 0, 0, (), false⟩] := by
  exact Machine.exists_run (machine : Machine (State Unit Unit) _ _) { now := 0 }
    (fun h _ => h.events = [.scheduled () 1, .cancelled () 1 false, .started ⟨1, 0, 0, (), false⟩])
    (zeroDelay ++ [.cancel () 1, .client (), .client ()] ++ firstTask) (by decide +kernel)

theorem cancel_without_effect_pending : ∃ h, ∃ s : State Unit Unit, machine.Run { now := 0 } h s ∧
    s.queue = [⟨1, 0, 0, (), false⟩] ∧ (∀ i id result, .cancelled i id result ∈ h.events → result = false) ∧
      ∃ k, machine.Run { now := 0 } k s.erase ∧ k.Sublist h ∧ (∀ x ∈ k, x.1.isCancel = false) ∧
        k.events = h.events.filter fun e => !e.isCancel := by
  obtain ⟨h, s, hr, hqueue⟩ := Machine.exists_run (machine : Machine (State Unit Unit) _ _) { now := 0 }
    (fun _ s => s.queue = [⟨1, 0, 0, (), false⟩]) (zeroDelay ++ [.cancel () 1, .client (), .client ()])
    (by decide +kernel)
  exact ⟨h, s, hr, hqueue, cancel_without_effect hr⟩

end Results

end Klett.Cunk.Scheduler
