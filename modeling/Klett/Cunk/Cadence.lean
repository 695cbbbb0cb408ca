import Klett.Cunk.Deadlines
import Klett.Lib.Machine
import Mathlib.Data.List.Induction
import Mathlib.Data.List.InsertIdx
import Mathlib.Data.List.Nodup
import Mathlib.Data.List.Perm.Basic
import Mathlib.Tactic.Ring

namespace Klett.Cunk.Scheduler

open Klett.Lib

section Record

variable {ι α : Type}

/-- A task that left the queue to be run, under the number of its first push, with the tasks pending at that moment. -/
structure Firing (α : Type) where
  tag : ℕ
  task : ScheduledTask α
  pending : List (ScheduledTask α)

/-- What a run has done to the queue. The ids of tasks come round again, the numbers of their pushes do not. -/
structure Book (α : Type) where
  pushed : List (ScheduledTask α) := []
  entries : List (ℕ × ScheduledTask α) := []
  fired : List (Firing α) := []

def ScheduledTask.rescheduled (task : ScheduledTask α) : ScheduledTask α :=
  { task with deadline := task.deadline + task.interval, cancelled := false }

def requested (now : ℤ) (id : ℕ) (r : Request α) : ScheduledTask α :=
  { id := id, deadline := now + r.delay, interval := r.interval, task := r.task, cancelled := false }

def Book.push (b : Book α) (task : ScheduledTask α) : Book α where
  pushed := b.pushed ++ [task]
  entries := b.entries ++ [(b.pushed.length, task)]
  fired := b.fired

def Book.pop (b : Book α) (pick : ℕ) (pending : List (ScheduledTask α)) : Book α :=
  match b.entries[pick]? with
  | none => b
  | some (tag, task) =>
    let rest := b.entries.eraseIdx pick
    if task.cancelled then { b with entries := rest }
    else
      { pushed := b.pushed
        entries := if 0 < task.interval then rest ++ [(tag, task.rescheduled)] else rest
        fired := b.fired ++ [⟨tag, task, pending⟩] }

/-- The queue changes where a client pushes and where the loop finds the top due. -/
def record (b : Book α) (s : Stored ι α) (x : Action ι α × ℤ) (_ : List (Event ι α)) : Book α :=
  match x.1 with
  | .client i =>
    match s.scheduler.clients i with
    | .push id r => b.push (requested s.scheduler.now id r)
    | _ => b
  | .loop pick =>
    match s.scheduler.loop, s.scheduler.queue[pick]? with
    | .due, some task => if task.deadline ≤ s.scheduler.now then b.pop pick s.scheduler.queue else b
    | _, _ => b
  | _ => b

end Record

section Books

variable {α : Type} {b : Book α} {tag n pick : ℕ} {first task : ScheduledTask α} {pending : List (ScheduledTask α)}

def firings (tag : ℕ) (fired : List (Firing α)) : ℕ := fired.countP fun f => f.tag = tag

def ScheduledTask.after (first : ScheduledTask α) (n : ℕ) : ScheduledTask α :=
  { first with deadline := first.deadline + n * first.interval }

/-- A task that comes after `n` firings. A task without an interval comes once. -/
def Comes (pushed : List (ScheduledTask α)) (tag : ℕ) (task : ScheduledTask α) (n : ℕ) : Prop :=
  ∃ first, pushed[tag]? = some first ∧ task = first.after n ∧ (first.interval ≤ 0 → n = 0)

structure Kept (b : Book α) : Prop where
  live : ∀ first ∈ b.pushed, first.cancelled = false
  apart : (b.entries.map Prod.fst).Nodup
  waiting : ∀ e ∈ b.entries, Comes b.pushed e.1 e.2 (firings e.1 b.fired)
  came : ∀ pre f post, b.fired = pre ++ f :: post → Comes b.pushed f.tag f.task (firings f.tag pre)
  least : ∀ f ∈ b.fired, f.task ∈ f.pending ∧ IsTop f.pending f.task

theorem Comes.lt {pushed : List (ScheduledTask α)} (h : Comes pushed tag task n) : tag < pushed.length := by
  obtain ⟨first, hfirst, -⟩ := h
  exact (List.getElem?_eq_some_iff.mp hfirst).1

theorem Comes.append {pushed : List (ScheduledTask α)} (h : Comes pushed tag task n) (l : List (ScheduledTask α)) :
    Comes (pushed ++ l) tag task n := by
  have hlt := h.lt
  obtain ⟨first, hfirst, hrest⟩ := h
  exact ⟨first, (List.getElem?_append_left hlt).trans hfirst, hrest⟩

theorem firings_append (f : Firing α) (fired : List (Firing α)) :
    firings tag (fired ++ [f]) = firings tag fired + if f.tag = tag then 1 else 0 := by
  unfold firings
  rw [List.countP_append, List.countP_singleton]
  simp

theorem Kept.firings_fresh (h : Kept b) : firings b.pushed.length b.fired = 0 := by
  unfold firings
  rw [List.countP_eq_zero]
  intro f hf htag
  obtain ⟨pre, post, hsplit⟩ := List.append_of_mem hf
  have hlt := (h.came pre f post hsplit).lt
  rw [of_decide_eq_true htag] at hlt
  exact Nat.lt_irrefl _ hlt

theorem Kept.empty : Kept ({} : Book α) where
  live := List.forall_mem_nil _
  apart := List.nodup_nil
  waiting := List.forall_mem_nil _
  came pre f post h := by simp at h
  least := List.forall_mem_nil _

theorem Kept.push (h : Kept b) (hlive : task.cancelled = false) : Kept (b.push task) where
  live := by
    change ∀ first ∈ b.pushed ++ [task], _
    rw [List.forall_mem_append]
    exact ⟨h.live, List.forall_mem_singleton.mpr hlive⟩
  apart := by
    unfold Book.push
    rw [List.map_append, List.map_singleton, ← List.concat_eq_append]
    apply h.apart.concat
    intro hmem
    obtain ⟨e, he, htag⟩ := List.mem_map.mp hmem
    have hlt := (h.waiting e he).lt
    omega
  waiting := by
    change ∀ e ∈ b.entries ++ [(b.pushed.length, task)], Comes (b.pushed ++ [task]) e.1 e.2 (firings e.1 b.fired)
    rw [List.forall_mem_append, List.forall_mem_singleton]
    constructor
    · intro e he
      exact (h.waiting e he).append _
    · refine ⟨task, List.getElem?_concat_length, ?_, fun _ => h.firings_fresh⟩
      change task = task.after (firings b.pushed.length b.fired)
      rw [h.firings_fresh]
      simp [ScheduledTask.after]
  came pre f post hsplit := (h.came pre f post hsplit).append _
  least := h.least

theorem Comes.next (hcomes : Comes b.pushed tag task n) (hlive : ∀ first ∈ b.pushed, first.cancelled = false)
    (hinterval : 0 < task.interval) : Comes b.pushed tag task.rescheduled (n + 1) := by
  obtain ⟨first, hfirst, rfl, -⟩ := hcomes
  refine ⟨first, hfirst, ?_, fun hnone => absurd hinterval (not_lt.mpr hnone)⟩
  have hcancelled := hlive first (List.mem_of_getElem? hfirst)
  simp only [ScheduledTask.rescheduled, ScheduledTask.after, ScheduledTask.mk.injEq, true_and, hcancelled, and_true]
  push_cast
  ring

theorem Kept.live_entry (h : Kept b) (hentry : (tag, task) ∈ b.entries) : task.cancelled = false := by
  obtain ⟨first, hfirst, heq, -⟩ := h.waiting _ hentry
  exact (congrArg ScheduledTask.cancelled heq).trans (h.live first (List.mem_of_getElem? hfirst))

theorem Book.pop_eq (hpick : b.entries[pick]? = some (tag, task)) (hlive : task.cancelled = false) :
    b.pop pick pending =
      { pushed := b.pushed
        entries := if 0 < task.interval then b.entries.eraseIdx pick ++ [(tag, task.rescheduled)]
          else b.entries.eraseIdx pick
        fired := b.fired ++ [⟨tag, task, pending⟩] } := by
  unfold Book.pop
  rw [hpick]
  simp only [hlive, Bool.false_eq_true, if_false]

theorem Kept.rest_apart (h : Kept b) (hpick : b.entries[pick]? = some (tag, task)) :
    tag ∉ (b.entries.eraseIdx pick).map Prod.fst ∧ ((b.entries.eraseIdx pick).map Prod.fst).Nodup := by
  obtain ⟨hlt, hget⟩ := List.getElem?_eq_some_iff.mp hpick
  have hperm := (List.getElem_cons_eraseIdx_perm hlt).map Prod.fst
  rw [hget] at hperm
  exact List.nodup_cons.mp (hperm.nodup_iff.mpr h.apart)

theorem Kept.rest_waiting (h : Kept b) (hpick : b.entries[pick]? = some (tag, task)) :
    ∀ e ∈ b.entries.eraseIdx pick, Comes b.pushed e.1 e.2 (firings e.1 (b.fired ++ [⟨tag, task, pending⟩])) := by
  intro e he
  have hne : tag ≠ e.1 := by
    intro heq
    have hkept := List.mem_map_of_mem (f := Prod.fst) he
    rw [← heq] at hkept
    exact (h.rest_apart hpick).1 hkept
  rw [firings_append, if_neg hne, Nat.add_zero]
  exact h.waiting e (List.mem_of_mem_eraseIdx he)

theorem Kept.pop (h : Kept b) (hpick : b.entries[pick]? = some (tag, task)) (hmem : task ∈ pending)
    (htop : IsTop pending task) : Kept (b.pop pick pending) := by
  have hentry : (tag, task) ∈ b.entries := List.mem_of_getElem? hpick
  have hcomes := h.waiting _ hentry
  obtain ⟨hgone, hapart⟩ := h.rest_apart hpick
  rw [Book.pop_eq hpick (h.live_entry hentry)]
  constructor
  case live => exact h.live
  case apart =>
    change List.Nodup (List.map Prod.fst (if _ then _ else _))
    split_ifs
    · rw [List.map_append, List.map_singleton, ← List.concat_eq_append]
      exact hapart.concat hgone
    · exact hapart
  case waiting =>
    intro e he
    change e ∈ (if _ then _ else _) at he
    split_ifs at he with hinterval
    · obtain he | he := List.mem_append.mp he
      · exact h.rest_waiting hpick e he
      · rw [List.mem_singleton.mp he]
        have hnext := hcomes.next h.live hinterval
        change Comes b.pushed tag task.rescheduled (firings tag (b.fired ++ [⟨tag, task, pending⟩]))
        rwa [firings_append, if_pos rfl]
    · exact h.rest_waiting hpick e he
  case came =>
    intro pre f post hsplit
    obtain rfl | ⟨front, last, rfl⟩ := List.eq_nil_or_concat' post
    · obtain ⟨hpre, hf⟩ := List.append_inj' hsplit rfl
      obtain rfl := List.singleton_inj.mp hf
      rw [← hpre]
      exact hcomes
    · rw [← List.cons_append, ← List.append_assoc] at hsplit
      exact h.came pre f front (List.append_inj' hsplit rfl).1
  case least =>
    change ∀ f ∈ b.fired ++ [⟨tag, task, pending⟩], _
    rw [List.forall_mem_append, List.forall_mem_singleton]
    exact ⟨h.least, hmem, htop⟩

theorem Kept.firings_le_one (h : Kept b) (hfirst : b.pushed[tag]? = some first) (hinterval : first.interval ≤ 0) :
    firings tag b.fired ≤ 1 := by
  have hprefix : ∀ l post, b.fired = l ++ post → firings tag l ≤ 1 := by
    intro l
    induction l using List.reverseRecOn with
    | nil => exact fun _ _ => Nat.zero_le 1
    | append_singleton l f ih =>
      intro post hsplit
      rw [List.append_assoc] at hsplit
      rw [firings_append]
      split_ifs with htag
      · obtain ⟨first', hfirst', -, hnone⟩ := h.came l f post hsplit
        rw [htag, hfirst] at hfirst'
        obtain rfl := Option.some.inj hfirst'
        rw [htag] at hnone
        rw [hnone hinterval]
      · exact ih _ hsplit
  exact hprefix b.fired [] (List.append_nil _).symm

end Books

section Steps

variable {ι α : Type} {s t : State ι α} {events : List (Event ι α)}

def Loop.inFlight : Loop α → List (ScheduledTask α)
  | .unlockRun task | .run task => [task]
  | _ => []

def startedTasks (events : List (Event ι α)) : List (ScheduledTask α) :=
  events.filterMap fun e =>
    match e with
    | .started task => some task
    | _ => none

/-- What a step does to the queue: nothing, a push, or the pop of a task that is due. -/
inductive Queueing (s t : State ι α) (a : Action ι α) (events : List (Event ι α)) : Prop
  | same (hqueue : t.queue = s.queue) (hclient : ∀ i id r, a = .client i → s.clients i ≠ .push id r)
      (hloop : ∀ pick task, a = .loop pick → s.loop = .due → s.queue[pick]? = some task → ¬task.deadline ≤ s.now)
      (hflight : startedTasks events ++ t.loop.inFlight = s.loop.inFlight)
  | push (i : ι) (id : ℕ) (r : Request α) (ha : a = .client i) (hpc : s.clients i = .push id r)
      (hqueue : t.queue = s.queue ++ [requested s.now id r]) (hloop : t.loop = s.loop) (hevents : events = [])
  | pop (pick : ℕ) (task : ScheduledTask α) (ha : a = .loop pick) (hpc : s.loop = .due)
      (hpick : s.queue[pick]? = some task) (htop : IsTop s.queue task) (hdue : task.deadline ≤ s.now)
      (hqueue : t.queue = if task.cancelled = false ∧ 0 < task.interval
        then s.queue.eraseIdx pick ++ [task.rescheduled] else s.queue.eraseIdx pick)
      (hflight : t.loop.inFlight = if task.cancelled then [] else [task]) (hevents : events = [])

theorem queueing_due {pick : ℕ} (hpc : s.loop = .due) (hs : due s pick = some t) :
    Queueing s t (.loop pick) ([] : List (Event ι α)) := by
  cases looks_of_due hs with
  | dropped task hpick htop hdue hcancelled ht =>
    subst ht
    refine .pop pick task rfl hpc hpick htop hdue ?_ ?_ rfl
    · simp [State.withQueue, State.atLoop, hcancelled]
    · simp [State.atLoop, Loop.inFlight, hcancelled]
  | again task hpick htop hdue hlive hinterval ht =>
    subst ht
    refine .pop pick task rfl hpc hpick htop hdue ?_ ?_ rfl
    · simp [State.withQueue, State.atLoop, hlive, hinterval, ScheduledTask.rescheduled]
    · simp [State.atLoop, Loop.inFlight, hlive]
  | once task hpick htop hdue hlive hinterval ht =>
    subst ht
    refine .pop pick task rfl hpc hpick htop hdue ?_ ?_ rfl
    · simp [State.withQueue, State.atLoop, hinterval]
    · simp [State.atLoop, Loop.inFlight, hlive]
  | early task hpick htop hdue ht =>
    subst ht
    refine .same rfl (by simp) ?_ (by rw [hpc]; rfl)
    intro pick' task' hpick' _ hget
    cases hpick'
    rw [hpick] at hget
    cases hget
    exact hdue

theorem queueing_loop {pick : ℕ} (hloop : s.loop ≠ .due) (hqueue : t.queue = s.queue)
    (hflight : startedTasks events ++ t.loop.inFlight = s.loop.inFlight) : Queueing s t (.loop pick) events :=
  .same hqueue (by simp) (fun _ _ _ hpc => absurd hpc hloop) hflight

theorem queueing_schedulerLoop {pick : ℕ} (hs : schedulerLoop s pick = some (t, events)) :
    Queueing s t (.loop pick) events := by
  cases hpc : s.loop with
  | off | blocked => simp [schedulerLoop, hpc] at hs
  | due =>
    simp only [schedulerLoop, hpc] at hs
    obtain ⟨u, hdue, heq⟩ := Option.map_eq_some_iff.mp hs
    cases heq
    exact queueing_due hpc hdue
  | lock | relock | timedBlocked | timedRelock =>
    simp only [schedulerLoop, hpc] at hs
    split_ifs at hs
    all_goals
      cases hs
      exact queueing_loop (by simp [hpc]) rfl (by rw [hpc]; rfl)
  | check | empty | testRunning | testQueue | timedTest =>
    simp only [schedulerLoop, hpc, Option.some.injEq, Prod.mk.injEq] at hs
    obtain ⟨rfl, rfl⟩ := hs
    refine queueing_loop (by simp [hpc]) rfl ?_
    rw [hpc]
    split_ifs <;> rfl
  | block | timedBlock | unlock | unlockRun | run | running =>
    simp only [schedulerLoop, hpc, Option.some.injEq, Prod.mk.injEq] at hs
    obtain ⟨rfl, rfl⟩ := hs
    refine queueing_loop (by simp [hpc]) rfl ?_
    rw [hpc]
    rfl

theorem notify_inFlight : s.notify.loop.inFlight = s.loop.inFlight := by
  unfold State.notify
  split
  next hpc =>
    rw [hpc]
    rfl
  next hpc =>
    rw [hpc]
    rfl
  · rfl

theorem inFlight_manage (hs : manage s = some t) : t.queue = s.queue ∧ t.loop.inFlight = s.loop.inFlight := by
  cases hpc : s.manager with
  | idle => simp [manage, hpc] at hs
  | startLoad | startStore | shutdownStore =>
    simp only [manage, hpc, Option.some.injEq] at hs
    subst hs
    exact ⟨rfl, rfl⟩
  | notifyAll =>
    simp only [manage, hpc, Option.some.injEq] at hs
    subst hs
    exact ⟨notify_queue, notify_inFlight⟩
  | spawn =>
    simp only [manage, hpc] at hs
    split at hs
    next hoff =>
      cases hs
      rw [hoff]
      exact ⟨rfl, rfl⟩
    · cases hs
  | join =>
    simp only [manage, hpc] at hs
    split at hs
    · cases hs
      exact ⟨rfl, rfl⟩
    · cases hs

variable [DecidableEq ι] {i : ι}

theorem queueing_clientStep (hs : clientStep s i = some (t, events)) : Queueing s t (.client i) events := by
  have hquiet (hpush : ∀ id r, s.clients i ≠ .push id r) (hqueue : t.queue = s.queue)
      (hflight : startedTasks events ++ t.loop.inFlight = s.loop.inFlight) : Queueing s t (.client i) events := by
    refine .same hqueue ?_ (by simp) hflight
    rintro j id r hj
    cases hj
    exact hpush id r
  cases hpc : s.clients i with
  | idle => simp [clientStep, hpc] at hs
  | push id r =>
    simp only [clientStep, hpc, Option.some.injEq, Prod.mk.injEq] at hs
    obtain ⟨rfl, rfl⟩ := hs
    exact .push i id r rfl hpc rfl rfl rfl
  | lock | cancelLock =>
    simp only [clientStep, hpc] at hs
    split_ifs at hs
    cases hs
    exact hquiet (by simp [hpc]) rfl rfl
  | notify id =>
    simp only [clientStep, hpc, Option.some.injEq, Prod.mk.injEq] at hs
    obtain ⟨rfl, rfl⟩ := hs
    exact hquiet (by simp [hpc]) notify_queue notify_inFlight
  | ticket | unlock | cancelUnlock =>
    simp only [clientStep, hpc, Option.some.injEq, Prod.mk.injEq] at hs
    obtain ⟨rfl, rfl⟩ := hs
    exact hquiet (by simp [hpc]) rfl rfl

theorem queueing_act {a : Action ι α} (hs : act s a = some (t, events)) : Queueing s t a events := by
  cases a with
  | loop pick => exact queueing_schedulerLoop hs
  | client i => exact queueing_clientStep hs
  | schedule i r | cancel i id =>
    cases hpc : s.clients i <;> simp only [act, hpc, reduceCtorEq, Option.some.injEq] at hs
    cases hs
    exact .same rfl (by simp) (by simp) rfl
  | spurious =>
    simp only [act] at hs
    split at hs
    next hpc =>
      cases hs
      exact .same rfl (by simp) (by simp) (by rw [hpc]; rfl)
    next hpc =>
      cases hs
      exact .same rfl (by simp) (by simp) (by rw [hpc]; rfl)
    · cases hs
  | start | shutdown =>
    simp only [act] at hs
    split_ifs at hs
    cases hs
    exact .same rfl (by simp) (by simp) rfl
  | manager =>
    obtain ⟨u, hmanage, heq⟩ := Option.map_eq_some_iff.mp hs
    cases heq
    obtain ⟨hqueue, hflight⟩ := inFlight_manage hmanage
    exact .same hqueue (by simp) (by simp) hflight
  | tick d =>
    cases hs
    exact .same rfl (by simp) (by simp) rfl

theorem reread_inFlight {s : Stored ι α} {a : Action ι α} {freed : ℤ} (hs : act s.scheduler a = some (t, events)) :
    (reread s a freed t).loop.inFlight = t.loop.inFlight := by
  unfold reread
  split
  next pick deadline hpc =>
    simp only [act, schedulerLoop, hpc, Bool.false_eq_true, if_false] at hs
    split_ifs at hs
    cases hs
    rfl
  · rfl

end Steps

section Runs

variable {ι α : Type}

/-- The book says what is in the queue, and what was started or is about to be. -/
structure Cadenced (h : Trace (Action ι α × ℤ) (Event ι α)) (s : Stored ι α) (b : Book α) : Prop where
  kept : Kept b
  queue : b.entries.map Prod.snd = s.scheduler.queue
  started : b.fired.map Firing.task = startedTasks h.events ++ s.scheduler.loop.inFlight

variable {s t : Stored ι α} {b : Book α} {h : Trace (Action ι α × ℤ) (Event ι α)} {x : Action ι α × ℤ}
  {events : List (Event ι α)}

theorem startedTasks_nil : startedTasks ([] : List (Event ι α)) = [] := rfl

theorem startedTasks_append (es fs : List (Event ι α)) : startedTasks (es ++ fs) = startedTasks es ++ startedTasks fs :=
  List.filterMap_append

theorem record_same {a : Action ι α} {freed : ℤ}
    (hclient : ∀ i id r, a = .client i → s.scheduler.clients i ≠ .push id r)
    (hloop : ∀ pick task, a = .loop pick → s.scheduler.loop = .due → s.scheduler.queue[pick]? = some task →
      ¬task.deadline ≤ s.scheduler.now) : record b s (a, freed) events = b := by
  unfold record
  split
  next i ha =>
    split
    next id r hpc => exact absurd hpc (hclient i id r ha)
    next => rfl
  next pick ha =>
    split
    next task hpc hpick => exact if_neg (hloop pick task ha hpc hpick)
    next => rfl
  next => rfl

theorem record_push {i : ι} {id : ℕ} {r : Request α} {freed : ℤ} (hpc : s.scheduler.clients i = .push id r) :
    record b s (.client i, freed) events = b.push (requested s.scheduler.now id r) := by
  simp only [record, hpc]

theorem record_pop {pick : ℕ} {task : ScheduledTask α} {freed : ℤ} (hpc : s.scheduler.loop = .due)
    (hpick : s.scheduler.queue[pick]? = some task) (hdue : task.deadline ≤ s.scheduler.now) :
    record b s (.loop pick, freed) events = b.pop pick s.scheduler.queue := by
  simp only [record, hpc, hpick, if_pos hdue]

variable [DecidableEq ι] {grow : ℕ → ℕ}

theorem Cadenced.step (hc : Cadenced h s b) (hs : storedAct grow s x.1 x.2 = some (t, events)) :
    Cadenced (h ++ [(x, events)]) t (record b s x events) := by
  obtain ⟨a, freed⟩ := x
  obtain ⟨⟨u, es⟩, hact, heq⟩ := Option.map_eq_some_iff.mp hs
  cases heq
  have hqueue : (s.next grow a freed u).scheduler.queue = u.queue := reread_queue
  have hflight : (s.next grow a freed u).scheduler.loop.inFlight = u.loop.inFlight := reread_inFlight hact
  have hevents : startedTasks (h ++ [((a, freed), events)]).events = startedTasks h.events ++ startedTasks events := by
    rw [Trace.events_append, Trace.events_single, startedTasks_append]
  cases queueing_act hact with
  | same hsame hclient hloop hstarted =>
    rw [record_same hclient hloop]
    refine ⟨hc.kept, ?_, ?_⟩
    · rw [hqueue, hsame]
      exact hc.queue
    · rw [hevents, hflight, List.append_assoc, hstarted]
      exact hc.started
  | push i id r ha hpc hpushed hloop hnone =>
    obtain rfl : a = .client i := ha
    rw [record_push hpc]
    refine ⟨hc.kept.push rfl, ?_, ?_⟩
    · rw [hqueue, hpushed, ← hc.queue]
      exact List.map_append
    · rw [hevents, hflight, hloop, hnone, startedTasks_nil, List.append_nil]
      exact hc.started
  | pop pick task ha hpc hpick htop hdue hpopped hrunning hnone =>
    obtain rfl : a = .loop pick := ha
    have hentry : ∃ tag, b.entries[pick]? = some (tag, task) := by
      rw [← hc.queue, List.getElem?_map] at hpick
      obtain ⟨⟨tag, task'⟩, hget, rfl⟩ := Option.map_eq_some_iff.mp hpick
      exact ⟨tag, hget⟩
    obtain ⟨tag, hentry⟩ := hentry
    have hlive := hc.kept.live_entry (List.mem_of_getElem? hentry)
    have hidle : s.scheduler.loop.inFlight = [] := by
      rw [hpc]
      rfl
    have hstarted := hc.started
    rw [hidle, List.append_nil] at hstarted
    rw [record_pop hpc hpick hdue]
    refine ⟨hc.kept.pop hentry (List.mem_of_getElem? hpick) htop, ?_, ?_⟩
    · rw [hqueue, hpopped, Book.pop_eq hentry hlive, ← hc.queue]
      simp only [hlive, true_and, apply_ite (List.map Prod.snd), List.map_append, List.map_singleton, List.eraseIdx_map]
    · rw [hevents, hflight, hrunning, hnone, startedTasks_nil, List.append_nil, hlive, Book.pop_eq hentry hlive]
      exact List.map_append.trans (congrArg (· ++ [task]) hstarted)

theorem Cadenced.of_run {now : ℤ} (hr : ((storedMachine grow).recording record).Run
    ({ scheduler := { now := now } }, ({} : Book α)) h (s, b)) : Cadenced h s b := by
  apply hr.invariant (I := fun k (y : Stored ι α × Book α) => Cadenced k y.1 y.2)
  · exact ⟨.empty, rfl, rfl⟩
  · rintro k ⟨s, b⟩ x ⟨t, c⟩ events hc - hstep
    obtain ⟨hact, hrecord⟩ := Machine.recording_step.mp hstep
    obtain rfl : c = record b s x events := hrecord
    exact hc.step hact

end Runs

section Results

variable {ι α : Type} [DecidableEq ι] {grow : ℕ → ℕ} {now : ℤ}

/-- The book of a run is the one that `record` writes along it. `cancel` may be called: it marks nothing. -/
theorem firings_keep_cadence {h : Trace (Action ι α × ℤ) (Event ι α)} {s : Stored ι α}
    (hr : (storedMachine grow).Run { scheduler := { now := now } } h s) :
    ∃ b, ((storedMachine grow).recording record).Run ({ scheduler := { now := now } }, {}) h (s, b) ∧
      b.fired.map Firing.task = startedTasks h.events ++ s.scheduler.loop.inFlight ∧
      (∀ pre f post, b.fired = pre ++ f :: post →
        (∃ first, b.pushed[f.tag]? = some first ∧ f.task = first.after (firings f.tag pre)) ∧
          f.task ∈ f.pending ∧ ∀ task ∈ f.pending, f.task.deadline ≤ task.deadline) ∧
      ∀ tag first, b.pushed[tag]? = some first → first.interval ≤ 0 → firings tag b.fired ≤ 1 := by
  obtain ⟨b, hb⟩ : ∃ b, ((storedMachine grow).recording record).Run
      ({ scheduler := { now := now } }, ({} : Book α)) h (s, b) := hr.recorded
  have hc := Cadenced.of_run hb
  refine ⟨b, hb, hc.started, ?_, fun tag first => hc.kept.firings_le_one⟩
  intro pre f post hsplit
  obtain ⟨first, hfirst, htask, -⟩ := hc.kept.came pre f post hsplit
  have hf : f ∈ b.fired := by
    rw [hsplit]
    exact List.mem_append_right pre List.mem_cons_self
  exact ⟨⟨first, hfirst, htask⟩, hc.kept.least f hf⟩

/-- A periodic task with a deadline every ten ticks, and what the loop does to fire it. -/
def twice : List (Action Unit Unit × ℤ) :=
  (schedulePeriodic () 5 10 () :: List.replicate 5 (Action.client ()) ++
    Action.start :: List.replicate 3 Action.manager ++ Action.tick 20 :: List.replicate 14 (Action.loop 0)).map (·, 0)

theorem firings_keep_cadence_twice : ∃ h, ∃ s : Stored Unit Unit,
    (startedTasks h.events).map ScheduledTask.deadline = [5, 15] ∧
      ∃ b, ((storedMachine (2 * ·)).recording record).Run ({ scheduler := { now := 0 } }, {}) h (s, b) ∧
        b.fired.map Firing.task = startedTasks h.events ++ s.scheduler.loop.inFlight ∧
        (∀ pre f post, b.fired = pre ++ f :: post →
          (∃ first, b.pushed[f.tag]? = some first ∧ f.task = first.after (firings f.tag pre)) ∧
            f.task ∈ f.pending ∧ ∀ task ∈ f.pending, f.task.deadline ≤ task.deadline) ∧
        ∀ tag first, b.pushed[tag]? = some first → first.interval ≤ 0 → firings tag b.fired ≤ 1 := by
  obtain ⟨h, s, hr, hdeadlines⟩ := Machine.exists_run (storedMachine (2 * ·)) { scheduler := { now := 0 } }
    (fun h _ => (startedTasks h.events).map ScheduledTask.deadline = [5, 15]) twice (by decide +kernel)
  exact ⟨h, s, hdeadlines, firings_keep_cadence hr⟩

end Results

end Klett.Cunk.Scheduler
