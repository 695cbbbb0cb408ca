import Klett.Cunk.AsyncTask
import Klett.Lib.Parties

namespace Klett.Cunk.AsyncTask

open Klett.Lib

section Progress

variable {α ε : Type} {c : Chain α ε} {m k : ℕ} {tasks : ℕ → SharedState α ε} {job : Job α ε}

/-- The first `m` tasks are settled as they should be, and behind them there are `k` continuations in all. -/
structure Sorted (c : Chain α ε) (m k : ℕ) (tasks : ℕ → SharedState α ε) : Prop where
  settled : ∀ i < m, Settled (tasks i) (c.held i) (outcome c i)
  passed : ∀ i, i + 1 < m → ∃ v, outcome c i = .ok v
  pending : ∀ i ≥ m, tasks i = { continuation := decide (i < k) }

inductive Doing (c : Chain α ε) : ℕ → Job α ε → Prop
  | call {i : ℕ} {v : α} (h : outcome c i = .ok v) : Doing c (i + 1) (.call i (c.held i v))
  | root : Doing c 0 (.settle 0 c.root)
  | settle {i : ℕ} {v : α} (h : outcome c i = .ok v) : Doing c (i + 1) (.settle (i + 1) (outcome c (i + 1)))

theorem Doing.call_work {i : ℕ} {arg : Option α} (h : Doing c m (.call i arg)) :
    (∃ v, outcome c i = .ok v) ∧ Doing c m (.settle (i + 1) ((c.link i).func arg)) := by
  obtain ⟨hv⟩ := h
  rename_i v
  have hnext : (c.link i).func (c.held i v) = outcome c (i + 1) := by
    rw [outcome, hv]
  rw [hnext]
  exact ⟨⟨v, hv⟩, .settle hv⟩

theorem Doing.settle_result {i : ℕ} {result : Except ε α} (h : Doing c m (.settle i result)) :
    i = m ∧ result = outcome c m ∧ ∀ j, j + 1 = m → ∃ v, outcome c j = .ok v := by
  cases h with
  | root => exact ⟨rfl, rfl, nofun⟩
  | settle hv =>
    refine ⟨rfl, rfl, ?_⟩
    rintro j heq
    obtain rfl := Nat.succ.inj heq
    exact ⟨_, hv⟩

theorem Sorted.update (h : Sorted c m k tasks) (task : SharedState α ε)
    (htask : Settled task (c.held m) (outcome c m)) (hpassed : ∀ j, j + 1 = m → ∃ v, outcome c j = .ok v) :
    Sorted c (m + 1) k (Function.update tasks m task) where
  settled i hi := by
    obtain rfl | hne := eq_or_ne i m
    · rwa [Function.update_self]
    · rw [Function.update_of_ne hne]
      exact h.settled i (by omega)
  passed i hi := by
    obtain heq | hlt := Nat.eq_or_lt_of_le (Nat.lt_succ_iff.mp hi)
    · exact hpassed i heq
    · exact h.passed i hlt
  pending i hi := by
    rw [Function.update_of_ne (by omega)]
    exact h.pending i (by omega)

theorem Sorted.attach (h : Sorted c m k tasks) (hm : m ≤ k) :
    Sorted c m (k + 1) (Function.update tasks k { tasks k with continuation := true }) where
  settled i hi := by
    rw [Function.update_of_ne (by omega)]
    exact h.settled i hi
  passed := h.passed
  pending i hi := by
    obtain rfl | hne := eq_or_ne i k
    · rw [Function.update_self, h.pending i hi]
      simp
    · rw [Function.update_of_ne hne, h.pending i hi]
      congr 1
      simp only [decide_eq_decide]
      omega

/-- What one piece of work leads to: the next job, the end of the line, or an exception in front of a continuation. -/
theorem Sorted.work (h : Sorted c m k tasks) (hjob : Doing c m job) (hm : m ≤ k) :
    (∃ i v next, outcome c i = .ok v ∧ work c tasks job = (tasks, some next, [i]) ∧ Doing c m next) ∨
    (∃ tasks' next, work c tasks job = (tasks', some next, []) ∧ Sorted c (m + 1) k tasks' ∧ Doing c (m + 1) next ∧
      m < k) ∨
    (∃ tasks', work c tasks job = (tasks', none, []) ∧ Sorted c (m + 1) k tasks' ∧
      (m = k ∨ m < k ∧ ∃ e, outcome c m = .error e)) := by
  cases job with
  | call i arg =>
    obtain ⟨⟨v, hv⟩, hnext⟩ := hjob.call_work
    exact .inl ⟨i, v, _, hv, rfl, hnext⟩
  | settle i result =>
    obtain ⟨rfl, rfl, hpassed⟩ := hjob.settle_result
    have hpending := h.pending i (Nat.le_refl i)
    cases houtcome : outcome c i with
    | ok v =>
      have hsorted := h.update { tasks i with value := c.held i v, ready := true, continuation := false }
        (by rw [houtcome, hpending]; exact ⟨rfl, rfl, rfl⟩) hpassed
      obtain rfl | hlt := Nat.eq_or_lt_of_le hm
      · refine .inr (.inr ⟨_, ?_, hsorted, .inl rfl⟩)
        simp [AsyncTask.work, setValue, hpending]
      · refine .inr (.inl ⟨_, .call i (c.held i v), ?_, hsorted, .call houtcome, hlt⟩)
        simp [AsyncTask.work, setValue, hpending, hlt]
    | error e =>
      have hsorted := h.update { tasks i with exception := some e, ready := true }
        (by rw [houtcome, hpending]; exact ⟨rfl, rfl, rfl⟩) hpassed
      refine .inr (.inr ⟨_, rfl, hsorted, ?_⟩)
      obtain rfl | hlt := Nat.eq_or_lt_of_le hm
      · exact .inl rfl
      · exact .inr ⟨hlt, e, rfl⟩

end Progress

section Runs

variable {α ε : Type} {c : Chain α ε} {m : ℕ} {s s' : State α ε} {h : Trace Thread ℕ} {t : Thread} {called : List ℕ}

/-- Either nobody has anything to do before the next continuation is attached, or one thread has. -/
inductive Phase (c : Chain α ε) (m : ℕ) (s : State α ε) : Prop
  | idle (hjobs : ∀ t, s.jobs t = none) (hattached : s.attached + 1 = m)
  | busy {t : Thread} {job : Job α ε} (hjob : s.jobs t = some job) (hother : ∀ u ≠ t, s.jobs u = none)
      (hdoing : Doing c m job) (hattached : m ≤ s.attached)

structure Sound (c : Chain α ε) (m : ℕ) (s : State α ε) : Prop where
  defined : s.undefined = false
  attached : s.attached ≤ c.length
  sorted : Sorted c m s.attached s.tasks
  phase : Phase c m s

/-- An exception has reached a task with a continuation, and cannot get any further. -/
inductive Lost (h : Trace Thread ℕ) (s : State α ε) (l : ℕ) : Prop
  | waiting (hjobs : ∀ t, s.jobs t = none) (hattached : l < s.attached)
      (hready : ∀ i > l, (s.tasks i).ready = false)
  | calling {arg : Option α} (hjob : s.jobs .consumer = some (.call l arg))
  | called (hcalled : l ∈ h.events)
  | undefined (hundefined : s.undefined = true)

def Calm (c : Chain α ε) (h : Trace Thread ℕ) : Prop := ∀ i ∈ h.events, ∃ v, outcome c i = .ok v

def Reached (c : Chain α ε) (h : Trace Thread ℕ) (s : State α ε) : Prop :=
  (∃ m, Sound c m s ∧ Calm c h) ∨ ∃ l < c.length, (∃ e, outcome c l = .error e) ∧ Lost h s l

theorem Calm.append (hcalm : Calm c h) (hcalled : ∀ i ∈ called, ∃ v, outcome c i = .ok v) :
    Calm c (h ++ [(t, called)]) := by
  intro i hi
  rw [Trace.events_append, Trace.events_single, List.mem_append] at hi
  exact hi.elim (hcalm i) (hcalled i)

theorem Sound.attach_idle (hs : Sound c m s) (hcalm : Calm c h) (hjobs : ∀ t, s.jobs t = none)
    (hattached : s.attached + 1 = m) (hlt : s.attached < c.length) : Reached c (h ++ [(t, [])]) (attach c s) := by
  obtain ⟨hdefined, -, hsorted, -⟩ := hs
  subst hattached
  have hsettled := hsorted.settled s.attached (Nat.lt_succ_self _)
  have hmore : Sorted c (s.attached + 1) (s.attached + 1) s.tasks := by
    refine ⟨hsorted.settled, hsorted.passed, fun i hi => ?_⟩
    rw [hsorted.pending i hi]
    congr 1
    simp only [decide_eq_decide]
    omega
  cases houtcome : outcome c s.attached with
  | ok v =>
    rw [houtcome] at hsettled
    obtain ⟨hready, hvalue, -⟩ := hsettled
    have hattach : attach c s = { s with
        attached := s.attached + 1
        jobs := Function.update s.jobs .consumer (some (.call s.attached (c.held s.attached v))) } := by
      rw [Chain.held] at hvalue ⊢
      cases hvoid : c.isVoid s.attached <;> simp_all [attach]
    rw [hattach]
    refine .inl ⟨s.attached + 1, ⟨hdefined, hlt, hmore, ?_⟩, hcalm.append nofun⟩
    apply Phase.busy (t := .consumer) _ _ (.call houtcome)
      (Nat.le_refl _)
    · simp
    · intro u hu
      dsimp only
      rw [Function.update_of_ne hu, hjobs]
  | error e =>
    rw [houtcome] at hsettled
    obtain ⟨hready, hvalue, -⟩ := hsettled
    refine .inr ⟨s.attached, hlt, ⟨e, houtcome⟩, ?_⟩
    cases hvoid : c.isVoid s.attached with
    | true =>
      have hjob : (attach c s).jobs .consumer = some (.call s.attached none) := by
        simp [attach, hready, hvoid]
      exact .calling hjob
    | false =>
      apply Lost.undefined
      simp [attach, hready, hvoid, hvalue]

theorem attach_of_not_ready (hready : (s.tasks s.attached).ready = false) : attach c s =
    { s with
      tasks := Function.update s.tasks s.attached { s.tasks s.attached with continuation := true }
      attached := s.attached + 1 } := by
  simp [attach, hready]

theorem Sound.attach_busy {job : Job α ε} (hs : Sound c m s) (hcalm : Calm c h) (hm : m ≤ s.attached)
    (hlt : s.attached < c.length) {u : Thread} (hjob : s.jobs u = some job) (hother : ∀ v ≠ u, s.jobs v = none)
    (hdoing : Doing c m job) : Reached c (h ++ [(t, [])]) (attach c s) := by
  have hpending := hs.sorted.pending s.attached hm
  rw [attach_of_not_ready (by rw [hpending])]
  exact .inl ⟨m, ⟨hs.defined, hlt, hs.sorted.attach hm, .busy hjob hother hdoing (Nat.le_succ_of_le hm)⟩,
    hcalm.append nofun⟩

theorem Sound.work_busy {job : Job α ε} (hs : Sound c m s) (hcalm : Calm c h) (hm : m ≤ s.attached)
    (hjob : s.jobs t = some job) (hother : ∀ v ≠ t, s.jobs v = none) (hdoing : Doing c m job) :
    Reached c (h ++ [(t, (work c s.tasks job).2.2)])
      { s with tasks := (work c s.tasks job).1, jobs := Function.update s.jobs t (work c s.tasks job).2.1 } := by
  have hrest (next : Option (Job α ε)) : ∀ v ≠ t, Function.update s.jobs t next v = none := by
    intro v hv
    rw [Function.update_of_ne hv, hother v hv]
  obtain ⟨i, v, next, hv, hwork, hnext⟩ | ⟨tasks, next, hwork, hsorted, hnext, hlt⟩ | ⟨tasks, hwork, hsorted, hend⟩ :=
    hs.sorted.work hdoing hm
  · rw [hwork]
    refine .inl ⟨m, ⟨hs.defined, hs.attached, hs.sorted, ?_⟩, hcalm.append ?_⟩
    · exact .busy (Function.update_self _ _ _) (hrest _) hnext hm
    · intro j hj
      obtain rfl := List.mem_singleton.mp hj
      exact ⟨v, hv⟩
  · rw [hwork]
    refine .inl ⟨m + 1, ⟨hs.defined, hs.attached, hsorted, ?_⟩, hcalm.append nofun⟩
    exact .busy (Function.update_self _ _ _) (hrest _) hnext hlt
  · rw [hwork]
    have hnone : ∀ v, Function.update s.jobs t none v = none := by
      intro v
      obtain rfl | hv := eq_or_ne v t
      · exact Function.update_self _ _ _
      · exact hrest none v hv
    obtain heq | ⟨hlt, e, he⟩ := hend
    · refine .inl ⟨m + 1, ⟨hs.defined, hs.attached, hsorted, .idle hnone ?_⟩, hcalm.append nofun⟩
      rw [heq]
    · refine .inr ⟨m, Nat.lt_of_lt_of_le hlt hs.attached, ⟨e, he⟩, .waiting hnone hlt fun i hi => ?_⟩
      dsimp only
      rw [hsorted.pending i hi]

theorem step_cases (hstep : (machine c).step s t = some (s', called)) : s.undefined = false ∧
    ((∃ job, s.jobs t = some job ∧ called = (work c s.tasks job).2.2 ∧
        s' = { s with
          tasks := (work c s.tasks job).1, jobs := Function.update s.jobs t (work c s.tasks job).2.1 }) ∨
      (s.jobs t = none ∧ t = .consumer ∧ s.attached < c.length ∧ called = [] ∧ s' = attach c s)) := by
  cases hundefined : s.undefined with
  | true => simp [machine, hundefined] at hstep
  | false =>
    refine ⟨rfl, ?_⟩
    cases hjob : s.jobs t with
    | some job =>
      simp only [machine, hundefined, hjob, Bool.false_eq_true, if_false] at hstep
      obtain ⟨rfl, rfl⟩ := Prod.mk.inj (Option.some.inj hstep)
      exact .inl ⟨job, rfl, rfl, rfl⟩
    | none =>
      simp only [machine, hundefined, hjob, Bool.false_eq_true, if_false] at hstep
      split_ifs at hstep with hattach
      obtain ⟨rfl, rfl⟩ := Prod.mk.inj (Option.some.inj hstep)
      exact .inr ⟨rfl, hattach.1, hattach.2, rfl, rfl⟩

theorem Lost.step {l : ℕ} (hlost : Lost h s l) (hstep : (machine c).step s t = some (s', called)) :
    Lost (h ++ [(t, called)]) s' l := by
  obtain ⟨hdefined, ⟨job, hjob, rfl, rfl⟩ | ⟨hnone, rfl, -, rfl, rfl⟩⟩ := step_cases hstep
  · cases hlost with
    | waiting hjobs _ _ => exact nomatch (hjobs t).symm.trans hjob
    | calling hcall =>
      obtain rfl | hne := eq_or_ne t .consumer
      · obtain rfl := Option.some.inj (hjob.symm.trans hcall)
        apply Lost.called
        simp [work]
      · apply Lost.calling
        dsimp only
        rw [Function.update_of_ne hne.symm]
        exact hcall
    | called hcalled => exact .called (by rw [Trace.events_append]; exact List.mem_append_left _ hcalled)
    | undefined hundefined => exact nomatch hdefined.symm.trans hundefined
  · cases hlost with
    | waiting hjobs hattached hready =>
      rw [attach_of_not_ready (hready _ hattached)]
      refine .waiting hjobs (Nat.lt_succ_of_lt hattached) fun i hi => ?_
      dsimp only
      obtain rfl | hne := eq_or_ne i s.attached
      · rw [Function.update_self]
        exact hready _ hi
      · rw [Function.update_of_ne hne]
        exact hready i hi
    | calling hcall => exact nomatch hnone.symm.trans hcall
    | called hcalled => exact .called (by rw [Trace.events_append]; exact List.mem_append_left _ hcalled)
    | undefined hundefined => exact nomatch hdefined.symm.trans hundefined

theorem Reached.step (hr : Reached c h s) (hstep : (machine c).step s t = some (s', called)) :
    Reached c (h ++ [(t, called)]) s' := by
  obtain ⟨m, hs, hcalm⟩ | ⟨l, hl, he, hlost⟩ := hr
  · obtain ⟨-, ⟨job, hjob, rfl, rfl⟩ | ⟨hnone, rfl, hlt, rfl, rfl⟩⟩ := step_cases hstep
    · cases hs.phase with
      | idle hjobs _ => exact nomatch (hjobs t).symm.trans hjob
      | @busy u job' hjob' hother hdoing hm =>
        have hu : t = u := by
          by_contra hne
          exact nomatch (hother t hne).symm.trans hjob
        subst hu
        obtain rfl := Option.some.inj (hjob.symm.trans hjob')
        exact hs.work_busy hcalm hm hjob hother hdoing
    · cases hs.phase with
      | idle hjobs hattached => exact hs.attach_idle hcalm hjobs hattached hlt
      | busy hjob hother hdoing hm => exact hs.attach_busy hcalm hm hlt hjob hother hdoing
  · exact .inr ⟨l, hl, he, hlost.step hstep⟩

theorem reached_of_run (hr : (machine c).Run (initial c) h s) : Reached c h s := by
  apply hr.invariant (I := Reached c)
  · refine .inl ⟨0, ⟨rfl, Nat.zero_le _, ⟨nofun, nofun, fun i _ => by simp [initial]⟩, ?_⟩, nofun⟩
    apply Phase.busy (t := .producer) rfl _ .root (Nat.le_refl _)
    intro u hu
    exact if_neg hu
  · intro k s t s' called hreached _ hstep
    exact hreached.step hstep

def Maximal (c : Chain α ε) (s : State α ε) : Prop := ∀ t, (machine c).step s t = none

theorem Maximal.cases (hmax : Maximal c s) :
    s.undefined = true ∨ (∀ t, s.jobs t = none) ∧ c.length ≤ s.attached := by
  cases hundefined : s.undefined with
  | true => exact .inl rfl
  | false =>
    have hjobs (t : Thread) : s.jobs t = none := by
      cases hjob : s.jobs t with
      | none => rfl
      | some job =>
        have hstep := hmax t
        simp [machine, hundefined, hjob] at hstep
    have hstep := hmax .consumer
    simp only [machine, hundefined, hjobs, Bool.false_eq_true, if_false] at hstep
    split_ifs at hstep with hattach
    exact .inr ⟨hjobs, Nat.le_of_not_lt fun hlt => hattach ⟨trivial, hlt⟩⟩

theorem Sound.propagated (hs : Sound c m s) (hcalm : Calm c h) (hmax : Maximal c s) :
    Propagated c h s ∧ ∀ i < c.length, ∃ v, outcome c i = .ok v := by
  obtain hundefined | ⟨hjobs, hlength⟩ := hmax.cases
  · exact nomatch hs.defined.symm.trans hundefined
  · cases hs.phase with
    | busy hjob _ _ _ => exact nomatch (hjobs _).symm.trans hjob
    | idle _ hattached =>
      have hall := Nat.le_antisymm hs.attached hlength
      rw [hall] at hattached
      subst hattached
      exact ⟨⟨hs.defined, fun i hi => hs.sorted.settled i (Nat.lt_succ_of_le hi), hcalm⟩,
        fun i hi => hs.sorted.passed i (Nat.succ_lt_succ hi)⟩

theorem Settled.ready {task : SharedState α ε} {held : α → Option α} {result : Except ε α}
    (h : Settled task held result) : task.ready = true := by
  cases result with
  | ok v => exact h.1
  | error e => exact h.1

theorem Lost.not_propagated {l : ℕ} {e : ε} (hlost : Lost h s l) (hl : l < c.length) (he : outcome c l = .error e)
    (hmax : Maximal c s) : ¬ Propagated c h s := by
  rintro ⟨hdefined, hsettled, hcalled⟩
  have hfinal := hsettled c.length (Nat.le_refl _)
  cases hlost with
  | waiting _ _ hready => exact nomatch (hready _ hl).symm.trans hfinal.ready
  | calling hjob =>
    obtain hundefined | ⟨hjobs, -⟩ := hmax.cases
    · exact nomatch hdefined.symm.trans hundefined
    · exact nomatch (hjobs _).symm.trans hjob
  | called hmem =>
    obtain ⟨v, hv⟩ := hcalled l hmem
    exact nomatch he.symm.trans hv
  | undefined hundefined => exact nomatch hdefined.symm.trans hundefined

end Runs

section Termination

variable {α ε : Type} {c : Chain α ε} {s s' : State α ε} {h : Trace Thread ℕ} {t : Thread} {called : List ℕ}

def SharedState.weight (task : SharedState α ε) : ℕ := if task.continuation then 2 else 0

def Job.weight : Option (Job α ε) → ℕ
  | some (.call _ _) => 2
  | some (.settle _ _) => 1
  | none => 0

def stored (c : Chain α ε) (tasks : ℕ → SharedState α ε) : ℕ := ∑ i ∈ Finset.range c.length, (tasks i).weight

def remaining (c : Chain α ε) (s : State α ε) : ℕ :=
  3 * (c.length - s.attached) + stored c s.tasks + Job.weight (s.jobs .producer) + Job.weight (s.jobs .consumer)

theorem stored_update (tasks : ℕ → SharedState α ε) {i : ℕ} (hi : i < c.length) (task : SharedState α ε) :
    stored c (Function.update tasks i task) + (tasks i).weight = stored c tasks + task.weight :=
  sum_update SharedState.weight tasks task (Finset.mem_range.mpr hi)

theorem stored_update_of_le (tasks : ℕ → SharedState α ε) {i : ℕ} (hi : c.length ≤ i) (task : SharedState α ε) :
    stored c (Function.update tasks i task) = stored c tasks := by
  apply Finset.sum_congr rfl
  intro j hj
  have hlt := Finset.mem_range.mp hj
  rw [Function.update_of_ne (by omega)]

def Bounded (c : Chain α ε) (tasks : ℕ → SharedState α ε) : Prop := ∀ i ≥ c.length, (tasks i).continuation = false

theorem bounded_work {tasks : ℕ → SharedState α ε} (hb : Bounded c tasks) (job : Job α ε) :
    Bounded c (work c tasks job).1 ∧
      stored c (work c tasks job).1 + Job.weight (work c tasks job).2.1 + 1 = stored c tasks + Job.weight (some job) := by
  have hupdate (i : ℕ) (task : SharedState α ε) (htask : task.continuation = true → (tasks i).continuation = true) :
      Bounded c (Function.update tasks i task) := by
    intro j hj
    obtain rfl | hne := eq_or_ne j i
    · rw [Function.update_self]
      exact eq_false_of_ne_true fun heq => nomatch (hb j hj).symm.trans (htask heq)
    · rw [Function.update_of_ne hne]
      exact hb j hj
  cases job with
  | call i arg => exact ⟨hb, rfl⟩
  | settle i result =>
    cases result with
    | ok v =>
      simp only [work, setValue]
      refine ⟨hupdate i _ nofun, ?_⟩
      obtain hlt | hle := lt_or_ge i c.length
      · have hsum := stored_update tasks hlt
          { tasks i with value := c.held i v, ready := true, continuation := false }
        cases hcontinuation : (tasks i).continuation <;>
          simp only [SharedState.weight, hcontinuation, Job.weight, if_true, Bool.false_eq_true, if_false] at hsum ⊢ <;>
          omega
      · rw [stored_update_of_le tasks hle, hb i hle]
        rfl
    | error e =>
      simp only [work, setException]
      refine ⟨hupdate i _ id, ?_⟩
      obtain hlt | hle := lt_or_ge i c.length
      · have hsum := stored_update tasks hlt { tasks i with exception := some e, ready := true }
        simp only [SharedState.weight, Job.weight] at hsum ⊢
        omega
      · rw [stored_update_of_le tasks hle]
        rfl

theorem weight_update (jobs : Thread → Option (Job α ε)) (t : Thread) (next : Option (Job α ε)) :
    Job.weight (Function.update jobs t next .producer) + Job.weight (Function.update jobs t next .consumer) +
        Job.weight (jobs t) =
      Job.weight (jobs .producer) + Job.weight (jobs .consumer) + Job.weight next := by
  cases t <;> simp [Function.update] <;> omega

theorem Bounded.step (hb : Bounded c s.tasks) (hstep : (machine c).step s t = some (s', called)) :
    Bounded c s'.tasks ∧ remaining c s' < remaining c s := by
  obtain ⟨-, ⟨job, hjob, rfl, rfl⟩ | ⟨hnone, rfl, hlt, rfl, rfl⟩⟩ := step_cases hstep
  · obtain ⟨hbounded, hwork⟩ := bounded_work hb job
    have hjobs := weight_update s.jobs t (work c s.tasks job).2.1
    rw [hjob] at hjobs
    refine ⟨hbounded, ?_⟩
    simp only [remaining]
    omega
  · have hcall (i : ℕ) (arg : Option α) :
        Job.weight (Function.update s.jobs .consumer (some (.call i arg)) .producer) +
            Job.weight (Function.update s.jobs .consumer (some (.call i arg)) .consumer) =
          Job.weight (s.jobs .producer) + Job.weight (s.jobs .consumer) + 2 := by
      have hupdate := weight_update s.jobs .consumer (some (.call i arg))
      rw [hnone] at hupdate ⊢
      exact hupdate
    cases hready : (s.tasks s.attached).ready with
    | false =>
      rw [attach_of_not_ready hready]
      have hsum : _ = stored c s.tasks + 2 :=
        stored_update s.tasks hlt { s.tasks s.attached with continuation := true }
      dsimp only at hsum
      refine ⟨fun i hi => ?_, ?_⟩
      · dsimp only
        rw [Function.update_of_ne (by omega)]
        exact hb i hi
      · simp only [remaining]
        omega
    | true =>
      rw [attach, if_pos hready]
      split_ifs
      · refine ⟨hb, ?_⟩
        have hnext := hcall s.attached none
        simp only [remaining]
        omega
      · split
        · rename_i v _
          refine ⟨hb, ?_⟩
          have hnext := hcall s.attached (some v)
          simp only [remaining]
          omega
        · refine ⟨hb, ?_⟩
          simp only [remaining]
          omega

theorem length_le_of_run (hr : (machine c).Run (initial c) h s) : h.length ≤ 3 * c.length + 1 := by
  have hall := hr.invariant (I := fun k s => Bounded c s.tasks ∧ k.length + remaining c s ≤ 3 * c.length + 1) ?_ ?_
  · omega
  · refine ⟨fun _ _ => rfl, ?_⟩
    simp [remaining, stored, initial, SharedState.weight, Job.weight]
  · rintro k s t s' called ⟨hb, hlength⟩ _ hstep
    obtain ⟨hb', hlt⟩ := hb.step hstep
    refine ⟨hb', ?_⟩
    rw [List.length_append, List.length_singleton]
    omega

end Termination

section Outcomes

variable {α ε : Type}

/-- Every run comes to an end, and then the outcome has got through exactly if no exception had to pass a
continuation. -/
theorem propagated_iff (c : Chain α ε) (h : Trace Thread ℕ) (s : State α ε)
    (hr : (machine c).Run (initial c) h s) : h.length ≤ 3 * c.length + 1 ∧
      (Maximal c s → (Propagated c h s ↔ ∀ i < c.length, ∃ v, outcome c i = .ok v)) := by
  refine ⟨length_le_of_run hr, fun hmax => ?_⟩
  obtain ⟨m, hs, hcalm⟩ | ⟨l, hl, ⟨e, he⟩, hlost⟩ := reached_of_run hr
  · obtain ⟨hpropagated, hall⟩ := hs.propagated hcalm hmax
    exact iff_of_true hpropagated hall
  · refine iff_of_false (hlost.not_propagated hl he hmax) fun hall => ?_
    obtain ⟨v, hv⟩ := hall l hl
    exact nomatch he.symm.trans hv

def doubled (root : Except String ℕ) : Chain ℕ String where
  rootIsVoid := false
  root := root
  length := 2
  link _ := { isVoid := false, func := fun arg => .ok (2 * arg.getD 0) }

theorem maximal_iff {c : Chain α ε} {s : State α ε} :
    Maximal c s ↔ ((machine c).step s .producer).isNone = true ∧ ((machine c).step s .consumer).isNone = true := by
  simp only [Option.isNone_iff_eq_none]
  constructor
  · intro hmax
    exact ⟨hmax .producer, hmax .consumer⟩
  · rintro ⟨hproducer, hconsumer⟩ t
    cases t with
    | producer => exact hproducer
    | consumer => exact hconsumer

instance decidableMaximal {c : Chain α ε} {s : State α ε} : Decidable (Maximal c s) := decidable_of_iff _ maximal_iff.symm

theorem propagated_doubled : ∃ h s, (machine (doubled (.ok 21))).Run (initial (doubled (.ok 21))) h s ∧
    Propagated (doubled (.ok 21)) h s := by
  obtain ⟨h, s, hr, hmax⟩ := Machine.exists_run (machine (doubled (.ok 21))) (initial (doubled (.ok 21)))
    (fun _ s => Maximal (doubled (.ok 21)) s)
    [.consumer, .producer, .producer, .producer, .consumer, .consumer, .consumer] (by decide)
  have hok : ∀ i < (doubled (.ok 21)).length, ∃ v, outcome (doubled (.ok 21)) i = .ok v := fun i hi =>
    match i, hi with
    | 0, _ => ⟨21, rfl⟩
    | 1, _ => ⟨42, rfl⟩
  exact ⟨h, s, hr, ((propagated_iff _ h s hr).2 hmax).mpr hok⟩

/-- The root fails while a continuation waits for it, and the last task never becomes ready. -/
theorem not_propagated_failed : ∃ h s,
    (machine (doubled (.error "failed"))).Run (initial (doubled (.error "failed"))) h s ∧
      Maximal (doubled (.error "failed")) s ∧ (s.tasks 2).ready = false ∧
      ¬ Propagated (doubled (.error "failed")) h s := by
  obtain ⟨h, s, hr, hmax, hready⟩ := Machine.exists_run (machine (doubled (.error "failed")))
    (initial (doubled (.error "failed")))
    (fun _ s => Maximal (doubled (.error "failed")) s ∧ (s.tasks 2).ready = false)
    [.consumer, .consumer, .producer] (by decide)
  exact ⟨h, s, hr, hmax, hready, fun hp => nomatch hready.symm.trans (hp.settled 2 (Nat.le_refl 2)).ready⟩

end Outcomes

end Klett.Cunk.AsyncTask
