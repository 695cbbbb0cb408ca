import Klett.Cunk.TaskPlaces

namespace Klett.Cunk.ThreadPool

open Klett.Lib

section Steps

variable {σ κ : Type} [DecidableEq σ] {w g n : ℕ} {s t : State σ κ w g} {h : Trace (Action σ κ) Empty} {i : σ} {k : ℕ}
  {a : Action σ κ}

theorem update_comm_move {held : Place σ → List (Task κ)} {p q : Place σ} {task : Task κ} {rest : List (Task κ)}
    (hne : q ≠ p) :
    Function.update (Function.update held q (held q ++ [task])) p rest = Placement.move held p q task rest :=
  Function.update_comm hne _ _ _

theorem effect_submit (hcarried : Carried s (s.submitters i)) (hs : submit n s i = some t) :
    Effect s t (Fits h s (.submitter i)) := by
  cases hpc : s.submitters i with
  | idle => simp [submit, hpc] at hs
  | check task =>
    have hat : holding s (.submitter i) = [task] := by simp [holding, hpc, Submitter.tasks]
    simp only [submit, hpc] at hs
    split_ifs at hs
    · cases hs
      refine .carry (q := .dropped) hat (by simp) ?_ id rfl rfl (by simp only [Fits, hpc])
      rw [holding_atSubmitter, holding_drop]
      exact update_comm_move (by simp)
    · cases hs
      refine .quiet ?_ rfl rfl (by simp only [Fits, hpc])
      rw [holding_atSubmitter]
      exact Function.update_eq_self_iff.mpr hat.symm
  | ticket task =>
    have hat : holding s (.submitter i) = [task] := by simp [holding, hpc, Submitter.tasks]
    simp only [submit, hpc, Option.some.injEq] at hs
    subst hs
    refine .quiet ?_ rfl rfl (by simp only [Fits, hpc])
    change holding (s.atSubmitter i (.push task (s.nextWorker % n))) = holding s
    rw [holding_atSubmitter]
    exact Function.update_eq_self_iff.mpr hat.symm
  | push task idx =>
    have hat : holding s (.submitter i) = [task] := by simp [holding, hpc, Submitter.tasks]
    rw [hpc] at hcarried
    simp only [submit, hpc] at hs
    split at hs
    next q hpush =>
      cases hs
      have hheld : holding (((s.withQueue idx q).accept task).atSubmitter i .notify) =
          Placement.move (holding s) (.submitter i) (.queue idx) task [] := by
        rw [holding_atSubmitter, holding_accept, holding_withQueue, Fifo.tryPush_items hpush]
        exact update_comm_move (by simp)
      by_cases hstop : s.stop = true
      · exact .carry hat (by simp) hheld (fun _ => trivial) rfl (if_pos hstop) (by simp only [Fits, hpc])
      · refine .accept hat (by simp) hheld trivial rfl (if_neg hstop) ?_
        simp only [Fits, hpc, true_iff]
        exact hcarried
    · cases hs
      refine .empties hat ?_ rfl rfl (by simp only [Fits, hpc])
      exact holding_atSubmitter
  | overflow task =>
    have hat : holding s (.submitter i) = [task] := by simp [holding, hpc, Submitter.tasks]
    rw [hpc] at hcarried
    have hempty : task.callable = none := hcarried
    simp only [submit, hpc] at hs
    split at hs
    next q hpush =>
      cases hs
      have hheld : holding (((s.withGlobal q).accept task).atSubmitter i .notify) =
          Placement.move (holding s) (.submitter i) .global task [] := by
        rw [holding_atSubmitter, holding_accept, holding_withGlobal, Fifo.tryPush_items hpush]
        exact update_comm_move (by simp)
      have hroom : ¬g ≤ s.global.items.length := by
        rw [← Fifo.tryPush_eq_none (x := task), hpush]
        exact Option.some_ne_none q
      by_cases hstop : s.stop = true
      · exact .carry hat (by simp) hheld (fun _ => trivial) rfl (if_pos hstop) (by simp [Fits, hpc, hstop])
      · refine .accept hat (by simp) hheld trivial rfl (if_neg hstop) ?_
        simp [Fits, hpc, hroom, hstop, hempty]
    next hfull =>
      cases hs
      have hroom := Fifo.tryPush_eq_none.mp hfull
      refine .carry (q := .dropped) hat (by simp) ?_ id rfl rfl (by simp [Fits, hpc, hroom])
      rw [holding_atSubmitter, holding_drop]
      exact update_comm_move (by simp)
  | notify =>
    have hat : holding s (.submitter i) = [] := by simp [holding, hpc, Submitter.tasks]
    simp only [submit, hpc, Option.some.injEq] at hs
    subst hs
    refine .quiet ?_ rfl rfl (by simp only [Fits, hpc])
    rw [holding_atSubmitter]
    exact Function.update_eq_self_iff.mpr hat.symm

theorem effect_atWorker {u : Worker κ} {fits : Prop} (hfits : fits) (hold : (s.workers k).tasks = [])
    (hnew : u.tasks = []) : Effect s (s.atWorker k u) fits := by
  refine .quiet ?_ rfl rfl hfits
  rw [holding_atWorker, hnew]
  exact Function.update_eq_self_iff.mpr hold.symm

theorem effect_tryExecuteFrom {v : ℕ} {loop : Loop} {otherwise : Worker κ} {fits : Prop} (hfits : fits)
    (hold : (s.workers k).tasks = []) (hnew : otherwise.tasks = []) :
    Effect s (tryExecuteFrom s k v loop otherwise) fits := by
  rw [tryExecuteFrom]
  split
  next task q hpop =>
    have hat : holding s (.queue v) = task :: q.items := Fifo.tryPop_items hpop
    refine .carry (q := .worker k) hat (by simp) ?_ (fun _ => trivial) rfl rfl hfits
    have hnone : holding s (.worker k) = [] := hold
    rw [holding_atWorker, holding_withQueue, Placement.move, hnone]
    rfl
  · exact effect_atWorker hfits hold hnew

theorem effect_tryExecuteGlobal {loop : Loop} {otherwise : Worker κ} {fits : Prop} (hfits : fits)
    (hold : (s.workers k).tasks = []) (hnew : otherwise.tasks = []) :
    Effect s (tryExecuteGlobal s k loop otherwise) fits := by
  rw [tryExecuteGlobal]
  split
  next task q hpop =>
    have hat : holding s .global = task :: q.items := Fifo.tryPop_items hpop
    refine .carry (q := .worker k) hat (by simp) ?_ (fun _ => trivial) rfl rfl hfits
    have hnone : holding s (.worker k) = [] := hold
    rw [holding_atWorker, holding_withGlobal, Placement.move, hnone]
    rfl
  · exact effect_atWorker hfits hold hnew

theorem Loop.resume_tasks {loop : Loop} : (loop.resume : Worker κ).tasks = [] := by
  cases loop <;> rfl

theorem effect_workerLoop {fits : Prop} (hfits : fits) (hs : workerLoop n s k = some t) : Effect s t fits := by
  cases hpc : s.workers k with
  | check =>
    simp only [workerLoop, hpc, Option.some.injEq] at hs
    subst hs
    exact effect_atWorker hfits (by rw [hpc]; rfl) (by split <;> rfl)
  | own =>
    simp only [workerLoop, hpc, Option.some.injEq] at hs
    subst hs
    exact effect_tryExecuteFrom hfits (by rw [hpc]; rfl) rfl
  | steal i =>
    simp only [workerLoop, hpc] at hs
    split_ifs at hs
    · cases hs
      exact effect_tryExecuteFrom hfits (by rw [hpc]; rfl) rfl
    · cases hs
      exact effect_atWorker hfits (by rw [hpc]; rfl) rfl
  | global =>
    simp only [workerLoop, hpc, Option.some.injEq] at hs
    subst hs
    exact effect_tryExecuteGlobal hfits (by rw [hpc]; rfl) rfl
  | wait =>
    simp only [workerLoop, hpc, Option.some.injEq] at hs
    subst hs
    exact effect_atWorker hfits (by rw [hpc]; rfl) rfl
  | call task loop =>
    have hat : holding s (.worker k) = [task] := by simp [holding, hpc, Worker.tasks]
    simp only [workerLoop, hpc, Option.some.injEq] at hs
    subst hs
    refine .carry (q := .executed) hat (by simp) ?_ (fun _ => trivial) rfl rfl hfits
    rw [holding_atWorker, holding_execute]
    exact update_comm_move (by simp)
  | running loop =>
    simp only [workerLoop, hpc, Option.some.injEq] at hs
    subst hs
    exact effect_atWorker hfits (by rw [hpc]; rfl) Loop.resume_tasks
  | drainOwn =>
    simp only [workerLoop, hpc, Option.some.injEq] at hs
    subst hs
    exact effect_tryExecuteFrom hfits (by rw [hpc]; rfl) rfl
  | drainGlobal =>
    simp only [workerLoop, hpc, Option.some.injEq] at hs
    subst hs
    exact effect_tryExecuteGlobal hfits (by rw [hpc]; rfl) rfl
  | done => simp [workerLoop, hpc] at hs

theorem effect_act (hcarried : ∀ i, Carried s (s.submitters i)) (hs : act n s a = some t) :
    Effect s t (Fits h s a) := by
  cases a with
  | submit i callable =>
    cases hpc : s.submitters i <;> simp only [act, hpc, reduceCtorEq, Option.some.injEq] at hs
    subst hs
    refine .fresh (i := i) (by simp [holding, hpc, Submitter.tasks]) ?_ rfl rfl trivial
    exact holding_atSubmitter
  | submitter i => exact effect_submit (hcarried i) hs
  | worker k =>
    simp only [act] at hs
    split_ifs at hs
    exact effect_workerLoop trivial hs
  | shutdown =>
    cases hs
    exact .quiet rfl rfl rfl trivial

end Steps

section Submitters

variable {σ κ : Type} [DecidableEq σ] {w g n : ℕ} {s t : State σ κ w g} {i : σ}

structure Submitting (n : ℕ) (s t : State σ κ w g) (i : σ) : Prop where
  workers : t.workers = s.workers
  stop : t.stop = s.stop
  submitted : t.submitted = s.submitted
  accepted : s.stop = true → t.accepted = s.accepted
  queues : ∀ v, ∀ task ∈ (t.queues v).items, task ∈ (s.queues v).items ∨ task ∈ holding s (.submitter i) ∧ v < n
  global : ∀ task ∈ t.global.items, task ∈ s.global.items ∨ task ∈ holding s (.submitter i)
  next : ∃ p, t.submitters = Function.update s.submitters i p ∧ Carried s p ∧ ∀ task idx, p = .push task idx → idx < n

theorem Submitting.moved {p : Submitter κ} (hworkers : t.workers = s.workers) (hstop : t.stop = s.stop)
    (hsubmitted : t.submitted = s.submitted) (haccepted : t.accepted = s.accepted) (hqueues : t.queues = s.queues)
    (hglobal : t.global = s.global) (hsubmitters : t.submitters = Function.update s.submitters i p)
    (hcarried : Carried s p) (hp : ∀ task idx, p = .push task idx → idx < n) : Submitting n s t i := by
  refine ⟨hworkers, hstop, hsubmitted, fun _ => haccepted, ?_, ?_, p, hsubmitters, hcarried, hp⟩
  · intro v task htask
    rw [hqueues] at htask
    exact .inl htask
  · intro task htask
    rw [hglobal] at htask
    exact .inl htask

theorem submitting (hn : 0 < n) (hcarried : Carried s (s.submitters i))
    (hranged : ∀ task idx, s.submitters i = .push task idx → idx < n) (hs : submit n s i = some t) :
    Submitting n s t i := by
  cases hpc : s.submitters i with
  | idle => simp [submit, hpc] at hs
  | check task =>
    rw [hpc] at hcarried
    simp only [submit, hpc] at hs
    split_ifs at hs
    · cases hs
      exact .moved rfl rfl rfl rfl rfl rfl rfl trivial (by simp)
    · cases hs
      exact .moved (p := .ticket task) rfl rfl rfl rfl rfl rfl rfl hcarried (by simp)
  | ticket task =>
    rw [hpc] at hcarried
    simp only [submit, hpc, Option.some.injEq] at hs
    subst hs
    refine .moved (p := .push task (s.nextWorker % n)) rfl rfl rfl rfl rfl rfl rfl hcarried ?_
    rintro _ _ ⟨⟩
    exact Nat.mod_lt _ hn
  | push task idx =>
    have hidx := hranged task idx hpc
    simp only [submit, hpc] at hs
    split at hs
    next q hpush =>
      cases hs
      refine ⟨rfl, rfl, rfl, fun hstop => if_pos hstop, ?_, fun _ h => .inl h, _, rfl, trivial, by simp⟩
      intro v other hother
      obtain rfl | hne := eq_or_ne v idx
      · have hitems : other ∈ q.items := by simpa [State.atSubmitter, State.accept, State.withQueue] using hother
        rw [Fifo.tryPush_items hpush, List.mem_append] at hitems
        refine hitems.imp id fun hnew => ⟨?_, hidx⟩
        simpa [holding, hpc, Submitter.tasks] using hnew
      · have hitems : other ∈ (s.queues v).items := by
          simpa [State.atSubmitter, State.accept, State.withQueue, hne] using hother
        exact .inl hitems
    · cases hs
      exact .moved (p := .overflow task.movedFrom) rfl rfl rfl rfl rfl rfl rfl rfl (by simp)
  | overflow task =>
    simp only [submit, hpc] at hs
    split at hs
    next q hpush =>
      cases hs
      refine ⟨rfl, rfl, rfl, fun hstop => if_pos hstop, fun _ _ h => .inl h, ?_, _, rfl, trivial, by simp⟩
      intro other hother
      have hitems : other ∈ q.items := hother
      rw [Fifo.tryPush_items hpush, List.mem_append] at hitems
      refine hitems.imp id fun hnew => ?_
      simpa [holding, hpc, Submitter.tasks] using hnew
    · cases hs
      exact .moved rfl rfl rfl rfl rfl rfl rfl trivial (by simp)
  | notify =>
    simp only [submit, hpc, Option.some.injEq] at hs
    subst hs
    exact .moved rfl rfl rfl rfl rfl rfl rfl trivial (by simp)

end Submitters

section Workers

variable {σ κ : Type} {w g n : ℕ} {s t : State σ κ w g} {k : ℕ}

/-- Whatever a worker does, tasks only leave the queues, and its phase goes up when there is nothing to wait for. -/
structure Working (s t : State σ κ w g) (k : ℕ) : Prop where
  submitters : t.submitters = s.submitters
  stop : t.stop = s.stop
  submitted : t.submitted = s.submitted
  accepted : t.accepted = s.accepted
  queues : ∀ v, (t.queues v).items ⊆ (s.queues v).items
  global : t.global.items ⊆ s.global.items
  next : ∃ u, t.workers = Function.update s.workers k u ∧
    (1 ≤ u.phase → 1 ≤ (s.workers k).phase ∨ s.stop = true) ∧
    (2 ≤ u.phase → 2 ≤ (s.workers k).phase ∨ (s.queues k).items = []) ∧
    (3 ≤ u.phase → 3 ≤ (s.workers k).phase ∨ s.global.items = [])

theorem working_atWorker {u : Worker κ} (hone : 1 ≤ u.phase → 1 ≤ (s.workers k).phase ∨ s.stop = true)
    (htwo : 2 ≤ u.phase → 2 ≤ (s.workers k).phase ∨ (s.queues k).items = [])
    (hthree : 3 ≤ u.phase → 3 ≤ (s.workers k).phase ∨ s.global.items = []) : Working s (s.atWorker k u) k :=
  ⟨rfl, rfl, rfl, rfl, fun _ => List.Subset.refl _, List.Subset.refl _, u, rfl, hone, htwo, hthree⟩

theorem working_same {u : Worker κ} (hphase : u.phase ≤ (s.workers k).phase) : Working s (s.atWorker k u) k :=
  working_atWorker (fun h => .inl (h.trans hphase)) (fun h => .inl (h.trans hphase)) fun h => .inl (h.trans hphase)

theorem working_tryExecuteFrom {v : ℕ} {loop : Loop} {otherwise : Worker κ} (hloop : loop.phase ≤ (s.workers k).phase)
    (hotherwise : (s.queues v).items = [] → Working s (s.atWorker k otherwise) k) :
    Working s (tryExecuteFrom s k v loop otherwise) k := by
  rw [tryExecuteFrom]
  split
  next task q hpop =>
    have hitems := Fifo.tryPop_items hpop
    refine ⟨rfl, rfl, rfl, rfl, ?_, List.Subset.refl _, _, rfl, fun h => .inl (h.trans hloop),
      fun h => .inl (h.trans hloop), fun h => .inl (h.trans hloop)⟩
    intro v' other hother
    obtain rfl | hne := eq_or_ne v' v
    · have hleft : other ∈ q.items := by simpa [State.atWorker, State.withQueue] using hother
      rw [hitems]
      exact List.mem_cons_of_mem task hleft
    · simpa [State.atWorker, State.withQueue, hne] using hother
  next hnone => exact hotherwise (Fifo.tryPop_eq_none.mp hnone)

theorem working_tryExecuteGlobal {loop : Loop} {otherwise : Worker κ} (hloop : loop.phase ≤ (s.workers k).phase)
    (hotherwise : s.global.items = [] → Working s (s.atWorker k otherwise) k) :
    Working s (tryExecuteGlobal s k loop otherwise) k := by
  rw [tryExecuteGlobal]
  split
  next task q hpop =>
    have hitems := Fifo.tryPop_items hpop
    refine ⟨rfl, rfl, rfl, rfl, fun _ => List.Subset.refl _, ?_, _, rfl, fun h => .inl (h.trans hloop),
      fun h => .inl (h.trans hloop), fun h => .inl (h.trans hloop)⟩
    rw [hitems]
    exact List.subset_cons_self task q.items
  next hnone => exact hotherwise (Fifo.tryPop_eq_none.mp hnone)

theorem Loop.resume_phase {loop : Loop} : (loop.resume : Worker κ).phase = loop.phase := by
  cases loop <;> rfl

theorem Worker.eq_done {u : Worker κ} (hphase : u.phase = 3) : u = .done := by
  cases u with
  | done => rfl
  | call task loop | running loop => cases loop <;> cases hphase
  | check | own | steal | global | wait | drainOwn | drainGlobal => cases hphase

theorem working (hs : workerLoop n s k = some t) : Working s t k := by
  cases hpc : s.workers k with
  | check =>
    simp only [workerLoop, hpc, Option.some.injEq] at hs
    subst hs
    split_ifs with hstop
    · apply working_atWorker (fun _ => .inr hstop) <;>
        exact fun h => absurd h (by simp [Worker.phase])
    · exact working_same (Nat.zero_le _)
  | own =>
    simp only [workerLoop, hpc, Option.some.injEq] at hs
    subst hs
    exact working_tryExecuteFrom (Nat.zero_le _) fun _ => working_same (Nat.zero_le _)
  | steal i =>
    simp only [workerLoop, hpc] at hs
    split_ifs at hs
    · cases hs
      exact working_tryExecuteFrom (Nat.zero_le _) fun _ => working_same (Nat.zero_le _)
    · cases hs
      exact working_same (Nat.zero_le _)
  | global =>
    simp only [workerLoop, hpc, Option.some.injEq] at hs
    subst hs
    exact working_tryExecuteGlobal (Nat.zero_le _) fun _ => working_same (Nat.zero_le _)
  | wait =>
    simp only [workerLoop, hpc, Option.some.injEq] at hs
    subst hs
    exact working_same (Nat.zero_le _)
  | call task loop =>
    simp only [workerLoop, hpc, Option.some.injEq] at hs
    subst hs
    have hsame : (Worker.running loop : Worker κ).phase = (s.workers k).phase := by rw [hpc]; rfl
    exact { working_same hsame.le with }
  | running loop =>
    simp only [workerLoop, hpc, Option.some.injEq] at hs
    subst hs
    exact working_same (by rw [hpc, Loop.resume_phase]; rfl)
  | drainOwn =>
    simp only [workerLoop, hpc, Option.some.injEq] at hs
    subst hs
    refine working_tryExecuteFrom (by rw [hpc]; rfl) fun hempty => ?_
    apply working_atWorker (fun _ => .inl (by rw [hpc]; rfl)) fun _ => .inr hempty
    exact fun h => absurd h (by simp [Worker.phase])
  | drainGlobal =>
    simp only [workerLoop, hpc, Option.some.injEq] at hs
    subst hs
    refine working_tryExecuteGlobal (by rw [hpc]; rfl) fun hempty => ?_
    apply working_atWorker _ (fun _ => .inl (by rw [hpc]; rfl)) fun _ => .inr hempty
    exact fun _ => .inl (by rw [hpc]; exact Nat.le_succ 1)
  | done => simp [workerLoop, hpc] at hs

end Workers

section Runs

variable {σ κ : Type} [DecidableEq σ] {w g n : ℕ} {s t : State σ κ w g} {h : Trace (Action σ κ) Empty} {i : σ} {k : ℕ}
  {a : Action σ κ}

omit [DecidableEq σ] in
theorem Carried.mono {p : Submitter κ} (h : Carried s p) (hsubmitted : s.submitted <+: t.submitted) : Carried t p := by
  cases p with
  | check task | ticket task | push task idx =>
    obtain ⟨rest, hrest⟩ := hsubmitted
    have hlt := (List.getElem?_eq_some_iff.mp h).1
    rw [Carried, ← hrest, List.getElem?_append_left hlt]
    exact h
  | idle | overflow | notify => exact h

theorem Sound.submitting (h : Sound n s) (hn : 0 < n) (hs : submit n s i = some t) : Submitting n s t i :=
  ThreadPool.submitting hn (h.carried i) (h.ranged.submitters i) hs

theorem Sound.submit (h : Sound n s) (hplaced : Placed t) (hstep : Submitting n s t i) : Sound n t := by
  obtain ⟨p, hsubmitters, hcarried, hidx⟩ := hstep.next
  have hprefix : s.submitted <+: t.submitted := hstep.submitted ▸ List.prefix_rfl
  constructor
  case placed => exact hplaced
  case carried =>
    rw [hsubmitters]
    apply (Function.forall_update_iff _ (fun _ (x : Submitter κ) => Carried t x)).mpr
    exact ⟨hcarried.mono hprefix, fun j _ => (h.carried j).mono hprefix⟩
  case ranged =>
    constructor
    case workers =>
      rw [hstep.workers]
      exact h.ranged.workers
    case queues =>
      intro v hv
      apply List.eq_nil_iff_forall_not_mem.mpr
      intro task htask
      obtain hold | ⟨-, hlt⟩ := hstep.queues v task htask
      · rw [h.ranged.queues v hv] at hold
        cases hold
      · omega
    case submitters =>
      rw [hsubmitters]
      apply (Function.forall_update_iff _ (fun _ (x : Submitter κ) => ∀ task idx, x = .push task idx → idx < n)).mpr
      exact ⟨hidx, fun j _ => h.ranged.submitters j⟩
  case drained =>
    constructor
    case stop =>
      rw [hstep.workers, hstep.stop]
      exact h.drained.stop
    case own =>
      rw [hstep.workers]
      intro k hk task htask
      rw [hstep.accepted (h.drained.stop k ((Nat.le_succ 1).trans hk))]
      obtain hold | ⟨hnew, -⟩ := hstep.queues k task htask
      · exact h.drained.own k hk task hold
      · exact h.placed.outside hnew
    case global =>
      rw [hstep.workers]
      intro k hk task htask
      rw [hstep.accepted (h.drained.stop k ((Nat.le_add_left 1 2).trans hk))]
      obtain hold | hnew := hstep.global task htask
      · exact h.drained.global k hk task hold
      · exact h.placed.outside hnew

omit [DecidableEq σ] in
theorem Sound.work (h : Sound n s) (hplaced : Placed t) (hk : k < n) (hstep : Working s t k) : Sound n t := by
  obtain ⟨u, hworkers, hone, htwo, hthree⟩ := hstep.next
  have hprefix : s.submitted <+: t.submitted := hstep.submitted ▸ List.prefix_rfl
  constructor
  case placed => exact hplaced
  case carried =>
    rw [hstep.submitters]
    exact fun i => (h.carried i).mono hprefix
  case ranged =>
    constructor
    case workers =>
      intro v hv
      rw [hworkers, Function.update_of_ne (by omega)]
      exact h.ranged.workers v hv
    case queues =>
      intro v hv
      have hsubset := hstep.queues v
      rw [h.ranged.queues v hv] at hsubset
      exact List.subset_nil.mp hsubset
    case submitters =>
      rw [hstep.submitters]
      exact h.ranged.submitters
  case drained =>
    constructor
    case stop =>
      rw [hworkers, hstep.stop]
      apply (Function.forall_update_iff _ (fun _ (x : Worker κ) => 1 ≤ x.phase → s.stop = true)).mpr
      exact ⟨fun hu => (hone hu).elim (h.drained.stop k) id, fun v _ => h.drained.stop v⟩
    case own =>
      rw [hworkers, hstep.accepted]
      have hleft (v : ℕ) (hv : 2 ≤ (s.workers v).phase ∨ (s.queues v).items = []) :
          ∀ task ∈ (t.queues v).items, task.id ∉ s.accepted := by
        intro task htask
        obtain hphase | hempty := hv
        · exact h.drained.own v hphase task (hstep.queues v htask)
        · have hnil := hstep.queues v htask
          rw [hempty] at hnil
          cases hnil
      apply (Function.forall_update_iff _
        (fun v (x : Worker κ) => 2 ≤ x.phase → ∀ task ∈ (t.queues v).items, task.id ∉ s.accepted)).mpr
      exact ⟨fun hu => hleft k (htwo hu), fun v _ hphase => hleft v (.inl hphase)⟩
    case global =>
      rw [hworkers, hstep.accepted]
      have hleft (v : ℕ) (hv : 3 ≤ (s.workers v).phase ∨ s.global.items = []) :
          ∀ task ∈ t.global.items, task.id ∉ s.accepted := by
        intro task htask
        obtain hphase | hempty := hv
        · exact h.drained.global v hphase task (hstep.global htask)
        · have hnil := hstep.global htask
          rw [hempty] at hnil
          cases hnil
      apply (Function.forall_update_iff _
        (fun _ (x : Worker κ) => 3 ≤ x.phase → ∀ task ∈ t.global.items, task.id ∉ s.accepted)).mpr
      exact ⟨fun hu => hleft k (hthree hu), fun v _ hphase => hleft v (.inl hphase)⟩

theorem Sound.act (h : Sound n s) (hn : 0 < n) (hs : act n s a = some t) : Sound n t := by
  have hplaced := (effect_act (h := []) h.carried hs).placed h.placed
  cases a with
  | submit i callable =>
    cases hpc : s.submitters i <;> simp only [ThreadPool.act, hpc, reduceCtorEq, Option.some.injEq] at hs
    subst hs
    have hprefix : s.submitted <+: s.submitted ++ [callable] := List.prefix_append ..
    refine ⟨hplaced, ?_, ⟨h.ranged.workers, h.ranged.queues, ?_⟩, { h.drained with }⟩
    · apply (Function.forall_update_iff _ (fun _ x => Carried _ x)).mpr
      exact ⟨List.getElem?_concat_length .., fun j _ => (h.carried j).mono hprefix⟩
    · apply (Function.forall_update_iff _ (fun _ (x : Submitter κ) => ∀ task idx, x = .push task idx → idx < n)).mpr
      exact ⟨nofun, fun j _ => h.ranged.submitters j⟩
  | submitter i => exact h.submit hplaced (h.submitting hn hs)
  | worker k =>
    simp only [ThreadPool.act] at hs
    split_ifs at hs with hk
    exact h.work hplaced hk (working hs)
  | shutdown =>
    cases hs
    exact ⟨hplaced, h.carried, { h.ranged with }, ⟨fun _ _ => rfl, h.drained.own, h.drained.global⟩⟩

omit [DecidableEq σ] in
theorem sound_initial : Sound n ({} : State σ κ w g) where
  placed := by
    have hnone (p : Place σ) : holding ({} : State σ κ w g) p = [] := by cases p <;> rfl
    refine ⟨⟨?_, nofun, ?_, ?_⟩, nofun, ?_⟩
    · intro p x hx
      rw [hnone] at hx
      cases hx
    · intro p q x hx
      rw [hnone] at hx
      cases hx
    · intro p
      rw [hnone]
      exact List.nodup_nil
    · nofun
  carried _ := trivial
  ranged := ⟨fun _ _ => rfl, fun _ _ => rfl, nofun⟩
  drained := ⟨fun _ h => absurd h (by simp [Worker.phase]), nofun, nofun⟩

theorem Sound.reached (hn : 0 < n) (hr : (machine n).Run ({} : State σ κ w g) h s) : Sound n s := by
  apply hr.invariant (I := fun _ s => Sound n s)
  · exact sound_initial
  · intro run s a t events hsound _ hstep
    obtain ⟨u, hact, heq⟩ := Option.map_eq_some_iff.mp hstep
    cases heq
    exact hsound.act hn hact

theorem intact_iff (hn : 0 < n) (hr : (machine n).Run ({} : State σ κ w g) h s) :
    Intact s ↔ (machine n).Reach Fits {} h s := by
  apply hr.iff_guarded (J := Intact)
  · nofun
  · intro run s a t events hrun hstep
    obtain ⟨u, hact, heq⟩ := Option.map_eq_some_iff.mp hstep
    cases heq
    have hsound := Sound.reached hn hrun
    exact (effect_act hsound.carried hact).intact_iff hsound.placed

end Runs

section Results

variable {σ κ : Type} [DecidableEq σ] {hardware : ℕ} {config : ThreadPoolConfig} {h : Trace (Action σ κ) Empty}
  {s : Pool σ κ config}

theorem workerCount_pos : 0 < workerCount hardware config := by
  unfold workerCount
  split_ifs <;> omega

theorem pool_delivers_iff (hr : (pool σ κ hardware config).Run {} h s) :
    Delivered (workerCount hardware config) s ↔ (pool σ κ hardware config).Reach Fits {} h s :=
  ((Sound.reached workerCount_pos hr).delivered_iff workerCount_pos).trans (intact_iff workerCount_pos hr)

/-- One worker with queues of two places. -/
def small : ThreadPoolConfig := { numThreads := 1, workerQueueSize := 2, globalQueueSize := 2 }

/-- A call of `submit` that a queue takes at once. -/
def submission (callable : κ) : List (Action Unit κ) :=
  [.submit () (some callable), .submitter (), .submitter (), .submitter (), .submitter ()]

theorem pool_delivers_two : ∃ h, ∃ s : Pool Unit ℕ small, (pool Unit ℕ 8 small).Run {} h s ∧
    s.executed = [⟨0, some 10⟩, ⟨1, some 11⟩] ∧ s.workers 0 = .done ∧
      (Delivered (workerCount 8 small) s ↔ (pool Unit ℕ 8 small).Reach Fits {} h s) := by
  obtain ⟨h, s, hr, hexecuted, hdone⟩ := Machine.exists_run (pool Unit ℕ 8 small) {}
    (fun _ s => s.executed = [⟨0, some 10⟩, ⟨1, some 11⟩] ∧ (s.workers 0).phase = 3)
    (submission 10 ++ submission 11 ++ .shutdown :: List.replicate 9 (.worker 0)) (by decide +kernel)
  exact ⟨h, s, hr, hexecuted, Worker.eq_done hdone, pool_delivers_iff hr⟩

/-- The third task finds the queue of the worker full. What the worker calls in its place is empty. -/
theorem pool_executes_empty : ∃ h, ∃ s : Pool Unit ℕ small, (pool Unit ℕ 8 small).Run {} h s ∧
    s.submitted = [some 10, some 11, some 12] ∧ s.accepted = [0, 1, 2] ∧
      s.executed = [⟨0, some 10⟩, ⟨1, some 11⟩, ⟨2, none⟩] ∧ ¬Delivered (workerCount 8 small) s := by
  obtain ⟨h, s, hr, hsubmitted, haccepted, hexecuted⟩ := Machine.exists_run (pool Unit ℕ 8 small) {}
    (fun _ s => s.submitted = [some 10, some 11, some 12] ∧ s.accepted = [0, 1, 2] ∧
      s.executed = [⟨0, some 10⟩, ⟨1, some 11⟩, ⟨2, none⟩])
    (submission 10 ++ submission 11 ++ submission 12 ++ .submitter () :: .shutdown :: List.replicate 12 (.worker 0))
    (by decide +kernel)
  refine ⟨h, s, hr, hsubmitted, haccepted, hexecuted, fun hdelivered => ?_⟩
  have hown := hdelivered.own ⟨2, none⟩ (by rw [hexecuted]; simp) (by rw [haccepted]; simp)
  rw [hsubmitted] at hown
  cases hown

end Results

end Klett.Cunk.ThreadPool
