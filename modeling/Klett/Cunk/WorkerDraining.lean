import Klett.Cunk.TaskDelivery
import Klett.Lib.Parties

namespace Klett.Cunk.ThreadPool

open Klett.Lib

section Measure

variable {σ κ β : Type} {w g n k v : ℕ} {s t : State σ κ w g}

/-- How many steps a worker takes to its end when nothing is left to execute. -/
def Worker.rank (n : ℕ) : Worker κ → ℕ
  | .own => 6 + n
  | .steal i => 6 + (n - i)
  | .global => 5
  | .wait => 4
  | .check => 3
  | .drainOwn => 2
  | .drainGlobal => 1
  | .done => 0
  | .call _ loop => 5 - loop.phase
  | .running loop => 4 - loop.phase

def queued (n : ℕ) (s : State σ κ w g) : ℕ := ∑ v ∈ Finset.range n, (s.queues v).items.length + s.global.items.length

/-- A task that is taken from a queue is called and returned from, and then its queue is looked at once more. -/
def remaining (n : ℕ) (s : State σ κ w g) : ℕ := ∑ k ∈ Finset.range n, (s.workers k).rank n + 3 * queued n s

theorem remaining_atWorker {u : Worker κ} (hk : k < n) :
    remaining n (s.atWorker k u) + (s.workers k).rank n = remaining n s + u.rank n := by
  have hsum := sum_update (Worker.rank n) s.workers u (Finset.mem_range.mpr hk)
  simp only [remaining, queued, State.atWorker]
  omega

theorem remaining_withQueue {q : Fifo (Task κ) w} (hv : v < n) :
    remaining n (s.withQueue v q) + 3 * (s.queues v).items.length = remaining n s + 3 * q.items.length := by
  have hsum := sum_update (fun q : Fifo (Task κ) w => q.items.length) s.queues q (Finset.mem_range.mpr hv)
  simp only [remaining, queued, State.withQueue]
  omega

theorem remaining_withGlobal {q : Fifo (Task κ) g} :
    remaining n (s.withGlobal q) + 3 * s.global.items.length = remaining n s + 3 * q.items.length := by
  simp only [remaining, queued, State.withGlobal]
  omega

theorem remaining_tryExecuteFrom {loop : Loop} {otherwise : Worker κ} (hk : k < n) (hv : v < n)
    (hloop : 5 - loop.phase < (s.workers k).rank n + 3) (hotherwise : otherwise.rank n < (s.workers k).rank n) :
    remaining n (tryExecuteFrom s k v loop otherwise) < remaining n s := by
  rw [tryExecuteFrom]
  split
  next task q hpop =>
    have hlength := congrArg List.length (Fifo.tryPop_items hpop)
    have hqueue := remaining_withQueue (s := s) (q := q) hv
    have hworker := remaining_atWorker (s := s.withQueue v q) (u := .call task loop) hk
    have hsame : (s.withQueue v q).workers = s.workers := rfl
    rw [List.length_cons] at hlength
    rw [hsame, Worker.rank] at hworker
    omega
  · have hworker := remaining_atWorker (s := s) (u := otherwise) hk
    omega

theorem remaining_tryExecuteGlobal {loop : Loop} {otherwise : Worker κ} (hk : k < n)
    (hloop : 5 - loop.phase < (s.workers k).rank n + 3) (hotherwise : otherwise.rank n < (s.workers k).rank n) :
    remaining n (tryExecuteGlobal s k loop otherwise) < remaining n s := by
  rw [tryExecuteGlobal]
  split
  next task q hpop =>
    have hlength := congrArg List.length (Fifo.tryPop_items hpop)
    have hqueue := remaining_withGlobal (n := n) (s := s) (q := q)
    have hworker := remaining_atWorker (s := s.withGlobal q) (u := .call task loop) hk
    have hsame : (s.withGlobal q).workers = s.workers := rfl
    rw [List.length_cons] at hlength
    rw [hsame, Worker.rank] at hworker
    omega
  · have hworker := remaining_atWorker (s := s) (u := otherwise) hk
    omega

theorem Loop.resume_rank {loop : Loop} : (loop.resume : Worker κ).rank n = 3 - loop.phase := by
  cases loop <;> rfl

/-- Once shutdown has been requested, each step of a worker brings it nearer to its end. -/
theorem remaining_workerLoop (hstop : s.stop = true) (hk : k < n) (hs : workerLoop n s k = some t) :
    remaining n t < remaining n s := by
  have hat (u : Worker κ) := remaining_atWorker (s := s) (u := u) hk
  cases hpc : s.workers k with
  | check =>
    simp only [workerLoop, hpc, hstop, ↓reduceIte, Option.some.injEq] at hs
    subst hs
    have := hat .drainOwn
    simp only [hpc, Worker.rank] at this
    omega
  | own =>
    simp only [workerLoop, hpc, Option.some.injEq] at hs
    subst hs
    apply remaining_tryExecuteFrom hk hk <;> simp only [hpc, Worker.rank, Loop.phase] <;> omega
  | steal i =>
    simp only [workerLoop, hpc] at hs
    split_ifs at hs
    · cases hs
      apply remaining_tryExecuteFrom hk (Nat.mod_lt _ (by omega)) <;> simp only [hpc, Worker.rank, Loop.phase] <;> omega
    · cases hs
      have := hat .global
      simp only [hpc, Worker.rank] at this
      omega
  | global =>
    simp only [workerLoop, hpc, Option.some.injEq] at hs
    subst hs
    apply remaining_tryExecuteGlobal hk <;> simp only [hpc, Worker.rank, Loop.phase] <;> omega
  | wait =>
    simp only [workerLoop, hpc, Option.some.injEq] at hs
    subst hs
    have := hat .check
    simp only [hpc, Worker.rank] at this
    omega
  | call task loop =>
    simp only [workerLoop, hpc, Option.some.injEq] at hs
    subst hs
    have hphase : loop.phase ≤ 2 := by cases loop <;> decide
    have := hat (.running loop)
    simp only [hpc, Worker.rank] at this
    change remaining n (s.atWorker k (.running loop)) < _
    omega
  | running loop =>
    simp only [workerLoop, hpc, Option.some.injEq] at hs
    subst hs
    have hphase : loop.phase ≤ 2 := by cases loop <;> decide
    have := hat loop.resume
    rw [hpc, Loop.resume_rank, Worker.rank] at this
    omega
  | drainOwn =>
    simp only [workerLoop, hpc, Option.some.injEq] at hs
    subst hs
    apply remaining_tryExecuteFrom hk hk <;> simp only [hpc, Worker.rank, Loop.phase] <;> omega
  | drainGlobal =>
    simp only [workerLoop, hpc, Option.some.injEq] at hs
    subst hs
    apply remaining_tryExecuteGlobal hk <;> simp only [hpc, Worker.rank, Loop.phase] <;> omega
  | done => simp [workerLoop, hpc] at hs

end Measure

section Finish

variable {σ κ : Type} [DecidableEq σ] {w g n k : ℕ} {s : State σ κ w g}

omit [DecidableEq σ] in
theorem exists_workerLoop (hnot : s.workers k ≠ .done) : ∃ t, workerLoop n s k = some t := by
  cases hpc : s.workers k with
  | done => exact absurd hpc hnot
  | steal i => by_cases hi : i < n <;> simp [workerLoop, hpc, hi]
  | check | own | global | wait | call | running | drainOwn | drainGlobal => simp [workerLoop, hpc]

theorem step_worker (hk : k < n) {t : State σ κ w g} (hs : workerLoop n s k = some t) :
    (machine n).step s (.worker k) = some (t, []) := by
  simp [machine, act, hk, hs]

/-- After a request for shutdown the workers come to their ends, no matter in which order they take their steps. -/
theorem workers_bounded {ks : List ℕ} {h : Trace (Action σ κ) Empty} {t : State σ κ w g} (hstop : s.stop = true)
    (hexec : (machine n).exec s (ks.map .worker) = some (h, t)) : remaining n t + ks.length ≤ remaining n s := by
  induction ks generalizing s h with
  | nil =>
    obtain ⟨-, rfl⟩ : [] = h ∧ s = t := by simpa [Machine.exec] using hexec
    exact Nat.le_refl _
  | cons k ks ih =>
    rw [List.map_cons, Machine.exec] at hexec
    split at hexec
    · cases hexec
    next u events hstep =>
      obtain ⟨⟨h', t'⟩, hrest, heq⟩ := Option.map_eq_some_iff.mp hexec
      cases heq
      obtain ⟨u', hact, heq⟩ := Option.map_eq_some_iff.mp hstep
      cases heq
      simp only [act] at hact
      split_ifs at hact with hk
      have hlt := remaining_workerLoop hstop hk hact
      have hle := ih ((working hact).stop.trans hstop) hrest
      rw [List.length_cons]
      omega

theorem workers_finish (hstop : s.stop = true) :
    ∃ (ks : List ℕ) (h : Trace (Action σ κ) Empty) (t : State σ κ w g),
      (machine n).exec s (ks.map .worker) = some (h, t) ∧ ∀ k < n, t.workers k = .done := by
  induction hm : remaining n s using Nat.strong_induction_on generalizing s with
  | _ m ih =>
    subst hm
    by_cases hdone : ∀ k < n, s.workers k = .done
    · exact ⟨[], [], s, rfl, hdone⟩
    push Not at hdone
    obtain ⟨k, hk, hnot⟩ := hdone
    obtain ⟨t, ht⟩ := exists_workerLoop (n := n) hnot
    obtain ⟨ks, h, u, hexec, hu⟩ := ih _ (remaining_workerLoop hstop hk ht) ((working ht).stop.trans hstop) rfl
    refine ⟨k :: ks, (.worker k, []) :: h, u, ?_, hu⟩
    simp [Machine.exec, step_worker hk ht, hexec]

end Finish

end Klett.Cunk.ThreadPool
