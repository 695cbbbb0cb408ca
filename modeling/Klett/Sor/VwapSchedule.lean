import Mathlib.Algebra.BigOperators.Group.Finset.Basic
import Klett.Lib.Machine
import Klett.Sor.Vwap

namespace Klett.Sor.Vwap

open Klett.Lib

section Pacing

variable (v : Vwap)

/-- `compute_slice_quantity` with any integers for its two products: the accelerated slice and the
participation cap. -/
def computeSliceQuantityWith (accelerated capped : ℤ) : ℤ :=
  if v.totalQuantity ≤ 0 ∨ v.config.numSlices = 0 then 0
  else if v.remaining ≤ 0 then 0
  else
    let paced :=
      if v.config.maxParticipationRate > 0 ∧ v.config.maxParticipationRate < 1 then min accelerated (max 1 capped)
      else accelerated
    max 1 (min paced v.remaining)

theorem computeSliceQuantity_eq (P : Platform) (now : ℤ) : v.computeSliceQuantity P now =
    v.computeSliceQuantityWith
      (Platform.truncate (P.mul (P.ofInt (max 1 (v.totalQuantity.tdiv v.config.numSlices))) (v.acceleration P now)))
      (Platform.truncate (P.mul (P.ofInt v.totalQuantity) v.config.maxParticipationRate)) := rfl

theorem getNextSlice_quantity {P : Platform} {order : Order} {nbbo : Nbbo} {book : AggregatedBook}
    {venues : List VenueScore} {now : ℤ} : ∀ s ∈ (v.getNextSlice P order nbbo book venues now).slices,
      ∃ reading : ℤ × ℤ, s.quantity = v.computeSliceQuantityWith reading.1 reading.2 := by
  intro s hs
  obtain ⟨-, hquantity, -⟩ := mem_getNextSlice hs
  exact ⟨(_, _), hquantity.trans (v.computeSliceQuantity_eq P now)⟩

inductive ScheduleCall
  | slice (accelerated capped : ℤ)
  | onFill (filledQty : ℤ)

def nextCall (v : Vwap) : ScheduleCall → Vwap
  | .slice _ _ => v
  | .onFill filledQty => v.onFill filledQty

/-- What is filled stays within the total, and a slice within what remains. -/
def InBounds (v : Vwap) (call : ScheduleCall) : Prop :=
  v.filledSoFar ≤ v.totalQuantity ∧
    match call with
    | .slice accelerated capped => 0 < v.remaining →
        1 ≤ v.computeSliceQuantityWith accelerated capped ∧
          v.computeSliceQuantityWith accelerated capped ≤ v.remaining
    | .onFill _ => True

def fillSlice (reading : ℤ × ℤ) : Vwap := v.onFill (v.computeSliceQuantityWith reading.1 reading.2)

/-- The schedule after so many slices, each reported fully filled. -/
def afterSlices (readings : ℕ → ℤ × ℤ) : ℕ → Vwap
  | 0 => v
  | n + 1 => (afterSlices readings n).fillSlice (readings n)

def sliceAt (readings : ℕ → ℤ × ℤ) (n : ℕ) : ℤ :=
  (v.afterSlices readings n).computeSliceQuantityWith (readings n).1 (readings n).2

end Pacing

section Bounds

variable {v : Vwap} {total : ℤ} {accelerated capped f : ℤ} {readings : ℕ → ℤ × ℤ} {n : ℕ}

structure Running (total : ℤ) (v : Vwap) : Prop where
  asked : v.totalQuantity = total
  slices : 0 < v.config.numSlices
  filled : v.filledSoFar ≤ total

theorem running_begin (hslices : 0 < v.config.numSlices) (htotal : 0 < total) (startTime : ℤ) :
    Running total (v.begin total startTime) :=
  ⟨rfl, hslices, htotal.le⟩

theorem Running.onFill (h : Running total v) (f : ℤ) : Running total (v.onFill f) where
  asked := h.asked
  slices := h.slices
  filled := by
    have htotal := h.asked
    simp only [Vwap.onFill]
    split_ifs <;> omega

theorem Running.slice_bounds (h : Running total v) (htotal : 0 < total) (hr : 0 < v.remaining)
    (accelerated capped : ℤ) : 1 ≤ v.computeSliceQuantityWith accelerated capped ∧
      v.computeSliceQuantityWith accelerated capped ≤ v.remaining := by
  have hstarted : ¬(v.totalQuantity ≤ 0 ∨ v.config.numSlices = 0) := by
    rw [h.asked]
    have hslices := h.slices
    omega
  unfold computeSliceQuantityWith
  rw [if_neg hstarted, if_neg (not_le.mpr hr)]
  exact ⟨le_max_left _ _, max_le hr (min_le_right _ _)⟩

theorem Running.nextCall (h : Running total v) (call : ScheduleCall) : Running total (v.nextCall call) := by
  cases call with
  | slice accelerated capped => exact h
  | onFill f => exact h.onFill f

theorem Running.inBounds (h : Running total v) (htotal : 0 < total) (call : ScheduleCall) : v.InBounds call := by
  refine ⟨h.filled.trans h.asked.ge, ?_⟩
  cases call with
  | slice accelerated capped => exact fun hr => h.slice_bounds htotal hr accelerated capped
  | onFill f => trivial

theorem Running.run (h : Running total v) (htotal : 0 < total) (calls : List ScheduleCall) :
    Along Vwap.nextCall InBounds v calls ∧ (calls.foldl Vwap.nextCall v).filledSoFar ≤ total := by
  induction calls generalizing v with
  | nil => exact ⟨trivial, h.filled⟩
  | cons call calls ih =>
    obtain ⟨halong, hfilled⟩ := ih (h.nextCall call)
    exact ⟨⟨h.inBounds htotal call, halong⟩, hfilled⟩

theorem isComplete_iff : v.isComplete = true ↔ v.remaining ≤ 0 := by
  simp [isComplete, remaining]

theorem Running.fillSlice (h : Running total v) (htotal : 0 < total) (hr : v.isComplete = false) (reading : ℤ × ℤ) :
    (v.fillSlice reading).filledSoFar = v.filledSoFar + v.computeSliceQuantityWith reading.1 reading.2 ∧
      1 ≤ v.computeSliceQuantityWith reading.1 reading.2 := by
  have hpos : 0 < v.remaining := by
    by_contra hnot
    rw [isComplete_iff.mpr (not_lt.mp hnot)] at hr
    cases hr
  obtain ⟨hone, hle⟩ := h.slice_bounds htotal hpos reading.1 reading.2
  refine ⟨?_, hone⟩
  unfold Vwap.remaining at hle
  simp only [Vwap.fillSlice, Vwap.onFill]
  rw [if_neg (by omega)]

theorem Running.afterSlices (h : Running total v) (readings : ℕ → ℤ × ℤ) (n : ℕ) :
    Running total (v.afterSlices readings n) := by
  induction n with
  | zero => exact h
  | succ n ih => exact ih.onFill _

theorem Running.progress (h : Running total v) (htotal : 0 < total)
    (hopen : ∀ k < n, (v.afterSlices readings k).isComplete = false) :
    (v.afterSlices readings n).filledSoFar = v.filledSoFar + ∑ k ∈ Finset.range n, v.sliceAt readings k ∧
      v.filledSoFar + n ≤ (v.afterSlices readings n).filledSoFar := by
  induction n with
  | zero => simp [Vwap.afterSlices]
  | succ n ih =>
    obtain ⟨hsum, hle⟩ := ih fun k hk => hopen k (by omega)
    obtain ⟨hfilled, hone⟩ := (h.afterSlices readings n).fillSlice htotal (hopen n (by omega)) (readings n)
    have hstep : (v.afterSlices readings (n + 1)).filledSoFar =
        (v.afterSlices readings n).filledSoFar + v.sliceAt readings n := hfilled
    have hslice : 1 ≤ v.sliceAt readings n := hone
    rw [Finset.sum_range_succ, hstep]
    push_cast
    omega

/-- Whatever the clock, the urgency and the cap make of the slices, they stay within what remains, and when
each is filled they end the schedule with exactly its total. -/
theorem schedule_completes (v : Vwap) (total startTime : ℤ) (htotal : 0 < total) (hslices : 0 < v.config.numSlices) :
    let started := v.begin total startTime
    (∀ calls, Along nextCall InBounds started calls ∧ (calls.foldl nextCall started).filledSoFar ≤ total) ∧
      ∀ readings, ∃ n : ℕ, n ≤ total ∧ (∀ k < n, (started.afterSlices readings k).isComplete = false) ∧
        (started.afterSlices readings n).isComplete = true ∧
        ∑ k ∈ Finset.range n, started.sliceAt readings k = total := by
  intro started
  have hrunning : Running total started := running_begin hslices htotal startTime
  have hempty : started.filledSoFar = 0 := rfl
  refine ⟨hrunning.run htotal, fun readings => ?_⟩
  have hsome : ∃ n, (started.afterSlices readings n).isComplete = true := by
    by_contra hnone
    have hopen : ∀ k < total.toNat + 1, (started.afterSlices readings k).isComplete = false :=
      fun k _ => Bool.eq_false_of_not_eq_true fun hdone => hnone ⟨k, hdone⟩
    obtain ⟨-, hle⟩ := hrunning.progress htotal hopen
    have hfilled := (hrunning.afterSlices readings (total.toNat + 1)).filled
    push_cast at hle
    omega
  classical
  have hopen : ∀ k < Nat.find hsome, (started.afterSlices readings k).isComplete = false :=
    fun k hk => Bool.eq_false_of_not_eq_true (Nat.find_min hsome hk)
  have hdone := Nat.find_spec hsome
  obtain ⟨hsum, hle⟩ := hrunning.progress htotal hopen
  have hlast := hrunning.afterSlices readings (Nat.find hsome)
  have hreached := isComplete_iff.mp hdone
  unfold Vwap.remaining at hreached
  rw [hlast.asked] at hreached
  have hfilled := hlast.filled
  exact ⟨Nat.find hsome, by omega, hopen, hdone, by omega⟩

theorem schedule_completes_five : ∃ n : ℕ, (n : ℤ) ≤ 5 ∧
    ∑ k ∈ Finset.range n, (({} : Vwap).begin 5 0).sliceAt (fun k => (k, 1)) k = 5 := by
  obtain ⟨n, hn, -, -, hsum⟩ := (schedule_completes {} 5 0 (by decide) (by decide)).2 fun k => (k, 1)
  exact ⟨n, hn, hsum⟩

end Bounds

end Klett.Sor.Vwap
