import Klett.Lib.Machine
import Klett.Lib.Parties
import Mathlib.Algebra.Order.BigOperators.Group.List
import Mathlib.Algebra.Order.Ring.Int
import Mathlib.Data.Fintype.Basic
import Mathlib.Order.OrderDual
import Mathlib.Order.Bounds.Basic

namespace Klett.Cunk.LatencyTracker

open Klett.Lib

section Model

def int64Max : ℤ := 2 ^ 63 - 1

/-- `count_` is a `uint64_t`, the others are `int64_t`. -/
structure Tracker where
  count : ℕ := 0
  sumNs : ℤ := 0
  minNs : ℤ := int64Max
  maxNs : ℤ := 0
  deriving DecidableEq

/-- How far a thread is in `record`: the atomic operation it executes next, with what it has read. -/
inductive Stage where
  | idle
  | count (ns : ℤ)
  | sum (ns : ℤ)
  | loadMin (ns : ℤ)
  | lowerMin (ns curMin : ℤ)
  | loadMax (ns : ℤ)
  | raiseMax (ns curMax : ℤ)
  deriving DecidableEq

/-- One turn of a thread in `record`. A compare-exchange that fails, spuriously or not, leaves what it has read in
the variable it compared with. -/
def advance (spurious : Bool) (t : Tracker) : Stage → Option (Tracker × Stage)
  | .idle => none
  | .count ns => some ({ t with count := (t.count + 1) % 2 ^ 64 }, .sum ns)
  | .sum ns => some ({ t with sumNs := (t.sumNs + ns).bmod (2 ^ 64) }, .loadMin ns)
  | .loadMin ns => some (t, .lowerMin ns t.minNs)
  | .lowerMin ns curMin =>
    if ns < curMin then
      if t.minNs = curMin ∧ spurious = false then some ({ t with minNs := ns }, .loadMax ns)
      else some (t, .lowerMin ns t.minNs)
    else some (t, .loadMax ns)
  | .loadMax ns => some (t, .raiseMax ns t.maxNs)
  | .raiseMax ns curMax =>
    if curMax < ns then
      if t.maxNs = curMax ∧ spurious = false then some ({ t with maxNs := ns }, .idle)
      else some (t, .raiseMax ns t.maxNs)
    else some (t, .idle)

structure Snapshot where
  count : ℕ
  minNs : ℤ
  maxNs : ℤ
  sumNs : ℤ
  deriving DecidableEq

def Tracker.snapshot (t : Tracker) : Snapshot := ⟨t.count, t.minNs, t.maxNs, t.sumNs⟩

structure State (ι : Type) where
  tracker : Tracker := {}
  stages : ι → Stage := fun _ => .idle

inductive Action (ι : Type) where
  | record (i : ι) (d : ℤ)
  | advance (i : ι) (spurious : Bool)

variable {ι : Type} [DecidableEq ι]

def act (s : State ι) : Action ι → Option (State ι)
  | .record i d =>
    if s.stages i = .idle ∧ 0 ≤ d ∧ d ≤ int64Max then some { s with stages := Function.update s.stages i (.count d) }
    else none
  | .advance i spurious =>
    (advance spurious s.tracker (s.stages i)).map fun next => ⟨next.1, Function.update s.stages i next.2⟩

def machine : Machine (State ι) (Action ι) Empty where
  step s a := (act s a).map (·, [])

def Action.duration : Action ι → Option ℤ
  | .record _ d => some d
  | .advance _ _ => none

/-- The durations the calls of the run were made with. -/
def recorded (h : Trace (Action ι) Empty) : List ℤ := h.filterMap fun x => x.1.duration

def Quiet (s : State ι) : Prop := ∀ i, s.stages i = .idle

instance [Fintype ι] (s : State ι) : Decidable (Quiet s) := inferInstanceAs (Decidable (∀ i, s.stages i = .idle))

end Model

section Accounts

def Stage.uncounted : Stage → ℕ
  | .count _ => 1
  | _ => 0

def Stage.unsummed : Stage → ℤ
  | .count ns | .sum ns => ns
  | _ => 0

def Stage.minOffer : Stage → Offer ℤ
  | .count ns | .sum ns | .loadMin ns => .waiting ns
  | .lowerMin ns curMin => .trying ns curMin
  | _ => .none

def Stage.maxOffer : Stage → Offer ℤᵒᵈ
  | .idle => .none
  | .count ns | .sum ns | .loadMin ns | .lowerMin ns _ | .loadMax ns => .waiting (.toDual ns)
  | .raiseMax ns curMax => .trying (.toDual ns) (.toDual curMax)

end Accounts

section Extrema

variable {ι : Type} [DecidableEq ι] {durations : List ℤ} {t t' : Tracker} {stage' : Stage} {stages : ι → Stage} {i : ι}
  {spurious : Bool}

theorem min_advance (h : Lowering int64Max durations t.minNs (Stage.minOffer ∘ stages))
    (hstep : advance spurious t (stages i) = some (t', stage')) :
    Lowering int64Max durations t'.minNs (Stage.minOffer ∘ Function.update stages i stage') := by
  rw [Function.comp_update]
  have hoffer : (Stage.minOffer ∘ stages) i = (stages i).minOffer := rfl
  have hkeep (hsame : stage'.minOffer = (stages i).minOffer) :
      Lowering int64Max durations t.minNs (Function.update (Stage.minOffer ∘ stages) i stage'.minOffer) :=
    h.same hsame
  generalize stages i = stage at hoffer hstep hkeep
  cases stage with
  | idle => cases hstep
  | count ns | sum ns | loadMax ns =>
    cases hstep
    exact hkeep rfl
  | loadMin ns =>
    cases hstep
    exact h.load (by rw [hoffer]; rfl)
  | lowerMin ns cur =>
    simp only [advance] at hstep
    split_ifs at hstep with hlt hcas <;> cases hstep
    · rw [← hcas.1] at hoffer hlt
      exact h.exchange hoffer hlt
    · exact h.load (by rw [hoffer]; rfl)
    · exact h.pass hoffer hlt
  | raiseMax ns cur =>
    simp only [advance] at hstep
    split_ifs at hstep <;> cases hstep <;> exact hkeep rfl

theorem max_advance
    (h : Lowering (.toDual 0) (durations.map OrderDual.toDual) (.toDual t.maxNs) (Stage.maxOffer ∘ stages))
    (hstep : advance spurious t (stages i) = some (t', stage')) :
    Lowering (.toDual 0) (durations.map OrderDual.toDual) (.toDual t'.maxNs)
      (Stage.maxOffer ∘ Function.update stages i stage') := by
  rw [Function.comp_update]
  have hoffer : (Stage.maxOffer ∘ stages) i = (stages i).maxOffer := rfl
  have hkeep (hsame : stage'.maxOffer = (stages i).maxOffer) :
      Lowering (.toDual 0) (durations.map OrderDual.toDual) (.toDual t.maxNs)
        (Function.update (Stage.maxOffer ∘ stages) i stage'.maxOffer) := h.same hsame
  generalize stages i = stage at hoffer hstep hkeep
  cases stage with
  | idle => cases hstep
  | count ns | sum ns | loadMin ns =>
    cases hstep
    exact hkeep rfl
  | lowerMin ns cur =>
    simp only [advance] at hstep
    split_ifs at hstep <;> cases hstep <;> exact hkeep rfl
  | loadMax ns =>
    cases hstep
    exact h.load (by rw [hoffer]; rfl)
  | raiseMax ns cur =>
    simp only [advance] at hstep
    split_ifs at hstep with hlt hcas <;> cases hstep
    · rw [← hcas.1] at hoffer hlt
      exact h.exchange hoffer (OrderDual.toDual_lt_toDual.mpr hlt)
    · exact h.load (by rw [hoffer]; rfl)
    · exact h.pass hoffer fun hfalse => hlt (OrderDual.toDual_lt_toDual.mp hfalse)

end Extrema

section Runs

variable {ι : Type}

theorem recorded_append (h : Trace (Action ι) Empty) (a : Action ι) (es : List Empty) :
    recorded (h ++ [(a, es)]) = recorded h ++ a.duration.toList := by
  cases a <;> simp [recorded, Action.duration]

variable [Fintype ι]

/-- What has been recorded is in the tracker or still carried by a call that has not finished. -/
structure Accounted (durations : List ℤ) (t : Tracker) (stages : ι → Stage) : Prop where
  count : (t.count + ∑ i, (stages i).uncounted) % 2 ^ 64 = durations.length % 2 ^ 64
  count_lt : t.count < 2 ^ 64
  sum : (t.sumNs + ∑ i, (stages i).unsummed) % 2 ^ 64 = durations.sum % 2 ^ 64
  sum_bmod : t.sumNs.bmod (2 ^ 64) = t.sumNs
  min : Lowering int64Max durations t.minNs (Stage.minOffer ∘ stages)
  max : Lowering (.toDual 0) (durations.map OrderDual.toDual) (.toDual t.maxNs) (Stage.maxOffer ∘ stages)
  durations : ∀ d ∈ durations, 0 ≤ d ∧ d ≤ int64Max

variable {durations : List ℤ} {t t' : Tracker} {stage stage' : Stage} {stages : ι → Stage} {i : ι} {spurious : Bool}

theorem Accounted.initial : Accounted [] {} fun _ : ι => .idle where
  count := by simp [Stage.uncounted]
  count_lt := Nat.two_pow_pos 64
  sum := by simp [Stage.unsummed]
  sum_bmod := rfl
  min := .initial int64Max
  max := .initial (OrderDual.toDual 0)
  durations _ hd := absurd hd List.not_mem_nil

theorem advance_count (h : advance spurious t stage = some (t', stage')) (hlt : t.count < 2 ^ 64) :
    (t'.count + stage'.uncounted) % 2 ^ 64 = (t.count + stage.uncounted) % 2 ^ 64 ∧ t'.count < 2 ^ 64 := by
  cases stage with
  | idle => cases h
  | count ns =>
    cases h
    simp only [Stage.uncounted]
    omega
  | sum ns | loadMin ns | loadMax ns =>
    cases h
    exact ⟨rfl, hlt⟩
  | lowerMin ns cur | raiseMax ns cur =>
    simp only [advance] at h
    split_ifs at h <;> cases h <;> exact ⟨rfl, hlt⟩

theorem advance_sum (h : advance spurious t stage = some (t', stage')) (hbmod : t.sumNs.bmod (2 ^ 64) = t.sumNs) :
    (t'.sumNs + stage'.unsummed) % 2 ^ 64 = (t.sumNs + stage.unsummed) % 2 ^ 64 ∧
      t'.sumNs.bmod (2 ^ 64) = t'.sumNs := by
  cases stage with
  | idle => cases h
  | sum ns =>
    cases h
    refine ⟨?_, Int.bmod_bmod ..⟩
    simp only [Stage.unsummed, add_zero]
    exact Int.bmod_emod
  | count ns | loadMin ns | loadMax ns =>
    cases h
    exact ⟨rfl, hbmod⟩
  | lowerMin ns cur | raiseMax ns cur =>
    simp only [advance] at h
    split_ifs at h <;> cases h <;> exact ⟨rfl, hbmod⟩

theorem isLeast_of_quiet {h : Trace (Action ι) Empty} {s : State ι} (hs : Accounted (recorded h) s.tracker s.stages)
    (hquiet : Quiet s) (hne : recorded h ≠ []) : IsLeast {d | d ∈ recorded h} s.tracker.minNs := by
  apply hs.min.isLeast _ hne fun d hd => (hs.durations d hd).2
  intro i
  rw [Function.comp_apply, hquiet i]
  rfl

theorem isGreatest_of_quiet {h : Trace (Action ι) Empty} {s : State ι} (hs : Accounted (recorded h) s.tracker s.stages)
    (hquiet : Quiet s) (hne : recorded h ≠ []) : IsGreatest {d | d ∈ recorded h} s.tracker.maxNs := by
  have hleast : IsLeast {d | d ∈ (recorded h).map OrderDual.toDual} (OrderDual.toDual s.tracker.maxNs) := by
    apply hs.max.isLeast
    · intro i
      rw [Function.comp_apply, hquiet i]
      rfl
    · simpa using hne
    · intro d hd
      obtain ⟨x, hx, rfl⟩ := List.mem_map.mp hd
      exact OrderDual.toDual_le_toDual.mpr (hs.durations x hx).1
  refine ⟨?_, fun d hd => ?_⟩
  · obtain ⟨x, hx, heq⟩ := List.mem_map.mp hleast.1
    exact OrderDual.toDual.injective heq ▸ hx
  · exact OrderDual.toDual_le_toDual.mp (hleast.2 (List.mem_map_of_mem hd))

variable [DecidableEq ι]

theorem Accounted.record (h : Accounted durations t stages) {d : ℤ} (hi : stages i = .idle)
    (hd : 0 ≤ d ∧ d ≤ int64Max) : Accounted (durations ++ [d]) t (Function.update stages i (.count d)) where
  count := by
    have hsum := sum_update Stage.uncounted stages (.count d) (Finset.mem_univ i)
    have hcount := h.count
    rw [hi] at hsum
    simp only [Stage.uncounted, List.length_append, List.length_singleton] at hsum hcount ⊢
    omega
  count_lt := h.count_lt
  sum := by
    have hsum := sum_update Stage.unsummed stages (.count d) (Finset.mem_univ i)
    have hold := h.sum
    rw [hi] at hsum
    simp only [Stage.unsummed, List.sum_append, List.sum_singleton] at hsum hold ⊢
    omega
  sum_bmod := h.sum_bmod
  min := by
    rw [Function.comp_update]
    exact h.min.give (by rw [Function.comp_apply, hi]; rfl) d
  max := by
    rw [Function.comp_update, List.map_append]
    exact h.max.give (by rw [Function.comp_apply, hi]; rfl) _
  durations d' hd' := by
    rcases List.mem_append.mp hd' with hd' | hd'
    · exact h.durations d' hd'
    · rw [List.mem_singleton.mp hd']
      exact hd

theorem Accounted.advance (h : Accounted durations t stages)
    (hstep : advance spurious t (stages i) = some (t', stage')) :
    Accounted durations t' (Function.update stages i stage') where
  count := by
    have hsum := sum_update Stage.uncounted stages stage' (Finset.mem_univ i)
    have hcount := h.count
    have hturn := (advance_count hstep h.count_lt).1
    omega
  count_lt := (advance_count hstep h.count_lt).2
  sum := by
    have hsum := sum_update Stage.unsummed stages stage' (Finset.mem_univ i)
    have hold := h.sum
    have hturn := (advance_sum hstep h.sum_bmod).1
    omega
  sum_bmod := (advance_sum hstep h.sum_bmod).2
  min := min_advance h.min hstep
  max := max_advance h.max hstep
  durations := h.durations

theorem accounted_of_run {h : Trace (Action ι) Empty} {s : State ι} (hr : machine.Run {} h s) :
    Accounted (recorded h) s.tracker s.stages := by
  apply hr.invariant (I := fun (h : Trace (Action ι) Empty) (s : State ι) => Accounted (recorded h) s.tracker s.stages)
    Accounted.initial
  intro k s a s' es hs _ hstep
  rw [recorded_append]
  obtain ⟨next, hact, heq⟩ := Option.map_eq_some_iff.mp hstep
  cases heq
  cases a with
  | record i d =>
    simp only [act] at hact
    split_ifs at hact with hcall
    cases hact
    exact hs.record hcall.1 hcall.2
  | advance i spurious =>
    obtain ⟨⟨t', stage'⟩, hturn, heq⟩ := Option.map_eq_some_iff.mp hact
    cases heq
    rw [Action.duration, Option.toList_none, List.append_nil]
    exact hs.advance hturn

theorem snapshot_exact {h : Trace (Action ι) Empty} {s : State ι} (hr : machine.Run {} h s) (hquiet : Quiet s) :
    let snapshot := s.tracker.snapshot
    let durations := recorded h
    snapshot.count = durations.length % 2 ^ 64 ∧ snapshot.sumNs = durations.sum.bmod (2 ^ 64) ∧
      (durations.length < 2 ^ 64 → snapshot.count = durations.length) ∧
      (durations.sum ≤ int64Max → snapshot.sumNs = durations.sum) ∧
      (durations = [] → snapshot.minNs = int64Max ∧ snapshot.maxNs = 0) ∧
      (durations ≠ [] →
        IsLeast {d | d ∈ durations} snapshot.minNs ∧ IsGreatest {d | d ∈ durations} snapshot.maxNs) := by
  have hs := accounted_of_run hr
  have hcount : s.tracker.count = (recorded h).length % 2 ^ 64 := by
    have hmod := hs.count
    rw [Finset.sum_eq_zero fun i _ => by rw [hquiet i]; rfl, add_zero, Nat.mod_eq_of_lt hs.count_lt] at hmod
    exact hmod
  have hsum : s.tracker.sumNs = (recorded h).sum.bmod (2 ^ 64) := by
    have hmod := hs.sum
    rw [Finset.sum_eq_zero fun i _ => by rw [hquiet i]; rfl, add_zero] at hmod
    have hcast : s.tracker.sumNs % ((2 ^ 64 : ℕ) : ℤ) = (recorded h).sum % ((2 ^ 64 : ℕ) : ℤ) := hmod
    rw [← hs.sum_bmod, ← Int.emod_bmod, hcast, Int.emod_bmod]
  refine ⟨hcount, hsum, fun hlt => ?_, fun hle => ?_, fun hnil => ?_, fun hne => ?_⟩
  · exact hcount.trans (Nat.mod_eq_of_lt hlt)
  · have hnonneg : 0 ≤ (recorded h).sum := List.sum_nonneg fun d hd => (hs.durations d hd).1
    simp only [int64Max] at hle
    apply hsum.trans
    apply Int.bmod_eq_of_le
    · omega
    · omega
  · have hmin := hs.min
    have hmax := hs.max
    rw [hnil] at hmin hmax
    exact ⟨hmin.eq_start, OrderDual.toDual.injective hmax.eq_start⟩
  · exact ⟨isLeast_of_quiet hs hquiet hne, isGreatest_of_quiet hs hquiet hne⟩

def longRecords : List (Action Bool) :=
  .record false int64Max :: .record true int64Max ::
    (List.replicate 6 (.advance false false) ++ List.replicate 6 (.advance true false))

theorem snapshot_wrapped : ∃ h s, (machine (ι := Bool)).Run {} h s ∧
    Quiet s ∧ recorded h = [int64Max, int64Max] ∧ s.tracker.snapshot.sumNs ≠ (recorded h).sum :=
  machine.exists_run {} (fun h s => Quiet s ∧ recorded h = [int64Max, int64Max] ∧
    s.tracker.snapshot.sumNs ≠ (recorded h).sum) longRecords (by decide +kernel)

theorem snapshot_exact_short : ∃ h s, (machine (ι := Bool)).Run {} h s ∧ recorded h = [7, 5] ∧
    s.tracker.snapshot = ⟨2, 5, 7, 12⟩ ∧ IsLeast {d | d ∈ recorded h} s.tracker.snapshot.minNs := by
  obtain ⟨h, s, hr, hquiet, hdurations, hsnapshot⟩ := machine.exists_run {}
    (fun (h : Trace (Action Bool) Empty) s => Quiet s ∧ recorded h = [7, 5] ∧ s.tracker.snapshot = ⟨2, 5, 7, 12⟩)
    (.record false 7 :: .record true 5 ::
      (List.replicate 4 (.advance false false) ++ List.replicate 6 (.advance true true) ++
        List.replicate 2 (.advance false false) ++ List.replicate 3 (.advance true false)))
    (by decide +kernel)
  refine ⟨h, s, hr, hdurations, hsnapshot, ?_⟩
  exact ((snapshot_exact hr hquiet).2.2.2.2.2 (by rw [hdurations]; decide)).1

end Runs

end Klett.Cunk.LatencyTracker
