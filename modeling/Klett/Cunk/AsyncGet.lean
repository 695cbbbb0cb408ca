import Klett.Lib.Machine
import Klett.Lib.Parties
import Mathlib.Algebra.Order.BigOperators.Group.Finset
import Mathlib.Data.Fintype.Card
import Mathlib.Logic.Function.Iterate

/-!
Calls of `get` on a task while its promise is settled, each lock, wait, store and notification a step of its own. The
calls go by their numbers.
-/

namespace Klett.Cunk.AsyncGet

open Klett.Lib

section Model

variable (ι α ε : Type)

inductive Thread where
  | producer
  | caller (i : ι)
deriving DecidableEq

/-- Where `set_value` or `set_exception` is. -/
inductive Setting where
  | locking
  | storing
  | publishing
  | unlocking
  | notifying
  | done
deriving DecidableEq

/-- Where a call of `get` is. A call that has been woken locks the mutex again. -/
inductive Getting where
  | locking
  | testing
  | waiting
  | taking
  | done
deriving DecidableEq

structure State where
  value : Option α := none
  exception : Option ε := none
  ready : Bool := false
  mutex : Option (Thread ι) := none
  setting : Setting := .locking
  getting : ι → Getting := fun _ => .locking
  undefined : Bool := false

inductive Action where
  | set
  | get (i : ι)
  /-- A wait that ends without a notification. -/
  | wake (i : ι)

variable {ι α ε} [DecidableEq ι] (result : Except ε α) (moved : α → α)

def setStep (s : State ι α ε) : Option (State ι α ε) :=
  match s.setting with
  | .locking => if s.mutex = none then some { s with mutex := some .producer, setting := .storing } else none
  | .storing =>
    match result with
    | .ok v => some { s with value := some v, setting := .publishing }
    | .error e => some { s with exception := some e, setting := .publishing }
  | .publishing => some { s with ready := true, setting := .unlocking }
  | .unlocking => some { s with mutex := none, setting := .notifying }
  | .notifying => some { s with
      getting := fun i => if s.getting i = .waiting then .locking else s.getting i, setting := .done }
  | .done => none

def State.at (s : State ι α ε) (i : ι) (pc : Getting) : State ι α ε :=
  { s with getting := Function.update s.getting i pc }

/-- The value is moved out, and what a move leaves stays behind. Without a value the behaviour is undefined. -/
def getStep (s : State ι α ε) (i : ι) : Option (State ι α ε × List (ι × Except ε α)) :=
  match s.getting i with
  | .locking => if s.mutex = none then some ({ s.at i .testing with mutex := some (.caller i) }, []) else none
  | .testing => some (if s.ready then s.at i .taking else { s.at i .waiting with mutex := none }, [])
  | .waiting => none
  | .taking =>
    match s.exception, s.value with
    | some e, _ => some ({ s.at i .done with mutex := none }, [(i, .error e)])
    | none, some v => some ({ s.at i .done with mutex := none, value := some (moved v) }, [(i, .ok v)])
    | none, none => some ({ s with undefined := true }, [])
  | .done => none

def machine : Machine (State ι α ε) (Action ι) (ι × Except ε α) where
  step s a :=
    match a with
    | .set => (setStep result s).map fun s => (s, [])
    | .get i => getStep moved s i
    | .wake i => if s.getting i = .waiting then some (s.at i .locking, []) else none

end Model

section Specification

variable {ι α ε : Type}

/-- What the call gets that comes after `k` others. -/
def outcome (result : Except ε α) (moved : α → α) (k : ℕ) : Except ε α := result.map moved^[k]

structure Delivered (result : Except ε α) (moved : α → α) (h : Trace (Action ι) (ι × Except ε α))
    (s : State ι α ε) : Prop where
  defined : s.undefined = false
  once : (h.events.map Prod.fst).Nodup
  returned : ∀ i, s.getting i = .done ↔ i ∈ h.events.map Prod.fst
  results : h.events.map Prod.snd = (List.range h.events.length).map (outcome result moved)
  settled : h.events ≠ [] → s.ready = true

/-- Nobody can go on, but for waits that end without a notification. -/
def Stuck [DecidableEq ι] (result : Except ε α) (moved : α → α) (s : State ι α ε) : Prop :=
  setStep result s = none ∧ ∀ i, getStep moved s i = none

instance decidableStuck [DecidableEq ι] [Fintype ι] {result : Except ε α} {moved : α → α} {s : State ι α ε} :
    Decidable (Stuck result moved s) :=
  decidable_of_iff ((setStep result s).isNone = true ∧ ∀ i, (getStep moved s i).isNone = true) (by
    simp only [Stuck, Option.isNone_iff_eq_none])

def Action.isWake : Action ι → Bool
  | .wake _ => true
  | _ => false

def work (h : Trace (Action ι) (ι × Except ε α)) : ℕ := h.countP fun x => !x.1.isWake

def wakes (h : Trace (Action ι) (ι × Except ε α)) : ℕ := h.countP fun x => x.1.isWake

theorem work_append (h : Trace (Action ι) (ι × Except ε α)) (a : Action ι) (es : List (ι × Except ε α)) :
    work (h ++ [(a, es)]) = work h + if a.isWake then 0 else 1 := by
  unfold work
  rw [List.countP_append, List.countP_singleton]
  cases a.isWake
  all_goals rfl

theorem wakes_append (h : Trace (Action ι) (ι × Except ε α)) (a : Action ι) (es : List (ι × Except ε α)) :
    wakes (h ++ [(a, es)]) = wakes h + if a.isWake then 1 else 0 := by
  unfold wakes
  rw [List.countP_append, List.countP_singleton]

end Specification

section Safety

variable {ι α ε : Type} {result : Except ε α} {moved : α → α} {s s' : State ι α ε} {i : ι}

def Setting.locked : Setting → Bool
  | .storing | .publishing | .unlocking => true
  | _ => false

def Setting.stored : Setting → Bool
  | .locking | .storing => false
  | _ => true

def Setting.published : Setting → Bool
  | .locking | .storing | .publishing => false
  | _ => true

theorem Setting.stored_of_published {pc : Setting} (h : pc.published = true) : pc.stored = true := by
  cases pc with
  | locking | storing | publishing => cases h
  | unlocking | notifying | done => rfl

def Getting.locked : Getting → Bool
  | .testing | .taking => true
  | _ => false

/-- What the shared state holds after so many calls have returned. -/
def Holds (result : Except ε α) (moved : α → α) (k : ℕ) (s : State ι α ε) : Prop :=
  match result with
  | .ok v => s.value = some (moved^[k] v) ∧ s.exception = none
  | .error e => s.value = none ∧ s.exception = some e

structure Sound (result : Except ε α) (moved : α → α) (k : ℕ) (s : State ι α ε) : Prop where
  defined : s.undefined = false
  producer : s.mutex = some .producer ↔ s.setting.locked = true
  caller : ∀ i, s.mutex = some (.caller i) ↔ (s.getting i).locked = true
  empty : s.setting.stored = false → s.value = none ∧ s.exception = none
  holds : s.setting.stored = true → Holds result moved k s
  ready : s.ready = s.setting.published
  taking : ∀ i, s.getting i = .taking → s.ready = true
  waiting : s.setting = .done → ∀ i, s.getting i ≠ .waiting
  fresh : s.ready = false → k = 0

variable {k : ℕ}

theorem Sound.start : Sound result moved 0 ({} : State ι α ε) where
  defined := rfl
  producer := by simp [Setting.locked]
  caller i := by simp [Getting.locked]
  empty _ := ⟨rfl, rfl⟩
  holds h := by cases h
  ready := rfl
  taking i h := by cases h
  waiting h := by cases h
  fresh _ := rfl

/-- No call returns. -/
structure Quiet (s s' : State ι α ε) : Prop where
  done : ∀ i, s'.getting i = .done ↔ s.getting i = .done
  ready : s.ready = true → s'.ready = true

theorem Sound.unlocked (hs : Sound result moved k s) (hmutex : s.mutex ≠ some (.caller i)) :
    (s.getting i).locked = false := by
  rw [← Bool.not_eq_true, ← hs.caller i]
  exact hmutex

theorem Sound.set (hs : Sound result moved k s) (hstep : setStep result s = some s') :
    Sound result moved k s' ∧ Quiet s s' := by
  have hunlocked (i : ι) : s.mutex ≠ some (.caller i) → (s.getting i).locked = false := hs.unlocked
  obtain ⟨hdefined, hproducer, hcaller, hempty, hholds, hready, htaking, hwaiting, hfresh⟩ := hs
  unfold setStep at hstep
  cases hset : s.setting with
  | locking =>
    simp only [hset] at hstep
    split_ifs at hstep with hmutex
    cases hstep
    have hfree (i : ι) : (s.getting i).locked = false := by
      apply hunlocked i
      rw [hmutex]
      nofun
    rw [hset] at hempty hready
    refine ⟨⟨hdefined, by simp [Setting.locked], ?_, fun _ => hempty rfl, nofun, hready, htaking, nofun, hfresh⟩,
      fun _ => Iff.rfl, id⟩
    intro i
    simp [hfree i]
  | storing =>
    simp only [hset] at hstep
    rw [hset] at hproducer hempty hready
    have hk := hfresh hready
    obtain ⟨hvalue, hexception⟩ := hempty rfl
    cases result with
    | ok v =>
      cases hstep
      subst hk
      exact ⟨⟨hdefined, hproducer, hcaller, nofun, fun _ => ⟨rfl, hexception⟩, hready, htaking, nofun, hfresh⟩,
        fun _ => Iff.rfl, id⟩
    | error e =>
      cases hstep
      exact ⟨⟨hdefined, hproducer, hcaller, nofun, fun _ => ⟨hvalue, rfl⟩, hready, htaking, nofun, hfresh⟩,
        fun _ => Iff.rfl, id⟩
  | publishing =>
    simp only [hset, Option.some.injEq] at hstep
    subst hstep
    rw [hset] at hproducer hholds
    exact ⟨⟨hdefined, hproducer, hcaller, nofun, fun _ => hholds rfl, rfl, fun _ _ => rfl, nofun, nofun⟩,
      fun _ => Iff.rfl, fun _ => rfl⟩
  | unlocking =>
    simp only [hset, Option.some.injEq] at hstep
    subst hstep
    rw [hset] at hproducer hholds hready
    have hmutex := hproducer.mpr rfl
    refine ⟨⟨hdefined, by simp [Setting.locked], ?_, nofun, fun _ => hholds rfl, hready, htaking, nofun, hfresh⟩,
      fun _ => Iff.rfl, id⟩
    intro i
    have hfree : (s.getting i).locked = false := by
      apply hunlocked i
      rw [hmutex]
      nofun
    simp [hfree]
  | notifying =>
    simp only [hset, Option.some.injEq] at hstep
    subst hstep
    rw [hset] at hproducer hholds hready
    refine ⟨⟨hdefined, hproducer, ?_, nofun, fun _ => hholds rfl, hready, ?_, ?_, hfresh⟩, ?_, id⟩
    · intro i
      rw [hcaller i]
      dsimp only
      split_ifs with hi
      · simp [hi, Getting.locked]
      · rfl
    · intro i hi
      dsimp only at hi
      split_ifs at hi
      exact htaking i hi
    · intro _ i hi
      dsimp only at hi
      split_ifs at hi with hwait
      exact hwait hi
    · intro i
      dsimp only
      split_ifs with hi
      · simp [hi]
      · rfl
  | done => simp [hset] at hstep

section Moves

variable [DecidableEq ι] {pc : Getting} {mutex : Option (Thread ι)}

theorem Sound.move (hs : Sound result moved k s) (hproducer : mutex = some .producer ↔ s.setting.locked = true)
    (hcaller : ∀ j ≠ i, mutex = some (.caller j) ↔ (s.getting j).locked = true)
    (hown : mutex = some (.caller i) ↔ pc.locked = true) (htaking : pc = .taking → s.ready = true)
    (hwaiting : pc = .waiting → s.setting ≠ .done) : Sound result moved k { s.at i pc with mutex := mutex } where
  defined := hs.defined
  producer := hproducer
  caller j := by
    obtain rfl | hne := eq_or_ne j i
    · simpa [State.at] using hown
    · simpa [State.at, Function.update_of_ne hne] using hcaller j hne
  empty := hs.empty
  holds := hs.holds
  ready := hs.ready
  taking j hj := by
    obtain rfl | hne := eq_or_ne j i
    · exact htaking (by simpa [State.at] using hj)
    · apply hs.taking j
      simpa [State.at, Function.update_of_ne hne] using hj
  waiting hdone j hj := by
    obtain rfl | hne := eq_or_ne j i
    · exact hwaiting (by simpa [State.at] using hj) hdone
    · apply hs.waiting hdone j
      simpa [State.at, Function.update_of_ne hne] using hj
  fresh := hs.fresh

theorem Sound.keep (hs : Sound result moved k s) (hlocked : pc.locked = (s.getting i).locked)
    (htaking : pc = .taking → s.ready = true) (hwaiting : pc = .waiting → s.setting ≠ .done) :
    Sound result moved k (s.at i pc) := by
  have hown : s.mutex = some (.caller i) ↔ pc.locked = true := by rw [hlocked, hs.caller i]
  exact hs.move hs.producer (fun j _ => hs.caller j) hown htaking hwaiting

theorem Sound.acquire (hs : Sound result moved k s) (hmutex : s.mutex = none) :
    Sound result moved k { s.at i .testing with mutex := some (.caller i) } := by
  have hproducer := hs.producer
  apply hs.move
  · simpa [hmutex] using hproducer
  · intro j hne
    have hcaller := hs.caller j
    simpa [hmutex, hne.symm] using hcaller
  · simp [Getting.locked]
  · nofun
  · nofun

theorem Sound.release (hs : Sound result moved k s) (hmutex : s.mutex = some (.caller i)) (hlocked : pc.locked = false)
    (htaking : pc = .taking → s.ready = true) (hwaiting : pc = .waiting → s.setting ≠ .done) :
    Sound result moved k { s.at i pc with mutex := none } := by
  have hproducer := hs.producer
  apply hs.move _ _ _ htaking hwaiting
  · simpa [hmutex] using hproducer
  · intro j hne
    have hcaller := hs.caller j
    simpa [hmutex, hne.symm] using hcaller
  · simp [hlocked]

end Moves

/-- One more call has returned. -/
structure Returns [DecidableEq ι] (result : Except ε α) (moved : α → α) (k : ℕ) (s s' : State ι α ε) (i : ι)
    (r : Except ε α) : Prop where
  outcome : r = outcome result moved k
  ready : s'.ready = true
  running : s.getting i ≠ .done
  next : s'.getting = Function.update s.getting i .done
  sound : Sound result moved (k + 1) s'

/-- Another call has left with what was stored. -/
theorem Sound.consume (hs : Sound result moved k s) (hready : s.ready = true) (value : Option α)
    (hholds : Holds result moved (k + 1) { s with value := value }) :
    Sound result moved (k + 1) { s with value := value } where
  defined := hs.defined
  producer := hs.producer
  caller := hs.caller
  empty hnone :=
    have hstored : s.setting.stored = true := Setting.stored_of_published (hs.ready.symm.trans hready)
    absurd (hstored.symm.trans hnone) nofun
  holds _ := hholds
  ready := hs.ready
  taking := hs.taking
  waiting := hs.waiting
  fresh hnone := absurd (hready.symm.trans hnone) nofun

theorem Sound.take [DecidableEq ι] (hs : Sound result moved k s) (hpc : s.getting i = .taking)
    {es : List (ι × Except ε α)} (hstep : getStep moved s i = some (s', es)) :
    ∃ r, es = [(i, r)] ∧ Returns result moved k s s' i r := by
  have hready := hs.taking i hpc
  have hmutex : s.mutex = some (.caller i) := (hs.caller i).mpr (by rw [hpc]; rfl)
  have hstored : s.setting.stored = true := Setting.stored_of_published (hs.ready.symm.trans hready)
  have hreleased : Sound result moved k { s.at i .done with mutex := none } := hs.release hmutex rfl nofun nofun
  have hholds := hs.holds hstored
  have hrunning : s.getting i ≠ .done := by
    rw [hpc]
    nofun
  unfold getStep at hstep
  simp only [hpc] at hstep
  cases result with
  | ok v =>
    obtain ⟨hvalue, hexception⟩ := hholds
    simp only [hexception, hvalue] at hstep
    cases hstep
    refine ⟨_, rfl, rfl, hready, hrunning, rfl, hreleased.consume hready _ ⟨?_, hexception⟩⟩
    exact congrArg some (Function.iterate_succ_apply' moved k v).symm
  | error e =>
    obtain ⟨hvalue, hexception⟩ := hholds
    simp only [hexception] at hstep
    cases hstep
    exact ⟨_, rfl, rfl, hready, hrunning, rfl, hreleased.consume hready _ ⟨hvalue, hexception⟩⟩

theorem quiet_of_moved [DecidableEq ι] {pc : Getting} (hgetting : s'.getting = Function.update s.getting i pc)
    (hready : s'.ready = s.ready) (hpc : s.getting i ≠ .done) (hnext : pc ≠ .done) : Quiet s s' where
  done j := by
    rw [hgetting]
    obtain rfl | hne := eq_or_ne j i
    · simp [hpc, hnext]
    · simp [hne]
  ready h := hready.trans h

theorem Sound.get [DecidableEq ι] (hs : Sound result moved k s) {es : List (ι × Except ε α)}
    (hstep : getStep moved s i = some (s', es)) :
    (es = [] ∧ Sound result moved k s' ∧ Quiet s s') ∨
      ∃ r, es = [(i, r)] ∧ Returns result moved k s s' i r := by
  cases hpc : s.getting i with
  | locking =>
    simp only [getStep, hpc] at hstep
    split_ifs at hstep with hmutex
    cases hstep
    exact .inl ⟨rfl, hs.acquire hmutex, quiet_of_moved rfl rfl (by rw [hpc]; nofun) nofun⟩
  | testing =>
    simp only [getStep, hpc, Option.some.injEq, Prod.mk.injEq] at hstep
    obtain ⟨rfl, rfl⟩ := hstep
    refine .inl ⟨rfl, ?_⟩
    split_ifs with hready
    · exact ⟨hs.keep (by rw [hpc]; rfl) (fun _ => hready) nofun, quiet_of_moved rfl rfl (by rw [hpc]; nofun) nofun⟩
    · have hmutex : s.mutex = some (.caller i) := (hs.caller i).mpr (by rw [hpc]; rfl)
      refine ⟨hs.release hmutex rfl nofun fun _ hdone => hready ?_, quiet_of_moved rfl rfl (by rw [hpc]; nofun) nofun⟩
      rw [hs.ready, hdone]
      rfl
  | waiting => simp [getStep, hpc] at hstep
  | taking => exact .inr (hs.take hpc hstep)
  | done => simp [getStep, hpc] at hstep

theorem Sound.wake [DecidableEq ι] (hs : Sound result moved k s) (hpc : s.getting i = .waiting) :
    Sound result moved k (s.at i .locking) ∧ Quiet s (s.at i .locking) :=
  ⟨hs.keep (by rw [hpc]; rfl) nofun nofun, quiet_of_moved rfl rfl (by rw [hpc]; nofun) nofun⟩

end Safety

section Ends

variable {ι α ε : Type} [DecidableEq ι] {result : Except ε α} {moved : α → α} {k : ℕ} {s : State ι α ε}

theorem Sound.free_of_stuck (hs : Sound result moved k s) (hstuck : Stuck result moved s) : s.mutex = none := by
  obtain ⟨hset, hget⟩ := hstuck
  cases hmutex : s.mutex with
  | none => rfl
  | some holder =>
    exfalso
    cases holder with
    | producer =>
      have hlocked := hs.producer.mp hmutex
      unfold setStep at hset
      cases hpc : s.setting with
      | locking | notifying | done => simp [hpc, Setting.locked] at hlocked
      | storing =>
        simp only [hpc] at hset
        cases result
        all_goals cases hset
      | publishing | unlocking => simp [hpc] at hset
    | caller i =>
      have hlocked := (hs.caller i).mp hmutex
      have hnone := hget i
      unfold getStep at hnone
      cases hpc : s.getting i with
      | locking | waiting | done => simp [hpc, Getting.locked] at hlocked
      | testing => simp [hpc] at hnone
      | taking =>
        simp only [hpc] at hnone
        split at hnone
        all_goals cases hnone

theorem Sound.done_of_stuck (hs : Sound result moved k s) (hstuck : Stuck result moved s) :
    s.setting = .done ∧ ∀ i, s.getting i = .done := by
  have hfree := hs.free_of_stuck hstuck
  obtain ⟨hset, hget⟩ := hstuck
  have hdone : s.setting = .done := by
    have hlocked := hs.producer
    unfold setStep at hset
    cases hpc : s.setting with
    | locking => simp [hpc, hfree] at hset
    | storing | publishing | unlocking => simp [hpc, hfree, Setting.locked] at hlocked
    | notifying => simp [hpc] at hset
    | done => rfl
  refine ⟨hdone, ?_⟩
  intro i
  have hlocked := hs.caller i
  have hnone := hget i
  unfold getStep at hnone
  cases hpc : s.getting i with
  | locking => simp [hpc, hfree] at hnone
  | testing | taking => simp [hpc, hfree, Getting.locked] at hlocked
  | waiting => exact absurd hpc (hs.waiting hdone i)
  | done => rfl

end Ends

section Runs

variable {ι α ε : Type} {result : Except ε α} {moved : α → α} {s s' : State ι α ε}
  {h : Trace (Action ι) (ι × Except ε α)} {a : Action ι} {es : List (ι × Except ε α)}

theorem Delivered.quiet (hd : Delivered result moved h s) (hs : Sound result moved h.events.length s')
    (hquiet : Quiet s s') : Sound result moved (h ++ [(a, [])]).events.length s' ∧
      Delivered result moved (h ++ [(a, [])]) s' := by
  have hevents : (h ++ [(a, [])] : Trace (Action ι) (ι × Except ε α)).events = h.events := by simp
  rw [hevents]
  refine ⟨hs, hs.defined, ?_, ?_, ?_, ?_⟩
  all_goals rw [hevents]
  · exact hd.once
  · exact fun i => (hquiet.done i).trans (hd.returned i)
  · exact hd.results
  · exact fun hne => hquiet.ready (hd.settled hne)

variable [DecidableEq ι]

theorem Delivered.returns {i : ι} {r : Except ε α} (hd : Delivered result moved h s)
    (hr : Returns result moved h.events.length s s' i r) :
    Sound result moved (h ++ [(a, [(i, r)])]).events.length s' ∧
      Delivered result moved (h ++ [(a, [(i, r)])]) s' := by
  have hevents : (h ++ [(a, [(i, r)])] : Trace (Action ι) (ι × Except ε α)).events = h.events ++ [(i, r)] := by simp
  have hnew : i ∉ h.events.map Prod.fst := mt (hd.returned i).mpr hr.running
  rw [hevents, List.length_append, List.length_singleton]
  refine ⟨hr.sound, hr.sound.defined, ?_, ?_, ?_, ?_⟩
  all_goals rw [hevents]
  · rw [List.map_append, List.map_singleton]
    refine List.nodup_append.mpr ⟨hd.once, List.nodup_singleton _, ?_⟩
    rintro j hj _ hi rfl
    rw [List.mem_singleton.mp hi] at hj
    exact hnew hj
  · intro j
    rw [List.map_append, List.map_singleton, List.mem_append, List.mem_singleton, ← hd.returned j, hr.next]
    obtain rfl | hne := eq_or_ne j i
    · simp
    · simp [hne]
  · rw [List.map_append, List.map_singleton, hd.results, hr.outcome, List.length_append, List.length_singleton,
      List.range_succ, List.map_append, List.map_singleton]
  · exact fun _ => hr.ready

theorem delivered_of_run (hr : (machine result moved).Run ({} : State ι α ε) h s) :
    Sound result moved h.events.length s ∧ Delivered result moved h s := by
  apply hr.invariant (I := fun h s => Sound result moved h.events.length s ∧ Delivered result moved h s)
  · exact ⟨Sound.start, rfl, List.nodup_nil, fun i => by simp, rfl, fun hne => absurd rfl hne⟩
  · rintro h s a s' es ⟨hs, hd⟩ - hstep
    cases a with
    | set =>
      obtain ⟨t, hset, heq⟩ := Option.map_eq_some_iff.mp hstep
      cases heq
      obtain ⟨hs', hquiet⟩ := hs.set hset
      exact hd.quiet hs' hquiet
    | get i =>
      obtain ⟨rfl, hs', hquiet⟩ | ⟨r, rfl, hreturns⟩ := hs.get hstep
      · exact hd.quiet hs' hquiet
      · exact hd.returns hreturns
    | wake i =>
      unfold machine at hstep
      simp only at hstep
      split_ifs at hstep with hpc
      cases hstep
      obtain ⟨hs', hquiet⟩ := hs.wake hpc
      exact hd.quiet hs' hquiet

end Runs

section Progress

variable {ι α ε : Type} [Fintype ι] {result : Except ε α} {moved : α → α} {k : ℕ} {s s' : State ι α ε} {i : ι}

def Setting.left : Setting → ℕ
  | .locking => 5
  | .storing => 4
  | .publishing => 3
  | .unlocking => 2
  | .notifying => 1
  | .done => 0

/-- A call that finds nothing goes back to the lock once more. -/
def Getting.left (ready : Bool) : Getting → ℕ
  | .locking => if ready then 3 else 6
  | .testing => if ready then 2 else 5
  | .waiting => 4
  | .taking => 1
  | .done => 0

def State.left (s : State ι α ε) : ℕ := s.setting.left + ∑ i, (s.getting i).left s.ready

theorem left_ready (pc : Getting) : pc.left true ≤ pc.left false := by
  cases pc
  all_goals decide

theorem Sound.set_left (hs : Sound result moved k s) (hstep : setStep result s = some s') : s'.left < s.left := by
  have hready := hs.ready
  unfold setStep at hstep
  cases hset : s.setting with
  | locking =>
    simp only [hset] at hstep
    split_ifs at hstep
    cases hstep
    simp [State.left, hset, Setting.left]
  | storing =>
    simp only [hset] at hstep
    cases result
    all_goals
      cases hstep
      simp [State.left, hset, Setting.left]
  | publishing =>
    simp only [hset, Option.some.injEq] at hstep
    subst hstep
    rw [hset] at hready
    have hless : ∑ i, (s.getting i).left true ≤ ∑ i, (s.getting i).left s.ready := by
      rw [hready]
      exact Finset.sum_le_sum fun i _ => left_ready (s.getting i)
    simp only [State.left, hset, Setting.left]
    omega
  | unlocking =>
    simp only [hset, Option.some.injEq] at hstep
    subst hstep
    simp [State.left, hset, Setting.left]
  | notifying =>
    simp only [hset, Option.some.injEq] at hstep
    subst hstep
    rw [hset] at hready
    have hless : ∑ i, (if s.getting i = .waiting then Getting.locking else s.getting i).left s.ready ≤
        ∑ i, (s.getting i).left s.ready := by
      apply Finset.sum_le_sum
      intro i _
      rw [hready]
      split_ifs with hwait
      · rw [hwait]
        decide
      · exact le_rfl
    simp only [State.left, hset, Setting.left]
    omega
  | done => simp [hset] at hstep

variable [DecidableEq ι]

theorem left_update (s : State ι α ε) (i : ι) (pc : Getting) :
    (s.at i pc).left + (s.getting i).left s.ready = s.left + pc.left s.ready := by
  have hsum := sum_update (fun pc : Getting => pc.left s.ready) s.getting pc (Finset.mem_univ i)
  unfold State.left State.at
  dsimp only at hsum ⊢
  omega

theorem Sound.get_left (hs : Sound result moved k s) {es : List (ι × Except ε α)}
    (hstep : getStep moved s i = some (s', es)) : s'.left < s.left := by
  have hupdate := left_update s i
  have hmutex (t : State ι α ε) (mutex : Option (Thread ι)) : { t with mutex := mutex }.left = t.left := rfl
  have htake := hs.get hstep
  unfold getStep at hstep
  cases hpc : s.getting i with
  | locking =>
    simp only [hpc] at hstep
    split_ifs at hstep
    cases hstep
    have hleft := hupdate .testing
    rw [hpc] at hleft
    rw [hmutex]
    simp only [Getting.left] at hleft
    split_ifs at hleft
    all_goals omega
  | testing =>
    simp only [hpc, Option.some.injEq, Prod.mk.injEq] at hstep
    obtain ⟨rfl, rfl⟩ := hstep
    split_ifs with hready
    · have hleft := hupdate .taking
      rw [hpc] at hleft
      simp only [Getting.left, hready, if_true] at hleft
      omega
    · have hleft := hupdate .waiting
      rw [hpc] at hleft
      simp only [Getting.left, hready, Bool.false_eq_true, if_false] at hleft
      rw [hmutex]
      omega
  | waiting => simp [hpc] at hstep
  | taking =>
    have hleft := hupdate .done
    rw [hpc] at hleft
    simp only [Getting.left] at hleft
    simp only [hpc] at hstep
    split at hstep
    · cases hstep
      rw [hmutex]
      omega
    · cases hstep
      change (s.at i .done).left < s.left
      omega
    · cases hstep
      obtain ⟨-, hs', -⟩ | ⟨r, hes, -⟩ := htake
      · exact absurd hs'.defined nofun
      · cases hes
  | done => simp [hpc] at hstep

theorem work_bounded {h : Trace (Action ι) (ι × Except ε α)}
    (hr : (machine result moved).Run ({} : State ι α ε) h s) :
    work h + s.left ≤ 5 + 6 * Fintype.card ι + 2 * wakes h := by
  induction hr with
  | refl => simp [work, State.left, Setting.left, Getting.left, mul_comm]
  | @step h s a s' es hr _ hstep ih =>
    obtain ⟨hs, -⟩ := delivered_of_run hr
    rw [work_append, wakes_append]
    cases a with
    | set =>
      obtain ⟨t, hset, heq⟩ := Option.map_eq_some_iff.mp hstep
      cases heq
      have hless := hs.set_left hset
      have hwake : (Action.set : Action ι).isWake = false := rfl
      simp only [hwake, Bool.false_eq_true, if_false]
      omega
    | get i =>
      have hless := hs.get_left hstep
      have hwake : (Action.get i).isWake = false := rfl
      simp only [hwake, Bool.false_eq_true, if_false]
      omega
    | wake i =>
      unfold machine at hstep
      simp only at hstep
      split_ifs at hstep with hpc
      cases hstep
      have hleft := left_update s i .locking
      have hwake : (Action.wake i).isWake = true := rfl
      rw [hpc] at hleft
      simp only [Getting.left] at hleft
      simp only [hwake, if_true]
      split_ifs at hleft
      all_goals omega

end Progress

section Outcomes

variable {ι α ε : Type} [DecidableEq ι] {result : Except ε α} {moved : α → α} {s : State ι α ε}
  {h : Trace (Action ι) (ι × Except ε α)}

/-- In every run the calls return one after the other, once each, and not before the promise is settled: the first with
its result, the others with what the moves before them have left. -/
theorem get_delivers (hr : (machine result moved).Run ({} : State ι α ε) h s) : Delivered result moved h s :=
  (delivered_of_run hr).2

/-- One call waits, the other comes later and takes the value first. -/
def meeting : List (Action Bool) :=
  [.get false, .get false, .set, .set, .set, .set, .get true, .get true, .get true, .set, .get false, .get false,
    .get false]

abbrev seven : Machine (State Bool ℕ String) (Action Bool) (Bool × Except String ℕ) := machine (.ok 7) fun _ => 0

theorem get_delivers_two : ∃ h s, seven.Run {} h s ∧ Delivered (.ok 7) (fun _ => 0) h s ∧
    h.events = [(true, .ok 7), (false, .ok 0)] := by
  obtain ⟨h, s, hr, hevents⟩ := Machine.exists_run seven {}
    (fun h _ => h.events = [(true, .ok 7), (false, .ok 0)]) meeting (by decide)
  exact ⟨h, s, hr, get_delivers hr, hevents⟩

/-- No notification is lost: there is so much to do and no more, and when nobody can go on all calls have returned. -/
theorem get_returns [Fintype ι] (hr : (machine result moved).Run ({} : State ι α ε) h s) :
    work h ≤ 5 + 6 * Fintype.card ι + 2 * wakes h ∧
      (Stuck result moved s → s.setting = .done ∧ ∀ i, i ∈ h.events.map Prod.fst) := by
  refine ⟨(Nat.le_add_right _ _).trans (work_bounded hr), ?_⟩
  intro hstuck
  obtain ⟨hs, hd⟩ := delivered_of_run hr
  obtain ⟨hdone, hall⟩ := hs.done_of_stuck hstuck
  exact ⟨hdone, fun i => (hd.returned i).mp (hall i)⟩

theorem get_returns_two : ∃ h s, seven.Run {} h s ∧ work h ≤ 17 ∧ s.setting = .done ∧
    ∀ i, i ∈ h.events.map Prod.fst := by
  obtain ⟨h, s, hr, hstuck, hwakes⟩ := Machine.exists_run seven {}
    (fun h s => Stuck (.ok 7) (fun _ => 0) s ∧ wakes h = 0) meeting (by decide)
  obtain ⟨hwork, hreturned⟩ := get_returns hr
  rw [hwakes] at hwork
  exact ⟨h, s, hr, hwork, hreturned hstuck⟩

end Outcomes

end Klett.Cunk.AsyncGet
