import Mathlib.Algebra.BigOperators.Group.List.Basic
import Mathlib.Algebra.Group.Basic
import Mathlib.Data.List.Basic

namespace Klett.Lib

/-- A machine that an environment drives with actions. A step may be disabled; an enabled one
leaves a list of observable events. -/
structure Machine (σ α ε : Type*) where
  step : σ → α → Option (σ × List ε)

/-- What a run did: each action with the events of its step, oldest first. -/
abbrev Trace (α ε : Type*) := List (α × List ε)

namespace Trace

variable {α ε : Type*}

def events (h : Trace α ε) : List ε := h.flatMap Prod.snd

@[simp] theorem events_nil : events ([] : Trace α ε) = [] := rfl

@[simp] theorem events_append (h k : Trace α ε) : (h ++ k).events = h.events ++ k.events := by
  simp [events]

@[simp] theorem events_single (a : α) (es : List ε) : events [(a, es)] = es := by simp [events]

theorem mem_events {h : Trace α ε} {e : ε} : e ∈ h.events ↔ ∃ x ∈ h, e ∈ x.2 := by simp [events]

end Trace

namespace Machine

variable {σ α ε : Type*} (M : Machine σ α ε)

/-- A condition on a step, looking at the run so far, the state before it and the action. -/
abbrev Guard (σ α ε : Type*) := Trace α ε → σ → α → Prop

/-- `M.Reach C s₀ h s`: some run from `s₀` with trace `h` ends in `s`, and each of its steps meets `C`. -/
inductive Reach (C : Guard σ α ε) (s₀ : σ) : Trace α ε → σ → Prop
  | refl : Reach C s₀ [] s₀
  | step {h s a t es} : Reach C s₀ h s → C h s a → M.step s a = some (t, es) →
      Reach C s₀ (h ++ [(a, es)]) t

abbrev Run (s₀ : σ) : Trace α ε → σ → Prop := M.Reach (fun _ _ _ => True) s₀

variable {M} {C D : Guard σ α ε} {s₀ s : σ} {h : Trace α ε}

theorem Reach.mono (hr : M.Reach C s₀ h s) (hcd : ∀ k t a, C k t a → D k t a) : M.Reach D s₀ h s := by
  induction hr with
  | refl => exact .refl
  | step _ hc he ih => exact .step ih (hcd _ _ _ hc) he

theorem Reach.run (hr : M.Reach C s₀ h s) : M.Run s₀ h s := hr.mono fun _ _ _ _ => trivial

/-- The invariant rule: what holds at the start and survives every step the guard admits
holds of every trace and state reached. -/
theorem Reach.invariant {I : Trace α ε → σ → Prop} (hr : M.Reach C s₀ h s) (hi : I [] s₀)
    (hs : ∀ k t a u es, I k t → C k t a → M.step t a = some (u, es) → I (k ++ [(a, es)]) u) :
    I h s := by
  induction hr with
  | refl => exact hi
  | step _ hc he ih => exact hs _ _ _ _ _ ih hc he

/-- What each step guarantees of its own events, given the run before it, holds at every
position of the trace. -/
theorem Reach.forall_entry {P : Trace α ε → α × List ε → Prop} (hr : M.Reach C s₀ h s)
    (hs : ∀ k t a u es, M.Reach C s₀ k t → C k t a → M.step t a = some (u, es) → P k (a, es)) :
    ∀ pre x post, h = pre ++ x :: post → P pre x := by
  induction hr with
  | refl => intro pre x post he; simp at he
  | @step k t a u es hk hc he ih =>
    intro pre x post hsplit
    rcases List.eq_nil_or_concat' post with rfl | ⟨front, last, rfl⟩
    · obtain ⟨rfl, hx⟩ := List.append_inj' hsplit rfl
      rw [← List.singleton_inj.mp hx]
      exact hs _ _ _ _ _ hk hc he
    · apply ih pre x front
      rw [← List.cons_append, ← List.append_assoc] at hsplit
      exact (List.append_inj' hsplit rfl).1

theorem Reach.last {a : α} {es : List ε} {t : σ} (hr : M.Reach C s₀ (h ++ [(a, es)]) t) :
    ∃ s, M.Reach C s₀ h s ∧ C h s a ∧ M.step s a = some (t, es) := by
  generalize hk : h ++ [(a, es)] = k at hr
  cases hr with
  | refl => simp at hk
  | step hr hc he =>
    obtain ⟨rfl, hx⟩ := List.append_inj' hk rfl
    cases hx
    exact ⟨_, hr, hc, he⟩

/-- A trace leads to one state. -/
theorem Reach.unique {t : σ} (hr : M.Reach C s₀ h s) (hq : M.Reach D s₀ h t) : s = t := by
  induction hr generalizing t with
  | refl =>
    generalize hk : ([] : Trace α ε) = k at hq
    cases hq with
    | refl => rfl
    | step => simp at hk
  | step _ _ he ih =>
    obtain ⟨u, hu, -, hstep⟩ := hq.last
    obtain rfl := ih hu
    rw [he] at hstep
    cases hstep
    rfl

/-- Where a step keeps `J` if and only if it meets the guard, `J` holds at the end of a run if and only if all of
its steps meet the guard. -/
theorem Reach.iff_guarded {J : σ → Prop} (hr : M.Run s₀ h s) (hi : J s₀)
    (hs : ∀ k t a u es, M.Run s₀ k t → M.step t a = some (u, es) → (J u ↔ J t ∧ C k t a)) :
    J s ↔ M.Reach C s₀ h s := by
  induction hr with
  | refl => exact iff_of_true hi .refl
  | step hr _ he ih =>
    rw [hs _ _ _ _ _ hr he, ih]
    constructor
    · rintro ⟨hreach, hc⟩
      exact hreach.step hc he
    · intro hreach
      obtain ⟨t, ht, hc, -⟩ := hreach.last
      obtain rfl := ht.unique hr
      exact ⟨ht, hc⟩

/-- Where one machine does what another does to the states seen through `f`, it has a run for each of the other's. -/
theorem Reach.lift {τ β : Type*} {N : Machine τ β ε} {E : Guard τ β ε} {f : σ → τ} {act : β → α}
    (hstep : ∀ s b, N.step (f s) b = (M.step s (act b)).map (Prod.map f id))
    (hguard : ∀ k s b, E k (f s) b → C (k.map (Prod.map act id)) s (act b)) {k : Trace β ε} {t : τ}
    (hr : N.Reach E (f s₀) k t) : ∃ s, M.Reach C s₀ (k.map (Prod.map act id)) s ∧ f s = t := by
  induction hr with
  | refl => exact ⟨s₀, .refl, rfl⟩
  | @step k u b t es _ hd he ih =>
    obtain ⟨s, hs, rfl⟩ := ih
    rw [hstep] at he
    obtain ⟨⟨s', es'⟩, hs', heq⟩ := Option.map_eq_some_iff.mp he
    obtain ⟨rfl, rfl⟩ := Prod.mk.inj heq
    refine ⟨s', ?_, rfl⟩
    rw [List.map_append, List.map_singleton]
    exact hs.step (hguard k s b hd) hs'

def exec (M : Machine σ α ε) : σ → List α → Option (Trace α ε × σ)
  | s, [] => some ([], s)
  | s, a :: as =>
    match M.step s a with
    | none => none
    | some (t, es) => (exec M t as).map fun (h, u) => ((a, es) :: h, u)

theorem Reach.exec {as : List α} {k : Trace α ε} {t : σ} (hr : M.Run s₀ h s)
    (he : M.exec s as = some (k, t)) : M.Run s₀ (h ++ k) t := by
  induction as generalizing s h k with
  | nil =>
    obtain ⟨rfl, rfl⟩ : [] = k ∧ s = t := by simpa [Machine.exec] using he
    simpa using hr
  | cons a as ih =>
    unfold Machine.exec at he
    split at he
    · cases he
    next u es hstep =>
      obtain ⟨⟨k', t'⟩, hk, heq⟩ := Option.map_eq_some_iff.mp he
      obtain ⟨rfl, rfl⟩ : (a, es) :: k' = k ∧ t' = t := by simpa using heq
      have hrun := ih (hr.step trivial hstep) hk
      simpa using hrun

theorem run_of_exec (as : List α) {t : σ} (he : M.exec s₀ as = some (h, t)) : M.Run s₀ h t := by
  simpa using Reach.exec .refl he

/-- What can be brought about from the state after a step can be brought about from the one before it. -/
theorem exists_exec_cons {P : σ → Prop} {a : α} {t : σ} {es : List ε} (hstep : M.step s a = some (t, es))
    (he : ∃ as k u, M.exec t as = some (k, u) ∧ P u) : ∃ as k u, M.exec s as = some (k, u) ∧ P u := by
  obtain ⟨as, k, u, hexec, hu⟩ := he
  refine ⟨a :: as, (a, es) :: k, u, ?_, hu⟩
  simp only [Machine.exec, hstep, hexec, Option.map_some]

section Guarded

variable (M C) [∀ k t a, Decidable (C k t a)]

def guardedExec : Trace α ε → σ → List α → Option (Trace α ε × σ)
  | h, s, [] => some (h, s)
  | h, s, a :: as =>
    if C h s a then
      match M.step s a with
      | none => none
      | some (t, es) => guardedExec (h ++ [(a, es)]) t as
    else none

variable {M C}

theorem Reach.guardedExec {as : List α} {k : Trace α ε} {t : σ} (hr : M.Reach C s₀ h s)
    (he : M.guardedExec C h s as = some (k, t)) : M.Reach C s₀ k t := by
  induction as generalizing s h with
  | nil =>
    obtain ⟨rfl, rfl⟩ : h = k ∧ s = t := by simpa [Machine.guardedExec] using he
    exact hr
  | cons a as ih =>
    unfold Machine.guardedExec at he
    split_ifs at he with hc
    split at he
    · cases he
    next u es hstep => exact ih (hr.step hc hstep) he

variable (M C s₀)

theorem exists_reach (p : Trace α ε → σ → Prop) [∀ h t, Decidable (p h t)] (as : List α)
    (he : (match M.guardedExec C [] s₀ as with
      | some (h, t) => decide (p h t)
      | none => false) = true) : ∃ h t, M.Reach C s₀ h t ∧ p h t := by
  split at he
  next h t hexec => exact ⟨h, t, Reach.refl.guardedExec hexec, of_decide_eq_true he⟩
  · cases he

end Guarded

variable (M s₀)

theorem exists_run (p : Trace α ε → σ → Prop) [∀ h t, Decidable (p h t)] (as : List α)
    (he : (match M.guardedExec (fun _ _ _ => True) [] s₀ as with
      | some (h, t) => decide (p h t)
      | none => false) = true) : ∃ h t, M.Run s₀ h t ∧ p h t :=
  exists_reach M _ s₀ p as he

end Machine

namespace Machine

variable {σ α ε γ : Type*} (M : Machine σ α ε) (record : γ → σ → α → List ε → γ)

/-- The machine with a history that it writes as it goes: `record` sees the state before each step,
the action and the events. -/
def recording : Machine (σ × γ) α ε where
  step x a := (M.step x.1 a).map fun (t, es) => ((t, record x.2 x.1 a es), es)

variable {M record} {C : Guard σ α ε} {s₀ s : σ} {g₀ g : γ} {h : Trace α ε}

theorem recording_step {x y : σ × γ} {a : α} {es : List ε} :
    (M.recording record).step x a = some (y, es) ↔
      M.step x.1 a = some (y.1, es) ∧ y.2 = record x.2 x.1 a es := by
  obtain ⟨t, g⟩ := y
  simp only [recording, Option.map_eq_some_iff, Prod.exists, Prod.mk.injEq]
  constructor
  · rintro ⟨u, fs, hstep, ⟨rfl, rfl⟩, rfl⟩
    exact ⟨hstep, rfl⟩
  · rintro ⟨hstep, rfl⟩
    exact ⟨t, es, hstep, ⟨rfl, rfl⟩, rfl⟩

theorem Reach.unrecorded {x : σ × γ}
    (hr : (M.recording record).Reach (fun k y a => C k y.1 a) (s₀, g₀) h x) : M.Reach C s₀ h x.1 := by
  induction hr with
  | refl => exact .refl
  | step _ hc he ih => exact ih.step hc (recording_step.mp he).1

theorem Reach.recorded (hr : M.Reach C s₀ h s) :
    ∃ g, (M.recording record).Reach (fun k y a => C k y.1 a) (s₀, g₀) h (s, g) := by
  induction hr with
  | refl => exact ⟨g₀, .refl⟩
  | step _ hc he ih =>
    obtain ⟨g, hg⟩ := ih
    exact ⟨_, hg.step hc (recording_step.mpr ⟨he, rfl⟩)⟩

end Machine

section Steps

variable {σ α : Type*}

/-- `P` holds at every step of the run that takes the actions one after the other: of the state
before the step and its action. -/
def Along (next : σ → α → σ) (P : σ → α → Prop) : σ → List α → Prop
  | _, [] => True
  | s, a :: as => P s a ∧ Along next P (next s a) as

namespace Along

variable {next : σ → α → σ} {P Q R : σ → α → Prop} {I : σ → Prop} {s : σ} {as : List α}

instance decidable [∀ s a, Decidable (P s a)] : ∀ s as, Decidable (Along next P s as)
  | _, [] => isTrue trivial
  | s, a :: as =>
    have := decidable (next s a) as
    inferInstanceAs (Decidable (_ ∧ _))

theorem of_forall (h : ∀ s a, P s a) : Along next P s as := by
  induction as generalizing s with
  | nil => trivial
  | cons a as ih => exact ⟨h s a, ih⟩

theorem foldl (h : Along next P s as) (hi : I s) (hs : ∀ s a, I s → P s a → I (next s a)) :
    I (as.foldl next s) := by
  induction as generalizing s with
  | nil => exact hi
  | cons a as ih => exact ih h.2 (hs s a hi h.1)

theorem and (hp : Along next P s as) (hq : Along next Q s as) :
    Along next (fun s a => P s a ∧ Q s a) s as := by
  induction as generalizing s with
  | nil => trivial
  | cons a as ih => exact ⟨⟨hp.1, hq.1⟩, ih hp.2 hq.2⟩

theorem imp (h : Along next P s as) (hi : I s) (hs : ∀ s a, I s → P s a → I (next s a))
    (hpq : ∀ s a, I s → P s a → Q s a) : Along next Q s as := by
  induction as generalizing s with
  | nil => trivial
  | cons a as ih => exact ⟨hpq s a hi h.1, ih h.2 (hs s a hi h.1)⟩

/-- Where an invariant of the run makes two properties of a step the same, they hold along the
same runs. -/
theorem congr (h : Along next P s as) (hi : I s) (hs : ∀ s a, I s → P s a → I (next s a))
    (hqr : ∀ s a, I s → P s a → (Q s a ↔ R s a)) : Along next Q s as ↔ Along next R s as := by
  induction as generalizing s with
  | nil => rfl
  | cons a as ih => exact and_congr (hqr s a hi h.1) (ih h.2 (hs s a hi h.1))

/-- Two properties of a step that are the same wherever an invariant holds, and keep it, hold along the
same runs. -/
theorem congr_keep (h : Along next P s as) (hi : I s)
    (hqr : ∀ s a, I s → P s a → (Q s a ↔ R s a))
    (hs : ∀ s a, I s → P s a → Q s a → I (next s a)) : Along next Q s as ↔ Along next R s as := by
  induction as generalizing s with
  | nil => rfl
  | cons a as ih =>
    constructor
    · rintro ⟨hq, hrest⟩
      exact ⟨(hqr s a hi h.1).mp hq, (ih h.2 (hs s a hi h.1 hq)).mp hrest⟩
    · rintro ⟨hr, hrest⟩
      have hq := (hqr s a hi h.1).mpr hr
      exact ⟨hq, (ih h.2 (hs s a hi h.1 hq)).mpr hrest⟩

end Along

end Steps

section Tally

variable {σ α M : Type*} [AddCommGroup M]

/-- What the steps of a run contribute together, each by its own state and action. -/
def tally (next : σ → α → σ) (f : σ → α → M) : σ → List α → M
  | _, [] => 0
  | s, a :: as => f s a + tally next f (next s a) as

variable {next : σ → α → σ} {P : σ → α → Prop} {f g : σ → α → M} {s : σ} {as : List α}

theorem tally_sub : tally next (fun s a => f s a - g s a) s as = tally next f s as - tally next g s as := by
  induction as generalizing s with
  | nil => exact (sub_zero 0).symm
  | cons a as ih =>
    simp only [tally, ih]
    exact sub_add_sub_comm _ _ _ _

theorem tally_of_action (c : α → M) : tally next (fun _ a => c a) s as = (as.map c).sum := by
  induction as generalizing s with
  | nil => rfl
  | cons a as ih => rw [tally, ih, List.map_cons, List.sum_cons]

theorem Along.tally (value : σ → M) (h : Along next P s as) (hs : ∀ s a, P s a → value (next s a) = value s + f s a) :
    value (as.foldl next s) = value s + tally next f s as := by
  induction as generalizing s with
  | nil => exact (add_zero _).symm
  | cons a as ih =>
    obtain ⟨ha, hrest⟩ := h
    calc value (as.foldl next (next s a)) = value (next s a) + Lib.tally next f (next s a) as := ih hrest
      _ = value s + (f s a + Lib.tally next f (next s a) as) := by rw [hs s a ha, add_assoc]

end Tally

end Klett.Lib
